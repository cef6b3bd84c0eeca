import KafkaWire.Broker.ArchiveRead
import KafkaWire.Tiering.Archiving
import KafkaWire.Tiering.ManifestFlush
import Mathlib.Order.CompletePartialOrder

/-! The completed entries of the manifest after any calls: they never overlap, and each is the last
one that was added at its position. -/

namespace KafkaWire.Broker

open Tiering

def Apart (e e' : SegmentEntry) : Prop :=
  e.topic = e'.topic → e.partition = e'.partition →
    Disjoint (Set.Ico e.baseOffset e.nextOffset) (Set.Ico e'.baseOffset e'.nextOffset) ∧
    e.baseOffset ≠ e'.baseOffset

theorem apart_of_not_replaced {e e' : SegmentEntry} (kept : Manifest.replacedBy e' e = false) :
    Apart e e' := by
  intro topic partition
  simp only [Manifest.replacedBy, topic, partition, decide_true, Bool.true_and, Bool.or_eq_false_iff,
    Bool.and_eq_false_iff, decide_eq_false_iff_not, not_lt] at kept
  refine ⟨Set.Ico_disjoint_Ico.mpr ?_, kept.2⟩
  rcases kept.1 with above | below
  · exact (min_le_right _ _).trans (above.trans (le_max_left _ _))
  · exact (min_le_left _ _).trans (below.trans (le_max_right _ _))

def Standing (changes : List (Nat × ManifestOp)) (e : SegmentEntry) : Prop :=
  ∃ earlier idx later, changes = earlier ++ (idx, .addCompleted e) :: later ∧
    ∀ change ∈ later, ¬change.2.Replaces .completed (.addCompleted e)

theorem standing_concat (changes : List (Nat × ManifestOp)) (idx : Nat) (op : ManifestOp)
    (e : SegmentEntry) :
    Standing (changes ++ [(idx, op)]) e ↔
      op = .addCompleted e ∨ Standing changes e ∧ ¬op.Replaces .completed (.addCompleted e) := by
  constructor
  · rintro ⟨earlier, place, later, same, unreplaced⟩
    rcases List.eq_nil_or_concat' later with rfl | ⟨front, last, rfl⟩
    · exact .inl (congrArg Prod.snd (List.cons.inj (List.append_inj' same rfl).2).1)
    · rw [← List.cons_append, ← List.append_assoc] at same
      obtain ⟨rfl, final⟩ := List.append_inj' same rfl
      cases final
      exact .inr ⟨⟨earlier, place, front, rfl, fun change member =>
        unreplaced change (List.mem_append_left _ member)⟩,
        unreplaced (idx, op) (List.mem_append_right _ List.mem_cons_self)⟩
  · rintro (rfl | ⟨⟨earlier, place, later, rfl, unreplaced⟩, kept⟩)
    · exact ⟨changes, idx, [], rfl, by simp⟩
    · refine ⟨earlier, place, later ++ [(idx, op)], by simp, ?_⟩
      intro change member
      rcases List.mem_append.mp member with known | new
      · exact unreplaced change known
      · rw [List.mem_singleton.mp new]
        exact kept

theorem mem_change (segments : List SegmentEntry) (op : ManifestOp) (e : SegmentEntry) :
    e ∈ ManifestOp.change .completed segments op ↔
      op = .addCompleted e ∨ e ∈ segments ∧ ¬op.Replaces .completed (.addCompleted e) := by
  cases op with
  | addCompleted new =>
    simp only [ManifestOp.change, ManifestOp.apply, Manifest.addCompleted, ManifestOp.Replaces,
      List.mem_append, List.mem_filter, List.mem_singleton, ManifestOp.addCompleted.injEq,
      Bool.not_eq_true']
    rw [or_comm, eq_comm, Bool.not_eq_true]
  | forgetTopic topic =>
    simp [ManifestOp.change, ManifestOp.apply, Manifest.forgetTopic, ManifestOp.Replaces]
  | setPending upload =>
    simp [ManifestOp.change, ManifestOp.apply, Manifest.setPending, ManifestOp.Replaces]
  | abortPending s3Key =>
    simp [ManifestOp.change, ManifestOp.apply, Manifest.abortPending, ManifestOp.Replaces]

theorem change_apart {segments : List SegmentEntry} (op : ManifestOp)
    (apart : segments.Pairwise Apart) : (ManifestOp.change .completed segments op).Pairwise Apart := by
  cases op with
  | addCompleted new =>
    refine List.pairwise_append.mpr ⟨apart.filter _, List.pairwise_singleton _ _, ?_⟩
    intro e member e' last
    rw [List.mem_singleton.mp last]
    exact apart_of_not_replaced (by simpa using (List.mem_filter.mp member).2)
  | forgetTopic topic => exact apart.filter _
  | setPending upload => exact apart
  | abortPending s3Key => exact apart

theorem replay_completed (changes : List (Nat × ManifestOp)) :
    (Flush.replay manifestDesign .completed [] changes).Pairwise Apart ∧
    ∀ e, e ∈ Flush.replay manifestDesign .completed [] changes ↔ Standing changes e := by
  induction changes using List.reverseRecOn with
  | nil => exact ⟨List.Pairwise.nil, fun e => ⟨nofun, fun ⟨_, _, _, same, _⟩ => by simp at same⟩⟩
  | append_singleton changes change ih =>
    obtain ⟨idx, op⟩ := change
    rw [Flush.replay_concat]
    refine ⟨change_apart op ih.1, fun e => ?_⟩
    rw [standing_concat, ← ih.2 e]
    exact mem_change _ op e

theorem filter_length_le_one {segments : List SegmentEntry} {found : SegmentEntry → Bool}
    (apart : segments.Pairwise Apart)
    (clash : ∀ e e', found e → found e' → ¬Apart e e') : (segments.filter found).length ≤ 1 := by
  have pairs := apart.filter found
  match same : segments.filter found with
  | [] => exact Nat.zero_le _
  | [_] => exact le_rfl
  | e :: e' :: rest =>
    rw [same] at pairs
    have first : e ∈ segments.filter found := by rw [same]; exact List.mem_cons_self
    have second : e' ∈ segments.filter found := by
      rw [same]
      exact List.mem_cons_of_mem _ List.mem_cons_self
    exact absurd (List.rel_of_pairwise_cons pairs List.mem_cons_self)
      (clash e e' (List.mem_filter.mp first).2 (List.mem_filter.mp second).2)

theorem not_apart_of_base (topic : String) (partition baseOffset : Int) (e e' : SegmentEntry)
    (found : (e.topic = topic && e.partition = partition && e.baseOffset = baseOffset : Bool))
    (found' : (e'.topic = topic && e'.partition = partition && e'.baseOffset = baseOffset : Bool)) :
    ¬Apart e e' := by
  simp only [Bool.and_eq_true, decide_eq_true_eq] at found found'
  intro apart
  exact (apart (found.1.1.trans found'.1.1.symm) (found.1.2.trans found'.1.2.symm)).2
    (found.2.trans found'.2.symm)

theorem not_apart_of_offset (topic : String) (partition fetchOffset : Int) (e e' : SegmentEntry)
    (found : ((e.partition = partition && fetchOffset ≥ e.baseOffset &&
      fetchOffset < e.nextOffset) && e.topic = topic : Bool))
    (found' : ((e'.partition = partition && fetchOffset ≥ e'.baseOffset &&
      fetchOffset < e'.nextOffset) && e'.topic = topic : Bool)) : ¬Apart e e' := by
  simp only [Bool.and_eq_true, decide_eq_true_eq] at found found'
  obtain ⟨⟨⟨same, low⟩, high⟩, topics⟩ := found
  obtain ⟨⟨⟨same', low'⟩, high'⟩, topics'⟩ := found'
  intro apart
  have disjoint := (apart (topics.trans topics'.symm) (same.trans same'.symm)).1
  exact Set.disjoint_left.mp disjoint ⟨low, high⟩ ⟨low', high'⟩

/-- However calls, failing flushes and restarts follow each other from an empty manifest, there are
changes, with those of all calls that returned without an error and all since the last restart
among them, such that exactly the entries which they leave standing are completed. No two of these
overlap, so that `Lookup` and the search of a fetch have one entry to find at most. -/
theorem completed_entries_apart
    (temp : (file : ManifestFile) → Option (Publish.Contents file.Value))
    (events : List (Flush.Event ManifestOp)) :
    ∃ made : List (Nat × ManifestOp),
      made.Sublist (manifestRun (fun _ => none) temp events).history ∧
      (∀ idx op, (manifestRun (fun _ => none) temp events).calls[idx]? = some (op, .returned true) →
        .completed ∈ op.files → (idx, op) ∈ made) ∧
      (∀ before after, before ++ after = events → Flush.Event.crash ∉ after →
        ∃ new, (manifestRun (fun _ => none) temp events).history =
          (manifestRun (fun _ => none) temp before).history ++ new ∧ new <:+ made) ∧
      ∀ m : Manifest, m.completed = (manifestRun (fun _ => none) temp events).memory .completed →
        m.completed.Pairwise Apart ∧
        (∀ e, e ∈ m.completed ↔ Standing made e) ∧
        (∀ topic partition baseOffset, (m.completed.filter fun entry => entry.topic = topic &&
          entry.partition = partition && entry.baseOffset = baseOffset).length ≤ 1) ∧
        ∀ topic partition fetchOffset, ((m.allForTopic topic).filter fun e =>
          e.partition = partition && fetchOffset ≥ e.baseOffset &&
            fetchOffset < e.nextOffset).length ≤ 1 := by
  obtain ⟨g, inv, recent⟩ := Flush.run_inv manifestDesign (fun _ => none) temp events
  refine ⟨g.mem .completed, inv.made .completed, ?_, ?_, ?_⟩
  · intro idx op returned flushed
    exact (inv.ahead .completed).subset (inv.calls idx op _ returned .completed flushed)
  · intro before after whole running
    obtain ⟨new, history, suffix⟩ := recent before after whole running
    exact ⟨new, history, suffix .completed⟩
  · intro m same
    obtain ⟨apart, standing⟩ := replay_completed (g.mem .completed)
    have replayed : m.completed = Flush.replay manifestDesign .completed [] (g.mem .completed) :=
      same.trans (inv.memory .completed)
    rw [← replayed] at apart standing
    refine ⟨apart, standing, ?_, ?_⟩
    · intro topic partition baseOffset
      exact filter_length_le_one apart (not_apart_of_base topic partition baseOffset)
    · intro topic partition fetchOffset
      rw [Manifest.allForTopic, List.filter_filter]
      exact filter_length_le_one apart (not_apart_of_offset topic partition fetchOffset)

end KafkaWire.Broker
