import KafkaWire.Storage.Intact
import KafkaWire.Storage.Marks

/-! Timestamp indexes that have a sample of every batch of their segment. -/

namespace KafkaWire.Storage

open Bytes Files Programs BinarySearch

def maxTimestamp (batch : Bytes) : Int := (decodeHeader batch).maxTimestamp

theorem maxTimestamp_stamp (batch : Bytes) (offset : Int) (long : 61 ≤ batch.length) :
    maxTimestamp (stamp batch offset) = maxTimestamp batch := by
  unfold maxTimestamp
  rw [decodeHeader_stamp batch offset long]

def timeMark (base : Int) (batch : Bytes) : TimeEntry :=
  ⟨maxTimestamp batch, ((decodeHeader batch).baseOffset - base).toNat⟩

def TimeIndex.sample (t : TimeIndex) (ts relOffset position : Int) : TimeIndex :=
  { t with
    entries := t.entries ++ [⟨ts, relOffset.toNat⟩]
    lastIndexedPos := position
    lastTS := ts }

structure TimeIndex.Due (t : TimeIndex) (ts relOffset position : Int) : Prop where
  apart : t.entries = [] ∨ t.interval ≤ position - t.lastIndexedPos
  newer : t.entries = [] ∨ t.lastTS < ts
  low : 0 ≤ relOffset
  high : relOffset ≤ 0xFFFFFFFF

section Sampling

variable {world : World}

theorem TimeIndex.maybeAppend_due (t : TimeIndex) (ts relOffset position : Int)
    (due : t.Due ts relOffset position) (quiet : world.Quiet) :
    Yields (t.maybeAppend ts relOffset position) world
      (fun t' _ => t' = t.sample ts relOffset position) fun _ _ => False := by
  obtain ⟨apart, newer, low, high⟩ := due
  have empty : t.entries = [] → ¬ 0 < t.entries.length := by
    intro none
    simp [none]
  unfold TimeIndex.maybeAppend
  rw [if_neg ?_]
  · have kept : (if ts ≤ t.lastTS ∧ 0 < t.entries.length then int64 (t.lastTS + 1) else ts) = ts := by
      rw [if_neg]
      rintro ⟨older, filled⟩
      rcases newer with none | newer
      · exact empty none filled
      · omega
    dsimp only
    rw [kept, if_neg (by omega), yields_bind, yields_mapError]
    refine yields_writeFile .timeIndex t.file _ (fun count faulty => ?_) fun _ => rfl
    rw [quiet.next] at faulty
    cases faulty
  · rintro ⟨close, filled⟩
    rcases apart with none | apart
    · exact empty none filled
    · omega

theorem Segment.indexBatch_due (s : Segment) (h : BatchHeader) (position : Nat) (quiet : world.Quiet)
    (due : s.tix.Due h.maxTimestamp (int64 (h.baseOffset - s.baseOffset)) position) :
    Yields (s.indexBatch h position) world
      (fun after _ => after.tix =
        s.tix.sample h.maxTimestamp (int64 (h.baseOffset - s.baseOffset)) position)
      fun _ _ => False := by
  unfold Segment.indexBatch
  simp only [yields_bind, yields_orElse, yields_pure]
  have second (idx : Index) (middle : World) (later : Later world middle) :
      Yields (s.tix.maybeAppend h.maxTimestamp (int64 (h.baseOffset - s.baseOffset)) position) middle
        (fun tix _ => tix = s.tix.sample h.maxTimestamp (int64 (h.baseOffset - s.baseOffset)) position)
        (fun _ _ => s.tix =
          s.tix.sample h.maxTimestamp (int64 (h.baseOffset - s.baseOffset)) position) :=
    (s.tix.maybeAppend_due _ _ _ due (later.quiet quiet)).mono (fun _ _ same => same)
      fun _ _ impossible => impossible.elim
  exact (Index.maybeAppend_spec s.idx _ _ world).mono
    (fun idx middle held => second idx middle held.2.1.later)
    fun _ middle held => second s.idx middle held.1.later

theorem Segment.append_due (s : Segment) (batch : Bytes) (quiet : world.Quiet)
    (due : s.tix.Due (maxTimestamp batch) (int64 ((decodeHeader batch).baseOffset - s.baseOffset))
      s.logSize) :
    Yields (s.append batch) world
      (fun done _ => done.segment.tix = s.tix.sample (maxTimestamp batch)
        (int64 ((decodeHeader batch).baseOffset - s.baseOffset)) s.logSize)
      fun _ _ => True := by
  unfold Segment.append
  dsimp only
  split
  · trivial
  · split
    · trivial
    · next h parsed =>
        obtain ⟨-, rfl⟩ := (parse_ok_iff batch h).mp parsed
        split
        · trivial
        · split
          · trivial
          · rw [yields_bind, yields_mapError]
            refine yields_writeFile .log s.logFile _ (fun _ _ => trivial) fun _ => ?_
            rw [yields_bind]
            refine Yields.mono (Segment.indexBatch_due (s.past batch) _ _ ?_ due)
              (fun _ _ same => same) fun _ _ impossible => impossible.elim
            exact Later.quiet (show Later world _ from world.pending_advance) quiet

end Sampling

structure Timed (interval : Int) (s : Segment) (batches : List Bytes) : Prop where
  entries : s.tix.entries = batches.map (timeMark s.baseOffset)
  last : ∀ front batch, batches = front ++ [batch] →
    s.tix.lastTS = maxTimestamp batch ∧ s.tix.lastIndexedPos = front.flatten.length
  interval : s.tix.interval = interval

section Segments

variable {interval : Int} {s s' : Segment} {batches : List Bytes} {batch : Bytes}

theorem Timed.due (timed : Timed interval s batches) (size : s.logSize = batches.flatten.length)
    (long : ∀ b ∈ batches, interval ≤ b.length) (ts relOffset : Int)
    (newer : ∀ b ∈ batches, maxTimestamp b < ts) (low : 0 ≤ relOffset)
    (high : relOffset ≤ 0xFFFFFFFF) : s.tix.Due ts relOffset s.logSize := by
  rcases List.eq_nil_or_concat batches with rfl | ⟨front, last, rfl⟩
  · exact ⟨.inl timed.entries, .inl timed.entries, low, high⟩
  · rw [List.concat_eq_append] at timed size long newer
    obtain ⟨lastTS, position⟩ := timed.last front last rfl
    have member : last ∈ front ++ [last] := by simp
    refine ⟨.inr ?_, .inr (lastTS ▸ newer last member), low, high⟩
    have apart := long last member
    rw [timed.interval, position, size, List.flatten_append, List.flatten_singleton,
      List.length_append]
    omega

theorem Timed.append (timed : Timed interval s batches) (size : s.logSize = batches.flatten.length)
    (base : s'.baseOffset = s.baseOffset)
    (sampled : s'.tix = s.tix.sample (maxTimestamp batch) ((decodeHeader batch).baseOffset - s.baseOffset)
      s.logSize) : Timed interval s' (batches ++ [batch]) := by
  refine ⟨?_, fun front last shape => ?_, ?_⟩
  · rw [sampled, base, List.map_append, ← timed.entries]
    rfl
  · obtain ⟨rfl, same⟩ := List.append_inj' shape rfl
    obtain rfl := List.singleton_inj.mp same
    rw [sampled, ← size]
    exact ⟨rfl, rfl⟩
  · rw [sampled]
    exact timed.interval

section Searching

variable {t : TimeIndex} {ts : Int}

theorem TimeIndex.isAtLeast_of_getElem? {k : Nat} {entry : TimeEntry}
    (found : t.entries[k]? = some entry) : t.isAtLeast ts k = decide (entry.timestamp ≥ ts) := by
  rw [TimeIndex.isAtLeast, found]

theorem TimeIndex.lookupOffset_none (older : ∀ entry ∈ t.entries, entry.timestamp < ts) :
    t.lookupOffset ts = none := by
  rw [TimeIndex.lookupOffset]
  split
  · rfl
  · have boundary : Boundary t.entries.length (t.isAtLeast ts) t.entries.length := by
      refine ⟨le_refl _, fun k inside => ?_, fun k low high => by omega⟩
      rw [TimeIndex.isAtLeast_of_getElem? (List.getElem?_eq_getElem inside), decide_eq_false_iff_not]
      exact not_le.mpr (older _ (List.getElem_mem inside))
    dsimp only
    rw [search_eq _ _ _ boundary, List.getElem?_eq_none (le_refl _)]

theorem TimeIndex.lookupOffset_some {front rest : List TimeEntry} {entry : TimeEntry}
    (shape : t.entries = front ++ entry :: rest) (older : ∀ e ∈ front, e.timestamp < ts)
    (newer : ∀ e ∈ entry :: rest, ts ≤ e.timestamp) : t.lookupOffset ts = some entry.relOffset := by
  have boundary : Boundary t.entries.length (t.isAtLeast ts) front.length := by
    refine ⟨by simp [shape], fun k before => ?_, fun k low high => ?_⟩
    · have found : t.entries[k]? = some front[k] := by
        rw [shape, List.getElem?_append_left before, List.getElem?_eq_getElem before]
      rw [TimeIndex.isAtLeast_of_getElem? found, decide_eq_false_iff_not]
      exact not_le.mpr (older _ (List.getElem_mem before))
    · have found := List.getElem?_eq_getElem high
      rw [TimeIndex.isAtLeast_of_getElem? found, decide_eq_true_iff]
      refine newer _ (List.mem_of_getElem? (i := k - front.length) ?_)
      rw [← List.getElem?_append_right low, ← shape, found]
  rw [TimeIndex.lookupOffset, if_neg (by simp [shape])]
  dsimp only
  rw [search_eq _ _ _ boundary, shape, List.getElem?_append_right (le_refl _), Nat.sub_self]
  rfl

/-- Samples in the order of their timestamps are searched for the first that is new enough. -/
theorem TimeIndex.lookupOffset_find
    (ascending : t.entries.Pairwise fun a b => a.timestamp < b.timestamp) (ts : Int) :
    t.lookupOffset ts =
      (t.entries.find? fun e => decide (ts ≤ e.timestamp)).map fun e => (e.relOffset : Int) := by
  cases found : t.entries.find? fun e => decide (ts ≤ e.timestamp) with
  | none =>
    refine TimeIndex.lookupOffset_none fun entry member => ?_
    simpa using List.find?_eq_none.mp found entry member
  | some entry =>
    obtain ⟨isNew, front, rest, shape, old⟩ := List.find?_eq_some_iff_append.mp found
    have first : ts ≤ entry.timestamp := by simpa using isNew
    rw [shape] at ascending
    refine TimeIndex.lookupOffset_some shape (fun e member => by simpa using old e member) ?_
    rw [List.forall_mem_cons]
    refine ⟨first, fun e member => first.trans (le_of_lt ?_)⟩
    exact (List.pairwise_cons.mp (List.pairwise_append.mp ascending).2.1).1 e member

end Searching

theorem Timed.lookup {next : Int} (timed : Timed interval s batches)
    (tiles : Tiles s.baseOffset batches next) (positive : 0 ≤ s.baseOffset)
    (ordered : batches.Pairwise fun a b => maxTimestamp a < maxTimestamp b) (ts : Int) :
    s.lookupOffsetByTimestamp ts =
      (batches.find? fun b => decide (ts ≤ maxTimestamp b)).map fun b => (decodeHeader b).baseOffset := by
  have ascending : s.tix.entries.Pairwise fun a b => a.timestamp < b.timestamp := by
    rw [timed.entries, List.pairwise_map]
    exact ordered
  rw [Segment.lookupOffsetByTimestamp, TimeIndex.lookupOffset_find ascending, timed.entries,
    List.find?_map]
  have same : ((fun e : TimeEntry => decide (ts ≤ e.timestamp)) ∘ timeMark s.baseOffset) =
      fun b => decide (ts ≤ maxTimestamp b) := rfl
  rw [same]
  cases found : batches.find? fun b => decide (ts ≤ maxTimestamp b) with
  | none => rfl
  | some b =>
    obtain ⟨first, low, -, stored⟩ := tiles.mem b (List.mem_of_find?_eq_some found)
    have counted := stored.counted
    have fits := stored.fits
    refine congrArg some ?_
    show int64 (s.baseOffset + (((decodeHeader b).baseOffset - s.baseOffset).toNat : Int)) =
      (decodeHeader b).baseOffset
    rw [stored.baseOffset, int64_of_range _ (by omega) (by omega)]
    omega

end Segments

end KafkaWire.Storage
