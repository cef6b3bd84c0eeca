import KafkaWire.Storage.Fresh
import KafkaWire.Storage.Intact

/-! Logs that were opened on an empty directory and have since been appended to, without a
write that failed half-way. Their journal is the whole of their contents. -/

namespace KafkaWire.Storage

open Bytes Files Programs Related

variable {cfg : Config}

structure Recorded (p : Partition) : Prop where
  intact : ∃ front active old new, Intact p front active old new ∧
    (old ++ [new]).flatten = p.journal.map Stored.written
  start : p.log.segments.head?.map Segment.baseOffset = some 0
  logStart : p.log.logStart = 0
  entries : ∀ entry ∈ p.journal, IsBatch entry.sent ∧
    ∃ offset, entry.written = stamp entry.sent offset

theorem Fresh.recorded {world after : World} {log : Log}
    (fresh : Fresh cfg world log after) : Recorded ⟨log, after, []⟩ := by
  obtain ⟨active, layout, -⟩ := fresh.layout []
  obtain ⟨logFd, idxFd, tixFd, createdAt, rfl, -, offset⟩ := fresh.log
  obtain ⟨mtime, created⟩ := fresh.created
  obtain rfl : _ = active := List.singleton_inj.mp layout.segments
  refine ⟨⟨[], _, [], [], ⟨⟨layout, .nil, ⟨rfl, rfl, ⟨_, created, List.nil_prefix⟩, ?_⟩,
    Nat.zero_le _⟩, .nil, ⟨[], List.prefix_rfl, ⟨mtime, created⟩, fun _ => rfl⟩, offset⟩, rfl⟩,
    rfl, rfl, by simp⟩
  simp [IndexOk, emptySegment]

section Runs

variable {p p' : Partition}

theorem Effects.entries (effects : Effects IsBatch False p p')
    (entries : ∀ entry ∈ p.journal, IsBatch entry.sent ∧
      ∃ offset, entry.written = stamp entry.sent offset) :
    ∀ entry ∈ p'.journal, IsBatch entry.sent ∧ ∃ offset, entry.written = stamp entry.sent offset := by
  induction effects with
  | refl => exact entries
  | tail _ effect ih =>
    rcases effect.stored_or_silent with
      ⟨_, active, batch, done, after, -, whole, -, -, -, -, rfl⟩ | silent
    · intro entry member
      rcases List.mem_append.mp member with known | new
      · exact ih entry known
      · rw [List.mem_singleton.mp new]
        exact ⟨whole, active.nextOffset, rfl⟩
    · rw [silent.journal]
      exact ih

theorem Effects.recorded (effects : Effects IsBatch False p p') (recorded : Recorded p) :
    Recorded p' := by
  obtain ⟨front, active, old, new, intact, stored⟩ := recorded.intact
  obtain ⟨front', active', old', new', more, intact', stored', journal⟩ :=
    Effects.extends effects intact
  obtain ⟨start, logStart⟩ := Effects.start effects
  refine ⟨⟨front', active', old', new', intact', ?_⟩, start.trans recorded.start,
    logStart.trans recorded.logStart, Effects.entries effects recorded.entries⟩
  rw [stored', journal, stored]

theorem Recorded.layout (recorded : Recorded p) : ∃ front active, Layout p front active := by
  obtain ⟨front, active, old, new, intact, -⟩ := recorded.intact
  exact ⟨front, active, intact.readable.layout⟩

theorem Recorded.tiles (recorded : Recorded p) :
    Tiles 0 (p.journal.map Stored.written) p.log.highWatermark := by
  obtain ⟨front, active, old, new, intact, stored⟩ := recorded.intact
  rw [← stored]
  exact intact.tiles recorded.start

theorem offsetCount_stamp (batch : Bytes) (offset : Int) (long : 61 ≤ batch.length) :
    offsetCount (stamp batch offset) = offsetCount batch := by
  unfold offsetCount
  rw [decodeHeader_stamp batch offset long]

theorem Recorded.counts (recorded : Recorded p) :
    (p.journal.map Stored.written).map offsetCount = (p.journal.map Stored.sent).map offsetCount := by
  have same (entry : Stored) (member : entry ∈ p.journal) :
      offsetCount entry.written = offsetCount entry.sent := by
    obtain ⟨whole, offset, written⟩ := recorded.entries entry member
    rw [written, offsetCount_stamp _ _ whole.length_ge]
  simp only [List.map_map, Function.comp_def, List.map_congr_left same]

theorem Recorded.highWatermark (recorded : Recorded p) :
    p.log.highWatermark = ((p.journal.map Stored.sent).map offsetCount).sum := by
  have sum := recorded.tiles.sum
  rw [recorded.counts] at sum
  omega

theorem Recorded.bytes (recorded : Recorded p) :
    (p.journal.map Stored.written).flatten.length = (p.journal.map Stored.sent).flatten.length := by
  have lengths : (p.journal.map Stored.written).map List.length =
      (p.journal.map Stored.sent).map List.length := by
    rw [List.map_map, List.map_map]
    refine List.map_congr_left fun entry member => ?_
    obtain ⟨whole, offset, written⟩ := recorded.entries entry member
    simp only [Function.comp_apply, written, stamp_length _ _ whole.length_ge]
  rw [List.length_flatten, List.length_flatten, lengths]

theorem Readable.logSize_le {front : List Segment} {active : Segment} {old : List (List Bytes)}
    {new : List Bytes} (readable : Readable p front active old new) :
    ∀ s ∈ front ++ [active], s.logSize ≤ (old ++ [new]).flatten.flatten.length := by
  intro s member
  obtain ⟨before, after, split⟩ := List.append_of_mem member
  obtain ⟨early, group, late, groups, -, holds, -⟩ :=
    forall₂_split before after s _ (split ▸ readable.held)
  rw [holds.size, groups]
  simp only [List.flatten_append, List.flatten_cons, List.length_append]
  omega

def checkedBatches (paused : Bool) (batches : List Bytes) : List Bytes :=
  if paused = false ∧ ∀ batch ∈ batches, validateBatchForAppend batch = none then batches else []

theorem checkedBatches_subset {paused : Bool} {batches : List Bytes} :
    checkedBatches paused batches ⊆ batches := by
  unfold checkedBatches
  split
  · exact List.Subset.refl _
  · exact List.nil_subset _

theorem Recorded.room {sent kept rest : List Bytes} (recorded : Recorded p) (recorded' : Recorded p')
    (fits : Fits p.log.highWatermark (sent ++ rest)) (sub : kept.Sublist sent)
    (journal : p'.journal.map Stored.sent = p.journal.map Stored.sent ++ kept) :
    Fits p'.log.highWatermark rest := by
  have reached : p'.log.highWatermark = p.log.highWatermark + (kept.map offsetCount).sum := by
    rw [recorded'.highWatermark, journal, List.map_append, List.sum_append, recorded.highWatermark]
  have fewer : Fits p.log.highWatermark (kept ++ rest) :=
    fits.sublist (sub.append (List.Sublist.refl _))
  rw [reached]
  exact ((Fits.append_iff _ _ _).mp fewer).2

structure Running (cfg : Config) (p : Partition) : Prop where
  recorded : Recorded p
  calm : p.world.Calm
  cfg : p.log.cfg = cfg

theorem Effects.running (effects : Effects IsBatch False p p')
    (running : Running cfg p) : Running cfg p' :=
  ⟨Effects.recorded effects running.recorded, (Effects.later effects).calm running.calm,
    (Effects.cfg effects).trans running.cfg⟩

theorem Fresh.running {world after : World} {log : Log}
    (fresh : Fresh cfg world log after) (calm : world.Calm) : Running cfg ⟨log, after, []⟩ := by
  refine ⟨fresh.recorded, fresh.later.calm calm, ?_⟩
  obtain ⟨_, _, _, _, rfl, -⟩ := fresh.log
  rfl

theorem append_running (running : Running cfg p) (paused : Bool)
    (batches : List Bytes) (valid : ∀ batch ∈ batches, IsBatch batch)
    (fits : Fits p.log.highWatermark (checkedBatches paused batches)) :
    Yields (append paused batches) p
      (fun _ p' => Running cfg p' ∧ checkedBatches paused batches = batches ∧
        p'.journal.map Stored.sent = p.journal.map Stored.sent ++ batches ∧ Unsealed p' ∧
        (cfg.fsyncMode = .always → TailSynced p'))
      (fun _ p' => Running cfg p' ∧ ∃ kept, kept <+: checkedBatches paused batches ∧
        p'.journal.map Stored.sent = p.journal.map Stored.sent ++ kept) := by
  obtain ⟨front, active, layout⟩ := running.recorded.layout
  by_cases checked : paused = false ∧ ∀ batch ∈ batches, validateBatchForAppend batch = none
  · have same : checkedBatches paused batches = batches := if_pos checked
    rw [same] at fits ⊢
    refine (append_spec IsBatch False layout paused batches valid (fun _ => fits)
      (.inr running.calm)).mono ?_ ?_
    · rintro _ q ⟨completed, -, -, unsealed, synced⟩
      rw [running.cfg] at synced
      exact ⟨Effects.running completed.effects running, rfl, completed.journal, unsealed, synced⟩
    · intro _ q failed
      exact ⟨Effects.running failed.effects running, failed.kept⟩
  · refine (append_refused False layout paused batches (.inr running.calm)
      (refused_of_unchecked checked)).mono (fun _ _ impossible => impossible.elim) ?_
    intro _ q silent
    exact ⟨Effects.running silent.effects running, [], List.nil_prefix,
      by rw [silent.journal, List.append_nil]⟩

end Runs

structure Request where
  paused : Bool
  batches : List Bytes
  deriving DecidableEq, Repr

def appendEach : List Request → Partition → Partition
  | [], p => p
  | request :: rest, p =>
    match append request.paused request.batches p with
    | .ok _ p' => appendEach rest p'
    | .error _ p' => appendEach rest p'

def acknowledged : List Request → Partition → List Bytes
  | [], _ => []
  | request :: rest, p =>
    match append request.paused request.batches p with
    | .ok _ p' => request.batches ++ acknowledged rest p'
    | .error _ p' => acknowledged rest p'

def Request.checked (request : Request) : List Bytes :=
  checkedBatches request.paused request.batches

theorem appendEach_running (history : List Request) (p : Partition) (running : Running cfg p)
    (valid : ∀ request ∈ history, ∀ batch ∈ request.batches, IsBatch batch)
    (fits : Fits p.log.highWatermark (history.flatMap Request.checked)) :
    Running cfg (appendEach history p) ∧
      ∃ kept, (acknowledged history p).Sublist kept ∧
        kept.Sublist (history.flatMap Request.checked) ∧
        (appendEach history p).journal.map Stored.sent = p.journal.map Stored.sent ++ kept := by
  induction history generalizing p with
  | nil => exact ⟨running, [], List.Sublist.refl _, List.Sublist.refl _, (List.append_nil _).symm⟩
  | cons request rest ih =>
    rw [List.flatMap_cons] at fits
    -- Either outcome stores a first part of the batches and leaves room for the others.
    have onwards (q : Partition) (running' : Running cfg q) (kept : List Bytes)
        (isPrefix : kept <+: request.checked)
        (journal : q.journal.map Stored.sent = p.journal.map Stored.sent ++ kept) :
        Running cfg (appendEach rest q) ∧
          ∃ later, (acknowledged rest q).Sublist later ∧
            (kept ++ later).Sublist ((request :: rest).flatMap Request.checked) ∧
            (appendEach rest q).journal.map Stored.sent =
              p.journal.map Stored.sent ++ (kept ++ later) := by
      obtain ⟨final, later, acked, sub, journal'⟩ := ih q running'
        (fun other member => valid other (List.mem_cons_of_mem _ member))
        (running.recorded.room running'.recorded fits isPrefix.sublist journal)
      refine ⟨final, later, acked, ?_, by rw [journal', journal, List.append_assoc]⟩
      rw [List.flatMap_cons]
      exact isPrefix.sublist.append sub
    have spec := append_running running request.paused request.batches
      (valid request List.mem_cons_self) ((Fits.append_iff _ _ _).mp fits).1
    unfold appendEach acknowledged
    cases ran : append request.paused request.batches p with
    | ok first q =>
      obtain ⟨running', all, journal, -⟩ := spec.of_ok ran
      obtain ⟨final, later, acked, sub, journal'⟩ :=
        onwards q running' request.batches (by rw [Request.checked, all]) journal
      exact ⟨final, _, (List.Sublist.refl _).append acked, sub, journal'⟩
    | error err q =>
      obtain ⟨running', kept, isPrefix, journal⟩ := spec.of_error ran
      obtain ⟨final, later, acked, sub, journal'⟩ := onwards q running' kept isPrefix journal
      exact ⟨final, _, acked.trans (List.sublist_append_right _ _), sub, journal'⟩

end KafkaWire.Storage
