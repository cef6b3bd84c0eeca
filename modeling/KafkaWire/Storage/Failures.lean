import KafkaWire.Storage.Operations

/-! What an append that returns an error leaves behind. The batches of a request are written
one by one, so a failure after the first of them cannot take it back. -/

namespace KafkaWire.Storage

open Bytes Programs

structure Unchanged (p p' : Partition) : Prop where
  highWatermark : p'.log.highWatermark = p.log.highWatermark
  fetched : ∀ offset maxBytes, fetchAt p'.log p'.world offset maxBytes =
    fetchAt p.log p.world offset maxBytes

/-- The segments follow one another without a gap, the file of each begins with the batches that it
counts, and no other file is in the way of the next roll. -/
structure Sound (p : Partition) : Prop where
  readable : ∃ front active old new, Readable p front active old new
  small : ∀ s ∈ p.log.segments, s.logSize < 2 ^ 62

theorem Sound.facing {p : Partition} (sound : Sound p) (ticks : List Tick) : Sound (p.facing ticks) := by
  obtain ⟨front, active, old, new, readable⟩ := sound.readable
  exact ⟨⟨front, active, old, new, readable.idle rfl⟩, sound.small⟩

/-- The log stays sound, so that a second try meets the same condition. -/
theorem Refused.unchanged {p p' : Partition} (sound : Sound p) {paused : Bool}
    {batches : List Bytes} {err : Err} (failed : append paused batches p = .error err p')
    (refused : Refused p paused batches) : Unchanged p p' ∧ Sound p' := by
  obtain ⟨front, active, old, new, readable⟩ := sound.readable
  have silent := (append_refused True readable.layout paused batches (.inl trivial)
    refused).of_error failed
  have small := sound.small
  rw [readable.layout.segments] at small
  have view := silent.sameView readable small
  refine ⟨⟨silent.highWatermark, view.fetched⟩, ?_⟩
  obtain ⟨front', active', old', new', readable', -, small'⟩ := view.readable
  exact ⟨⟨front', active', old', new', readable'⟩, readable'.layout.segments ▸ small'⟩

/-- An append that returns an error goes unnoticed when it was refused as a whole, before its
first batch reached the file, and only then. -/
theorem failed_append_unchanged_iff (p p' : Partition) (paused : Bool) (batches : List Bytes)
    (err : Err) (sound : Sound p) (failed : append paused batches p = .error err p') :
    (Refused p paused batches → Unchanged p p' ∧ Sound p') ∧
      ((∀ batch ∈ batches, 0 ≤ (decodeHeader batch).lastOffsetDelta) →
        p.log.highWatermark + (batches.map offsetCount).sum < 2 ^ 63 →
        (Unchanged p p' ↔ Refused p paused batches)) := by
  refine ⟨Refused.unchanged sound failed, fun deltas offsets =>
    ⟨fun unchanged => ?_, fun refused => (Refused.unchanged sound failed refused).1⟩⟩
  obtain ⟨front, active, old, new, readable⟩ := sound.readable
  have outcome := (append_spec (fun _ => True) True readable.layout paused batches (fun _ _ => trivial)
    (fun _ => ⟨fun batch member => Int.lt_add_one_of_le (deltas batch member), offsets⟩)
    (.inl trivial)).of_error failed
  rcases outcome.reason with ⟨refused, -⟩ | ⟨-, grown⟩
  · exact refused
  · exact absurd unchanged.highWatermark (ne_of_gt grown)

/-- Logs that are opened, appended to, swept, closed and opened again are sound. -/
theorem steady_sound (cfg : Config) (events : List LogStep)
    (guarded : Machine.Guarded (LiveLog.operate cfg) LiveLog.Steady (.unopened cfg) events)
    (opened : isOpen events = true)
    (small : ∀ s ∈ (Machine.exec (LiveLog.operate cfg) (.unopened cfg) events).segments,
      s.logSize < 2 ^ 62) :
    Sound (Machine.exec (LiveLog.operate cfg) (.unopened cfg) events).partition := by
  have kept := steady_kept cfg events guarded
  rw [opened] at kept
  obtain ⟨⟨⟨front, active, old, new, intact⟩, -⟩, -, -⟩ := kept.files
  exact ⟨⟨front, active, old, new, intact.readable⟩, small⟩

instance (s : Segment) (world : World) : Decidable (s.Refuses world) :=
  inferInstanceAs (Decidable (if s.rolls world = true ∧ s.nextOffset ≠ s.baseOffset then
    ∃ tick ∈ (world.pending.drop s.clockCalls).take 10, tick.fault ≠ none
  else s.sealed = true ∨ ∃ tick ∈ (world.pending.drop s.clockCalls).take 1, tick.fault ≠ none))

def failedAppend (cfg : Config) (events : List LogStep) (ticks : List Tick) (batches : List Bytes) :
    Option (Partition × Err × Partition) :=
  let p := (Machine.exec (LiveLog.operate cfg) (.unopened cfg) events).partition.facing ticks
  match append false batches p with
  | .error err p' => some (p, err, p')
  | .ok _ _ => none

theorem failedAppend_some {cfg : Config} {events : List LogStep} {ticks : List Tick}
    {batches : List Bytes} {p p' : Partition} {err : Err}
    (ran : failedAppend cfg events ticks batches = some (p, err, p')) :
    p = (Machine.exec (LiveLog.operate cfg) (.unopened cfg) events).partition.facing ticks ∧
      append false batches p = .error err p' := by
  unfold failedAppend at ran
  dsimp only at ran
  split at ran
  · next _ _ failing =>
      cases ran
      exact ⟨rfl, failing⟩
  · cases ran

private def swept : List LogStep :=
  [⟨.openLog, []⟩, ⟨.append false [minimalBatch 0, minimalBatch 4], []⟩,
    ⟨.append false [minimalBatch 2], [⟨0, some 0⟩]⟩, ⟨.deleteSegmentsBefore 1, []⟩]

private theorem swept_sound : Sound (Machine.exec (LiveLog.operate ⟨61, 0, 4096, .none⟩)
    (.unopened ⟨61, 0, 4096, .none⟩) swept).partition := by
  exact steady_sound _ _ (by decide +kernel) (by decide) (by decide +kernel)

/-- The write that follows a roll stops after five bytes, in a log whose first segment was swept. -/
theorem torn_first_write_unchanged :
    ∃ p err p', failedAppend ⟨61, 0, 4096, .none⟩ swept
        (List.replicate 9 ⟨0, none⟩ ++ [⟨0, some 5⟩]) [minimalBatch 0] = some (p, err, p') ∧
      Unchanged p p' := by
  have runs : (failedAppend ⟨61, 0, 4096, .none⟩ swept
      (List.replicate 9 ⟨0, none⟩ ++ [⟨0, some 5⟩]) [minimalBatch 0]).map
      (fun run => run.1.log.segments.getLast?.all fun active => active.Refuses run.1.world) =
        some true := by decide +kernel
  obtain ⟨⟨p, err, p'⟩, ran, seen⟩ := Option.map_eq_some_iff.mp runs
  obtain ⟨reached, failed⟩ := failedAppend_some ran
  have both := failed_append_unchanged_iff p p' false _ err (reached ▸ swept_sound.facing _) failed
  refine ⟨p, err, p', ran, (both.1 (.inr (.inr (.inr fun active last => ?_)))).1⟩
  dsimp only at seen
  rw [last] at seen
  exact of_decide_eq_true seen

/-- When the write of the second batch fails, the first one stays readable, and a producer
that tries again stores it twice. -/
theorem failed_append_changes_log :
    ∃ p err p', failedAppend ⟨1000, 0, 4096, .none⟩ [⟨.openLog, []⟩]
        [⟨0, none⟩, ⟨0, none⟩, ⟨0, none⟩, ⟨0, some 0⟩] [minimalBatch 0, minimalBatch 4] =
          some (p, err, p') ∧
      (p.log.highWatermark = 0 ∧ p'.log.highWatermark = 1) ∧
      fetchAt p.log p.world 0 1000 = .ok ([], 0) ∧
      fetchAt p'.log p'.world 0 1000 = .ok (minimalBatch 0, 0) ∧
      (appendEach [⟨false, [minimalBatch 0, minimalBatch 4]⟩] p').journal.map Stored.sent =
        [minimalBatch 0, minimalBatch 0, minimalBatch 4] := by
  have outcome : (failedAppend ⟨1000, 0, 4096, .none⟩ [⟨.openLog, []⟩]
      [⟨0, none⟩, ⟨0, none⟩, ⟨0, none⟩, ⟨0, some 0⟩] [minimalBatch 0, minimalBatch 4]).map
        (fun run => decide ((run.1.log.highWatermark = 0 ∧ run.2.2.log.highWatermark = 1) ∧
          fetchAt run.1.log run.1.world 0 1000 = .ok ([], 0) ∧
          fetchAt run.2.2.log run.2.2.world 0 1000 = .ok (minimalBatch 0, 0) ∧
          (appendEach [⟨false, [minimalBatch 0, minimalBatch 4]⟩] run.2.2).journal.map Stored.sent =
            [minimalBatch 0, minimalBatch 0, minimalBatch 4])) = some true := by decide +kernel
  obtain ⟨⟨p, err, p'⟩, ran, seen⟩ := Option.map_eq_some_iff.mp outcome
  exact ⟨p, err, p', ran, of_decide_eq_true seen⟩

end KafkaWire.Storage
