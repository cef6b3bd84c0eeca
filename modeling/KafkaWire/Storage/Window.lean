import KafkaWire.Storage.Sweeps
import Mathlib.Data.List.TakeWhile

/-! A log under an age cap: when its batches were acknowledged, and what the sweeps take away. -/

namespace KafkaWire.Storage

open Bytes Files Programs Related

def millisecond : Int := 1000000

/-- A partition, and for every acknowledged batch its first offset and the time when its append
returned. -/
structure AgedLog where
  log : LiveLog
  completed : List (Int × Int)

inductive AgedOp
  | append (paused : Bool) (batches : List Bytes)
  | sweep
  | close
  | openLog

structure AgedStep where
  now : Int
  op : AgedOp
  ticks : List Tick

namespace AgedLog

def facing (s : AgedLog) (event : AgedStep) : LiveLog :=
  { s.log with
    partition := { s.log.partition with
      world := { s.log.partition.world with time := event.now, pending := event.ticks } } }

def step (cfg : Config) (retentionMS : Int) (s : AgedLog) (event : AgedStep) : AgedLog :=
  let l := s.facing event
  match event.op with
  | .append paused batches =>
    match live (Storage.append paused batches) l with
    | .ok _ l' =>
      ⟨l', s.completed ++ (l'.partition.journal.drop l.partition.journal.length).map
        fun entry => (entry.firstOffset, l'.partition.world.time)⟩
    | .error _ l' => ⟨l', s.completed⟩
  | .sweep => ⟨LiveLog.after (sweepLog ⟨retentionMS, 0, none⟩ event.now "" 0) l, s.completed⟩
  | .close => ⟨LiveLog.after LiveLog.close l, s.completed⟩
  | .openLog => ⟨l.reopen cfg, s.completed⟩

/-- No call fails, and the batches are complete and have offsets to take. When a sweep begins, every
batch of a sealed segment older than the cap was acknowledged at most a millisecond after the time
the segment counts from. -/
def Prompt (retentionMS : Int) (s : AgedLog) (event : AgedStep) : Prop :=
  (∀ tick ∈ event.ticks, tick.fault = none) ∧
    match event.op with
    | .append paused batches =>
      (∀ batch ∈ checkedBatches paused batches, IsBatch batch) ∧
        Fits s.log.partition.log.highWatermark (checkedBatches paused batches)
    | .sweep => ∀ seg ∈ s.log.segments.dropLast,
        RetentionConfig.expired ⟨retentionMS, 0, none⟩ event.now seg = true → ∀ c ∈ s.completed,
        seg.baseOffset ≤ c.1 → c.1 < seg.nextOffset → c.2 ≤ seg.createdAt + millisecond
    | _ => True

instance (retentionMS : Int) (s : AgedLog) (event : AgedStep) : Decidable (Prompt retentionMS s event) :=
  match event with
  | ⟨_, .append paused batches, ticks⟩ => inferInstanceAs (Decidable
      ((∀ tick ∈ ticks, tick.fault = none) ∧ (∀ batch ∈ checkedBatches paused batches, IsBatch batch) ∧
        Fits s.log.partition.log.highWatermark (checkedBatches paused batches)))
  | ⟨now, .sweep, ticks⟩ => inferInstanceAs (Decidable ((∀ tick ∈ ticks, tick.fault = none) ∧
      ∀ seg ∈ s.log.segments.dropLast,
        RetentionConfig.expired ⟨retentionMS, 0, none⟩ now seg = true → ∀ c ∈ s.completed,
        seg.baseOffset ≤ c.1 → c.1 < seg.nextOffset → c.2 ≤ seg.createdAt + millisecond))
  | ⟨_, .close, ticks⟩ | ⟨_, .openLog, ticks⟩ =>
    inferInstanceAs (Decidable ((∀ tick ∈ ticks, tick.fault = none) ∧ True))

def unopened (cfg : Config) : AgedLog := ⟨.unopened cfg, []⟩

def leavesOpen (opened : Bool) (event : AgedStep) : Bool :=
  match event.op with
  | .openLog => true
  | .close => false
  | _ => opened

end AgedLog

section Sweep

variable {l : LiveLog}

def Cut (l l' : LiveLog) : Prop :=
  l' = l ∨ ∃ cutoff, l' = LiveLog.after (LiveLog.deleteSegmentsBefore cutoff) l

theorem deleteLogged_cut (cutoff : Int) (l : LiveLog) :
    Yields (deleteLogged cutoff) l (fun _ l' => Cut l l') fun _ l' => Cut l l' := by
  unfold Yields deleteLogged
  cases ran : LiveLog.deleteSegmentsBefore cutoff l with
  | ok count l' => exact .inr ⟨cutoff, by rw [LiveLog.after, ran]⟩
  | error fault l' =>
    cases fault with
    | err cause => exact .inr ⟨cutoff, by rw [LiveLog.after, ran]⟩
    | panic => exact .inr ⟨cutoff, by rw [LiveLog.after, ran]⟩

theorem sweepLog_cut (cfg : RetentionConfig) (now : Int) (topic : String) (partition : Int)
    (l : LiveLog) : Cut l (LiveLog.after (sweepLog cfg now topic partition) l) := by
  refine LiveLog.after_spec ?_
  simp only [sweepLog, LiveLog.sealedSegments, LiveLog.allSegments, yields_bind, yields_get]
  split
  · exact .inl rfl
  · simp only [yields_pure]
    split
    · exact .inl rfl
    · simp only [yields_bind, yields_get, yields_pure]
      split
      · exact .inl rfl
      · exact deleteLogged_cut _ l

theorem Kept.sweep {cfg : Config} {opened : Bool} (kept : Kept cfg True opened l) (quiet : l.partition.world.Quiet)
    (retention : RetentionConfig) (now : Int) (topic : String) (partition : Int) :
    Kept cfg True opened (LiveLog.after (sweepLog retention now topic partition) l) := by
  rcases sweepLog_cut retention now topic partition l with same | ⟨cutoff, same⟩
  · rw [same]
    exact kept
  · rw [same]
    exact kept.deleteSegmentsBefore quiet cutoff

theorem Kept.contiguous {cfg : Config} {smooth : Prop} (kept : Kept cfg smooth true l) :
    l.Contiguous := by
  obtain ⟨retained, -, -⟩ := kept.files
  obtain ⟨front, active, old, new, intact⟩ := retained.intact
  have layout := intact.readable.layout
  refine ⟨retained.segments_ne, ?_, layout.ascending, ?_⟩
  · show l.partition.log.segments.IsChain _
    rw [layout.segments]
    exact layout.linked
  · intro s member
    exact layout.positive s (layout.segments ▸ member)

/-- Under an age cap alone a sweep takes away expired segments only. -/
theorem sweepLog_expired (contiguous : l.Contiguous) (quiet : l.partition.world.Quiet)
    (retentionMS now : Int) (topic : String) (partition : Int) :
    ∃ count, count < l.segments.length ∧
      (LiveLog.after (sweepLog ⟨retentionMS, 0, none⟩ now topic partition) l).segments =
        l.segments.drop count ∧
      ∀ s ∈ l.segments.take count, RetentionConfig.expired ⟨retentionMS, 0, none⟩ now s = true := by
  obtain ⟨_, l', ran, count, swept⟩ := (sweepLog_sweeps ⟨retentionMS, 0, none⟩ now topic partition
    contiguous quiet).succeeds
  have after : LiveLog.after (sweepLog ⟨retentionMS, 0, none⟩ now topic partition) l = l' := by
    rw [LiveLog.after, ran]
  rw [after]
  refine ⟨count, ?_, swept.segments, fun s member => ?_⟩
  · have within := swept.within
    have some := List.length_pos_iff.mpr contiguous.opened
    rw [List.length_dropLast] at within
    omega
  · obtain ⟨needed, asks, isCount⟩ := swept.exact
    obtain rfl : needed = 0 := asks
    let expired := l.segments.dropLast.takeWhile (RetentionConfig.expired ⟨retentionMS, 0, none⟩ now)
    have short : expired <+: l.segments.dropLast := List.takeWhile_prefix _
    have isExpired : count = expired.length := by
      rw [isCount, RetentionConfig.archivedCount, Nat.max_zero]
      exact min_eq_right short.length_le
    have front : l.segments.take count = expired := by
      rw [isExpired]
      exact (List.prefix_iff_eq_take.mp (short.trans (List.dropLast_prefix _))).symm
    rw [front] at member
    exact List.mem_takeWhile_imp member

end Sweep

theorem expired_batch {retentionMS now : Int} {seg : Segment} {completed : Int}
    (gone : RetentionConfig.expired ⟨retentionMS, 0, none⟩ now seg = true)
    (prompt : completed ≤ seg.createdAt + millisecond) :
    completed + retentionMS * millisecond ≤ now := by
  simp only [RetentionConfig.expired, Bool.not_eq_true', decide_eq_false_iff_not, not_or,
    not_le] at gone
  obtain ⟨positive, old⟩ := gone
  unfold RetentionConfig.milliseconds at old
  have later : 0 ≤ elapsed now seg.createdAt := by
    by_contra sooner
    have negative := Int.tdiv_nonneg (show 0 ≤ -elapsed now seg.createdAt by omega)
      (show (0 : Int) ≤ 1000000 by decide)
    rw [Int.neg_tdiv] at negative
    omega
  rw [Int.tdiv_eq_ediv_of_nonneg later] at old
  unfold elapsed at old
  unfold millisecond at prompt ⊢
  omega

section Runs

variable {cfg : Config} {retentionMS : Int} {s : AgedLog} {opened : Bool}

theorem Kept.aged (kept : Kept cfg True opened s.log) (limit : 0 < cfg.segmentBytes)
    (event : AgedStep) (prompt : s.Prompt retentionMS event) :
    Kept cfg True (AgedLog.leavesOpen opened event) (s.step cfg retentionMS event).log := by
  obtain ⟨now, op, ticks⟩ := event
  obtain ⟨quiet, request⟩ := prompt
  have kept' : Kept cfg True opened (s.facing ⟨now, op, ticks⟩) := kept.facing_at now ticks
  cases op with
  | append paused batches =>
    have appended := kept'.append (fun tick member => .inl (quiet tick member))
      (fun _ => ⟨limit, quiet⟩) paused batches request.1 request.2
    unfold AgedLog.step
    unfold LiveLog.after at appended
    split at appended <;> simp_all [AgedLog.leavesOpen]
  | sweep => exact kept'.sweep quiet _ now "" 0
  | close => exact kept'.close (.inl trivial)
  | openLog => exact kept'.reopen quiet fun _ => limit

theorem aged_kept (limit : 0 < cfg.segmentBytes) (events : List AgedStep)
    (guarded : Machine.Guarded (AgedLog.step cfg retentionMS) (AgedLog.Prompt retentionMS) (.unopened cfg)
      events) :
    Kept cfg True (events.foldl AgedLog.leavesOpen false)
      (Machine.exec (AgedLog.step cfg retentionMS) (.unopened cfg) events).log := by
  refine guarded.invariant (fun past (s : AgedLog) =>
    Kept cfg True (past.foldl AgedLog.leavesOpen false) s.log) (.unopened cfg)
    (unopened_kept cfg True) ?_ events
  intro past s event kept prompt
  rw [List.foldl_append]
  exact kept.aged limit event prompt

end Runs

/-- With an age cap alone, and as long as sealed segments older than the cap have no batch that was
acknowledged later than a millisecond after the time they count from, a sweep deletes no segment
with a batch that was acknowledged less than the cap ago. -/
theorem sweep_spares_window (cfg : Config) (limit : 0 < cfg.segmentBytes) (retentionMS : Int)
    (events : List AgedStep) (now : Int) (ticks : List Tick)
    (guarded : Machine.Guarded (AgedLog.step cfg retentionMS) (AgedLog.Prompt retentionMS) (.unopened cfg)
      (events ++ [⟨now, .sweep, ticks⟩])) :
    let s := Machine.exec (AgedLog.step cfg retentionMS) (.unopened cfg) events
    let swept := s.step cfg retentionMS ⟨now, .sweep, ticks⟩
    ∀ seg ∈ s.log.segments, seg ∉ swept.log.segments → ∀ c ∈ s.completed,
      seg.baseOffset ≤ c.1 → c.1 < seg.nextOffset → c.2 + retentionMS * millisecond ≤ now := by
  intro s swept seg listed gone c isCompleted starts ends
  obtain ⟨before, ⟨quiet, prompt⟩, -⟩ := (Machine.guarded_append _ _ _).mp guarded
  have kept := aged_kept limit events before
  cases opened : events.foldl AgedLog.leavesOpen false with
  | false =>
    rw [opened] at kept
    exact absurd (kept.files.1 ▸ listed) List.not_mem_nil
  | true =>
    rw [opened] at kept
    have facing : Kept cfg True true (s.facing ⟨now, .sweep, ticks⟩) := kept.facing_at now ticks
    obtain ⟨count, short, segments, expired⟩ :=
      sweepLog_expired facing.contiguous quiet retentionMS now "" 0
    have isTaken : seg ∈ s.log.segments.take count := by
      have either := List.take_append_drop count s.log.segments ▸ listed
      refine (List.mem_append.mp either).resolve_right fun isLeft => gone ?_
      show seg ∈ (LiveLog.after _ _).segments
      rw [segments]
      exact isLeft
    have isSealed : seg ∈ s.log.segments.dropLast := by
      rw [List.dropLast_eq_take]
      exact List.take_subset_take_left _ (Nat.le_sub_one_of_lt short) isTaken
    have old := expired seg isTaken
    exact expired_batch old (prompt seg isSealed old c isCompleted starts ends)

def sweptAfter (appended swept : Int) : List AgedStep × AgedStep :=
  ([⟨0, .openLog, []⟩, ⟨appended, .append false [minimalBatch 0], []⟩,
    ⟨appended, .append false [minimalBatch 0], []⟩], ⟨swept, .sweep, []⟩)

theorem first_segment_expires :
    let cfg : Config := ⟨61, 0, 4096, .none⟩
    let (events, sweep) := sweptAfter 500000 1500000000
    let s := Machine.exec (AgedLog.step cfg 1000) (.unopened cfg) events
    let swept := s.step cfg 1000 sweep
    s.completed = [(0, 500000), (1, 500000)] ∧ s.log.segments.map Segment.baseOffset = [0, 1] ∧
      swept.log.segments.map Segment.baseOffset = [1] ∧
      ∀ seg ∈ s.log.segments, seg ∉ swept.log.segments → ∀ c ∈ s.completed,
        seg.baseOffset ≤ c.1 → c.1 < seg.nextOffset → c.2 + 1000 * millisecond ≤ 1500000000 := by
  intro cfg
  exact ⟨by decide +kernel, by decide +kernel, by decide +kernel,
    sweep_spares_window cfg (by decide) 1000 (sweptAfter 500000 1500000000).1 1500000000 []
      (by decide +kernel)⟩

/-- The first segment counts from when it was opened, two seconds before its batch came. -/
theorem fresh_batch_swept :
    let cfg : Config := ⟨61, 0, 4096, .none⟩
    let (events, sweep) := sweptAfter 2000000000 2001000000
    let s := Machine.exec (AgedLog.step cfg 1000) (.unopened cfg) events
    let swept := s.step cfg 1000 sweep
    s.completed = [(0, 2000000000), (1, 2000000000)] ∧
      s.log.segments.map Segment.span = [(0, 1), (1, 2)] ∧
      swept.log.segments.map Segment.span = [(1, 2)] ∧
      ¬ 2000000000 + 1000 * millisecond ≤ sweep.now := by
  decide +kernel

end KafkaWire.Storage
