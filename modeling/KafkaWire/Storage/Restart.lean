import KafkaWire.Storage.Crash

/-! Runs of successful appends that end in a crash, and what the log is like afterwards. -/

namespace KafkaWire.Storage

open Bytes Files Programs Related

theorem appendAll_recorded (requests : List (List Bytes)) (p : Partition) (recorded : Recorded p)
    (unsealed : Unsealed p) (valid : ∀ batch ∈ requests.flatten, IsBatch batch)
    (fits : Fits p.log.highWatermark requests.flatten) :
    Yields (appendAll requests) p (fun _ p' => Recorded p' ∧ Unsealed p') (fun _ _ => True) := by
  induction requests generalizing p with
  | nil => exact ⟨recorded, unsealed⟩
  | cons request rest ih =>
    rw [List.flatten_cons] at valid fits
    obtain ⟨fitsHere, fitsLater⟩ := (Fits.append_iff _ _ _).mp fits
    obtain ⟨validHere, validLater⟩ := List.forall_mem_append.mp valid
    obtain ⟨front, active, layout⟩ := recorded.layout
    unfold appendAll
    rw [yields_bind]
    refine (append_spec IsBatch True layout false request validHere (fun _ => fitsHere)
      (.inl trivial)).mono ?_ fun _ _ _ => trivial
    rintro _ q ⟨completed, -, -, unsealed', -⟩
    refine ih q (Effects.recorded completed.effects recorded) unsealed' validLater ?_
    rw [completed.highWatermark]
    exact fitsLater

theorem Fresh.unsealed {cfg : Config} {world after : World} {log : Log}
    (fresh : Fresh cfg world log after) : Unsealed ⟨log, after, []⟩ := by
  obtain ⟨logFd, idxFd, tixFd, createdAt, rfl, -⟩ := fresh.log
  intro active isLast
  obtain rfl : _ = active := Option.some.inj isLast
  rfl

theorem partitionRun_recorded {cfg : Config} {world : World} {requests : List (List Bytes)}
    {final : Partition} (bare : world.Bare) (ran : partitionRun cfg world requests = some final)
    (complete : ∀ batch ∈ requests.flatten, IsBatch batch)
    (deltas : ∀ batch ∈ requests.flatten, 0 ≤ (decodeHeader batch).lastOffsetDelta)
    (offsets : (requests.flatten.map offsetCount).sum < 2 ^ 63) : Recorded final ∧ Unsealed final := by
  obtain ⟨log, opened, opening, appending⟩ := partitionRun_some ran
  obtain ⟨-, fresh⟩ := (openLog_bare cfg world bare).of_ok opening
  obtain ⟨active, layout, next⟩ := fresh.layout []
  have fits : Fits log.highWatermark requests.flatten := by
    refine ⟨fun batch member => Int.lt_add_one_of_le (deltas batch member), ?_⟩
    rw [layout.highWatermark.trans next, zero_add]
    exact offsets
  exact (appendAll_recorded requests _ fresh.recorded fresh.unsealed complete fits).of_ok appending

def SameLogs (world after : World) : Prop :=
  ∀ key, ((after.stores .log).lookup key).map File.data =
    ((world.stores .log).lookup key).map File.data

theorem SameLogs.data {world after : World} (same : SameLogs world after) (key : Int) :
    (after.stores .log).data key = (world.stores .log).data key := by
  have here := same key
  unfold Store.data
  cases found : (world.stores .log).lookup key <;> cases found' : (after.stores .log).lookup key <;>
    simp_all

def Segment.summary (s : Segment) : Int × Nat × Int := (s.baseOffset, s.logSize, s.nextOffset)

section Again

variable {disk disk' after after' : World} {bases : List Int} {segments segments' : List Segment}

theorem ReopenedAll.summary (all : ReopenedAll disk bases segments after) :
    segments.map Segment.summary = bases.map fun base =>
      (base, (survivors ((disk.stores .log).data base)).flatten.length,
        endOffset base (survivors ((disk.stores .log).data base))) := by
  refine map_eq_of_forall₂ (all.reopened.imp fun base s opened => ?_)
  rw [Segment.summary, opened.baseOffset, opened.size, opened.next]

theorem ReopenedAll.sealed (all : ReopenedAll disk bases segments after) :
    segments.map Segment.sealed =
      List.replicate (bases.length - 1) true ++ if bases = [] then [] else [false] := by
  have length := all.reopened.length_eq
  rcases List.eq_nil_or_concat segments with rfl | ⟨front, last, rfl⟩
  · obtain rfl : bases = [] := List.length_eq_zero_iff.mp length
    rfl
  · have front' : front.map Segment.sealed = List.replicate front.length true := by
      refine List.eq_replicate_iff.mpr ⟨by simp, ?_⟩
      simpa using all.front
    have last' := (all.last last (by simp)).1
    have nonempty : bases ≠ [] := by
      rintro rfl
      simp at length
    rw [List.concat_eq_append, List.length_append, List.length_singleton] at length
    rw [List.concat_eq_append, List.map_append, front', List.map_singleton, last', length,
      Nat.add_sub_cancel, if_neg nonempty]

theorem ReopenedAll.again (first : ReopenedAll disk bases segments after)
    (second : ReopenedAll disk' bases segments' after') (same : SameLogs after disk') :
    segments'.map Segment.summary = segments.map Segment.summary ∧
      segments'.map Segment.sealed = segments.map Segment.sealed ∧ SameLogs after after' := by
  have found (base : Int) (member : base ∈ bases) : survivors ((disk'.stores .log).data base) =
      survivors ((disk.stores .log).data base) := by
    obtain ⟨file, known, data⟩ := Option.map_eq_some_iff.mp (first.kept base member)
    have data' : (after.stores .log).data base =
        (survivors ((disk.stores .log).data base)).flatten := by rw [← data, Store.data, known]
    rw [same.data base, data', survivors_survivors]
  refine ⟨?_, by rw [second.sealed, first.sealed], fun key => ?_⟩
  · rw [second.summary, first.summary]
    refine List.map_congr_left fun base member => ?_
    rw [found base member]
  · by_cases member : key ∈ bases
    · rw [second.kept key member, first.kept key member, found key member]
    · rw [second.other .log key member]
      exact same key

theorem ReopenedAll.files (all : ReopenedAll disk bases segments after)
    (files : ∀ key, ((disk.stores .log).lookup key).isSome = true ↔ key ∈ bases) (key : Int) :
    ((after.stores .log).lookup key).isSome = true ↔ key ∈ bases := by
  by_cases member : key ∈ bases
  · rw [← Option.isSome_map, all.kept key member]
    simpa using member
  · rw [all.other .log key member, files key]

end Again

/-- After a crash the log starts again with the whole batches that are left, in the same
segments. Opening it once more changes nothing, and appends go on where those batches end. -/
theorem crash_recovers_whole_batches (cfg : Config) (world disk : World)
    (requests : List (List Bytes)) (final : Partition) (cut : Nat) (bare : world.Bare)
    (ran : partitionRun cfg world requests = some final)
    (complete : ∀ batch ∈ requests.flatten, IsBatch batch)
    (deltas : ∀ batch ∈ requests.flatten, 0 ≤ (decodeHeader batch).lastOffsetDelta)
    (offsets : (requests.flatten.map offsetCount).sum < 2 ^ 63)
    (crashed : Crashed final cut disk) (quiet : disk.Quiet) :
    ∃ log after, openLog cfg disk = .ok log after ∧ Survived final cut log after ∧
      (∀ disk' : World, disk'.Quiet → SameLogs after disk' → ∃ log' after',
        openLog cfg disk' = .ok log' after' ∧
          log'.segments.map Segment.summary = log.segments.map Segment.summary ∧
          log'.segments.map Segment.sealed = log.segments.map Segment.sealed ∧
          SameLogs after after') ∧
      ∀ ticks paused batches first p',
        append paused batches (Partition.facing ⟨log, after, []⟩ ticks) = .ok first p' →
        (∀ batch ∈ batches, 0 ≤ (decodeHeader batch).lastOffsetDelta) →
        log.highWatermark + (batches.map offsetCount).sum < 2 ^ 63 →
          first = log.highWatermark ∧ Tracked log.highWatermark p' := by
  obtain ⟨recorded, unsealed⟩ := partitionRun_recorded bare ran complete deltas offsets
  obtain ⟨log, after, restarted, survived, all, front, active, layout⟩ :=
    (recorded.reopen unsealed crashed quiet cfg).succeeds
  refine ⟨log, after, restarted, survived, ?_, ?_⟩
  · intro disk' quiet' same
    obtain ⟨front', active', layout'⟩ := recorded.layout
    have files (key : Int) : ((disk'.stores .log).lookup key).isSome = true ↔
        key ∈ final.log.segments.map Segment.baseOffset := by
      rw [← all.files (recorded.disk_files unsealed crashed) key, ← Option.isSome_map, same key,
        Option.isSome_map]
    obtain ⟨log', after', restarted', -, -, all'⟩ := (openLog_quiet cfg disk' quiet' _
      (by simp [layout'.segments]) layout'.ascending recorded.bases_nonneg files).succeeds
    exact ⟨log', after', restarted', all.again all' same⟩
  · intro ticks paused batches first p' appended deltas' offsets'
    have layout' : Layout (Partition.facing ⟨log, after, []⟩ ticks) front active := layout.idle rfl
    obtain ⟨completed, isFirst, -⟩ := (append_spec (fun _ => True) True layout' paused batches
      (fun _ _ => trivial)
      (fun _ => ⟨fun batch member => Int.lt_add_one_of_le (deltas' batch member), offsets'⟩)
      (.inl trivial)).of_ok appended
    exact ⟨isFirst, Effects.tracked completed.effects layout' (tracked_nil log _)⟩

theorem crash_recovers_first_of_two :
    ∃ final disk log after, partitionRun ⟨1000, 0, 4096, .none⟩ World.empty
        [[minimalBatch 0], [minimalBatch 4]] = some final ∧
      Crashed final 100 disk ∧ openLog ⟨1000, 0, 4096, .none⟩ disk = .ok log after ∧
      Survived final 100 log after := by
  have runs : (partitionRun ⟨1000, 0, 4096, .none⟩ World.empty
      [[minimalBatch 0], [minimalBatch 4]]).map (fun final =>
        (final.log.segments.getLast?.isSome, final.world.pending)) = some (true, []) := by
    decide +kernel
  obtain ⟨final, ran, seen⟩ := Option.map_eq_some_iff.mp runs
  obtain ⟨hasLast, idle⟩ := Prod.mk.inj seen
  obtain ⟨active, isLast⟩ := Option.isSome_iff_exists.mp hasLast
  have crashed := crashed_cutLog final active 100 isLast
  have quiet : (final.world.cutLog active.baseOffset 100).Quiet := by
    intro tick member
    rw [World.cutLog, World.pending_withStore, idle] at member
    cases member
  obtain ⟨log, after, restarted, survived, -⟩ := crash_recovers_whole_batches _ World.empty _ _ final
    100 World.bare_empty ran (by decide +kernel) (by decide +kernel) (by decide +kernel) crashed quiet
  exact ⟨final, _, log, after, ran, crashed, restarted, survived⟩

def overlongBatch : Bytes := announce (minimalBody 0 ++ [0])

/-- An append checks the checksum over the buffer it is given, recovery over the bytes that
the header announces. -/
theorem crash_loses_overlong_batch :
    ∃ final disk log after,
      partitionRun ⟨1000, 0, 4096, .none⟩ World.empty [[overlongBatch]] = some final ∧
      Crashed final 62 disk ∧ disk.Quiet ∧
      openLog ⟨1000, 0, 4096, .none⟩ disk = .ok log after ∧
      wholeBatches final 62 = [overlongBatch] ∧ (decodeHeader overlongBatch).lastOffsetDelta = 0 ∧
      final.log.highWatermark = 1 ∧ log.highWatermark = 0 ∧ (after.stores .log).data 0 = [] := by
  have outcome : (partitionRun ⟨1000, 0, 4096, .none⟩ World.empty [[overlongBatch]]).bind (fun final =>
      final.log.segments.getLast?.map fun active => (final.world.pending, wholeBatches final 62,
        final.log.highWatermark, decide (Yields (openLog ⟨1000, 0, 4096, .none⟩)
          (final.world.cutLog active.baseOffset 62) (fun log after =>
            log.highWatermark = 0 ∧ (after.stores .log).data 0 = []) (fun _ _ => False)))) =
      some ([], [overlongBatch], 1, true) := by decide +kernel
  obtain ⟨final, ran, rest⟩ := Option.bind_eq_some_iff.mp outcome
  obtain ⟨active, isLast, seen⟩ := Option.map_eq_some_iff.mp rest
  simp only [Prod.mk.injEq, decide_eq_true_eq] at seen
  obtain ⟨idle, whole, before, restarts⟩ := seen
  obtain ⟨log, after, restarted, recovered, empty⟩ := restarts.succeeds
  refine ⟨final, _, log, after, ran, crashed_cutLog final active 62 isLast, ?_, restarted, whole,
    by decide +kernel, before, recovered, empty⟩
  intro tick member
  rw [World.cutLog, World.pending_withStore, idle] at member
  cases member

end KafkaWire.Storage
