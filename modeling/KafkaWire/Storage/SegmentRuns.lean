import KafkaWire.Lib.Machine
import KafkaWire.Storage.Fresh
import KafkaWire.Storage.Recovery

/-! Appends to one segment, one after the other, some of which fail. The segment keeps its size
apart from the write offset of the file, and the two agree as long as no write stops part-way. -/

namespace KafkaWire.Storage

open Bytes Files Programs Machine

variable {call : SegmentAppend}

structure SegmentRun where
  segment : Segment
  world : World
  stored : List Bytes

structure SegmentAppend where
  batch : Bytes
  ticks : List Tick

namespace SegmentRun

def facing (run : SegmentRun) (ticks : List Tick) : World := { run.world with pending := ticks }

def step (run : SegmentRun) (call : SegmentAppend) : SegmentRun :=
  match run.segment.append call.batch (run.facing call.ticks) with
  | .ok done after => ⟨done.segment, after, run.stored ++ [call.batch]⟩
  | .error _ after => ⟨run.segment, after, run.stored⟩

/-- The first call of an append is the write to the log file. If it fails, none of the batch gets
through. -/
def Untorn (_ : SegmentRun) (call : SegmentAppend) : Prop :=
  ∀ tick ∈ call.ticks.head?, tick.fault = none ∨ tick.fault = some 0

def Continues (run : SegmentRun) (batch : Bytes) : Prop :=
  IsBatch batch ∧ (decodeHeader batch).baseOffset = run.segment.nextOffset ∧
    0 < offsetCount batch ∧ run.segment.nextOffset + offsetCount batch < 2 ^ 63

instance (run : SegmentRun) (call : SegmentAppend) : Decidable (run.Untorn call) :=
  match shape : call.ticks.head? with
  | none => isTrue (by simp [Untorn, shape])
  | some tick =>
    decidable_of_iff (tick.fault = none ∨ tick.fault = some 0) (by simp [Untorn, shape])

instance (run : SegmentRun) (batch : Bytes) : Decidable (run.Continues batch) :=
  inferInstanceAs (Decidable (_ ∧ _))

variable {run : SegmentRun}

theorem Untorn.next (untorn : run.Untorn call) :
    (run.facing call.ticks).next.fault = none ∨ (run.facing call.ticks).next.fault = some 0 := by
  unfold World.next
  split
  · exact .inl rfl
  · next tick rest shape =>
      refine untorn tick ?_
      rw [show call.ticks = tick :: rest from shape]
      rfl

structure Exact (run : SegmentRun) : Prop where
  keyed : run.segment.Keyed
  positioned : Positioned (run.world.stores .log) run.segment.baseOffset run.segment.logFile.fd
    run.stored.flatten
  size : run.segment.logSize = run.stored.flatten.length
  crc : ∀ batch ∈ run.stored, validateCRC batch = none

theorem step_cases (keyed : run.segment.Keyed) (call : SegmentAppend) :
    (∃ done, Wrote run.segment call.batch (run.facing call.ticks) done (run.step call).world ∧
      (run.step call).segment = done.segment ∧ (run.step call).stored = run.stored ++ [call.batch]) ∨
    ((run.step call).world = run.facing call.ticks ∨
        Tore run.segment call.batch (run.facing call.ticks) (run.step call).world) ∧
      (run.step call).segment = run.segment ∧ (run.step call).stored = run.stored := by
  have spec := run.segment.append_spec call.batch (run.facing call.ticks) keyed
  rw [step]
  split
  · next done after ran => exact .inl ⟨done, spec.of_ok ran, rfl, rfl⟩
  · next err after ran => exact .inr ⟨(spec.of_error ran).imp_left (·.2), rfl, rfl⟩

theorem Exact.wrote {done : Appended} {after : World} (exact' : run.Exact)
    (wrote : Wrote run.segment call.batch (run.facing call.ticks) done after) :
    Exact ⟨done.segment, after, run.stored ++ [call.batch]⟩ := by
  have shape := wrote.segment.shape
  have file : done.segment.logFile = run.segment.logFile := by rw [shape]; rfl
  have base : done.segment.baseOffset = run.segment.baseOffset := by rw [shape]; rfl
  have keyed := exact'.keyed
  have positioned := exact'.positioned
  rw [← keyed.log] at positioned
  obtain ⟨now, log⟩ := wrote.log
  refine ⟨⟨?_, ?_, ?_⟩, ?_, ?_, ?_⟩
  · rw [file, base, keyed.log]
  · rw [wrote.segment.idx.1, base]
    exact keyed.index
  · rw [wrote.segment.tix, base]
    exact keyed.timeIndex
  · rw [log, base, file, ← keyed.log, List.flatten_append, List.flatten_singleton]
    exact positioned.write call.batch now
  · rw [shape, List.flatten_append, List.length_append, List.flatten_singleton, ← exact'.size]
    rfl
  · exact List.forall_mem_append.mpr ⟨exact'.crc, by simpa using wrote.crc⟩

theorem Exact.tore {after : World} (exact' : run.Exact)
    (untorn : run.Untorn call) (tore : Tore run.segment call.batch (run.facing call.ticks) after) :
    Exact ⟨run.segment, after, run.stored⟩ := by
  have keyed := exact'.keyed
  have positioned := exact'.positioned
  rw [← keyed.log] at positioned
  obtain ⟨count, faulty, rfl⟩ := tore
  obtain rfl : count = 0 := by
    rcases untorn.next with none | zero
    · rw [faulty] at none
      cases none
    · exact Option.some.inj (faulty.symm.trans zero)
  refine ⟨keyed, ?_, exact'.size, exact'.crc⟩
  have written := positioned.write [] (run.facing call.ticks).next.now
  rw [List.append_nil, keyed.log] at written
  rw [World.stores_withStore, if_pos rfl, List.take_zero]
  exact written

theorem Exact.step (exact' : run.Exact) (untorn : run.Untorn call) : (run.step call).Exact := by
  rcases step_cases exact'.keyed call with
    ⟨done, wrote, segment, stored⟩ | ⟨refused | tore, segment, stored⟩
  · rw [show run.step call = ⟨done.segment, _, run.stored ++ [call.batch]⟩ by
      rw [← segment, ← stored]]
    exact exact'.wrote wrote
  · rw [show run.step call = ⟨run.segment, run.facing call.ticks, run.stored⟩ by
      rw [← segment, ← stored, ← refused]]
    exact ⟨exact'.keyed, exact'.positioned, exact'.size, exact'.crc⟩
  · rw [show run.step call = ⟨run.segment, _, run.stored⟩ by rw [← segment, ← stored]]
    exact exact'.tore untorn tore

theorem step_baseOffset (keyed : run.segment.Keyed) (call : SegmentAppend) :
    (run.step call).segment.baseOffset = run.segment.baseOffset := by
  rcases step_cases keyed call with ⟨done, wrote, segment, -⟩ | ⟨-, segment, -⟩
  · rw [segment, wrote.segment.shape]
    rfl
  · rw [segment]

theorem fresh_exact {opts : SegmentOpts} {world opened : World} {segment : Segment}
    (vacant : Vacant opts.baseOffset world) (created : openSegment opts world = .ok segment opened) :
    Exact ⟨segment, opened, []⟩ ∧ segment.baseOffset = opts.baseOffset ∧
      segment.nextOffset = opts.baseOffset ∧ segment.idx.entries = [] := by
  obtain ⟨-, -, ⟨now, added⟩, idxFd, tixFd, createdAt, rfl⟩ :=
    (openSegment_vacant opts world vacant).of_ok created
  refine ⟨⟨⟨rfl, rfl, rfl⟩, ⟨?_, ?_⟩, rfl, by simp⟩, rfl, rfl, rfl⟩
  · show Option.map File.data ((opened.stores .log).lookup opts.baseOffset) = some []
    rw [added, Store.lookup_openFile, if_pos rfl, Option.map_some]
    cases found : (world.stores .log).lookup opts.baseOffset with
    | none => rfl
    | some file => exact congrArg some (vacant .log file found).1
  · show (opened.stores .log).offset (world.stores .log).nextFd = 0
    rw [added, Store.offset_openFile, if_pos rfl]

theorem exact_of_guarded {start : SegmentRun} (calls : List SegmentAppend) (exact' : start.Exact)
    (untorn : Guarded step Untorn start calls) : (exec step start calls).Exact := by
  induction calls generalizing start with
  | nil => exact exact'
  | cons call rest ih => exact ih (exact'.step untorn.1) untorn.2

end SegmentRun

open SegmentRun in
/-- As long as no write to the log file stops part-way, the file holds the batches that were
accepted and nothing else, and recovery finds them. -/
theorem accepted_batches_fill_file (opts : SegmentOpts) (world opened : World) (segment : Segment)
    (calls : List SegmentAppend) (vacant : Vacant opts.baseOffset world)
    (created : openSegment opts world = .ok segment opened)
    (untorn : Guarded step Untorn ⟨segment, opened, []⟩ calls) :
    let run := exec step ⟨segment, opened, []⟩ calls
    let data := (run.world.stores .log).data run.segment.logFile.key
    run.segment.logSize = run.stored.flatten.length ∧
      data.take run.segment.logSize = run.stored.flatten ∧
      ((∀ batch ∈ run.stored, IsBatch batch) → survivors data = run.stored) := by
  have exact' := exact_of_guarded calls (fresh_exact vacant created).1 untorn
  intro run data
  have bytes : data = run.stored.flatten := by
    rw [← exact'.positioned.data, ← exact'.keyed.log]
  refine ⟨exact'.size, ?_, fun complete => ?_⟩
  · rw [bytes, exact'.size, List.take_length]
  · rw [bytes]
    exact survivors_flatten _ fun batch member =>
      ⟨complete batch member, by simp [crcOk, exact'.crc batch member]⟩

/-- The second write fails without effect. -/
theorem refused_write_leaves_batches :
    ∃ segment opened, openSegment ⟨0, 4096, 1000, 0⟩ World.empty = .ok segment opened ∧
      let run := exec SegmentRun.step ⟨segment, opened, []⟩
        [⟨minimalBatch 0, []⟩, ⟨minimalBatch 1, [⟨0, some 0⟩]⟩, ⟨minimalBatch 2, []⟩]
      run.stored = [minimalBatch 0, minimalBatch 2] ∧ run.segment.logSize = 122 ∧
        survivors ((run.world.stores .log).data run.segment.logFile.key) =
          [minimalBatch 0, minimalBatch 2] := by
  have outcome : Yields (openSegment ⟨0, 4096, 1000, 0⟩) World.empty (fun segment opened =>
      let start : SegmentRun := ⟨segment, opened, []⟩
      let calls : List SegmentAppend :=
        [⟨minimalBatch 0, []⟩, ⟨minimalBatch 1, [⟨0, some 0⟩]⟩, ⟨minimalBatch 2, []⟩]
      Guarded SegmentRun.step SegmentRun.Untorn start calls ∧
        (exec SegmentRun.step start calls).stored = [minimalBatch 0, minimalBatch 2])
      (fun _ _ => False) := by decide +kernel
  obtain ⟨segment, opened, created, untorn, stored⟩ := outcome.succeeds
  obtain ⟨size, -, found⟩ := accepted_batches_fill_file _ World.empty opened segment _
    (World.bare_empty.vacant 0) created untorn
  rw [stored] at size found
  exact ⟨segment, opened, created, stored, size.trans (by decide +kernel), found (by decide +kernel)⟩

/-- Ten bytes of the second batch get into the file, and the third goes behind them. -/
theorem torn_write_shifts_batches :
    ∃ segment opened, openSegment ⟨0, 4096, 1000, 0⟩ World.empty = .ok segment opened ∧
      let run := exec SegmentRun.step ⟨segment, opened, []⟩
        [⟨minimalBatch 0, []⟩, ⟨minimalBatch 1, [⟨0, some 10⟩]⟩, ⟨minimalBatch 2, []⟩]
      let data := (run.world.stores .log).data run.segment.logFile.key
      run.stored = [minimalBatch 0, minimalBatch 2] ∧
        data.take run.segment.logSize ≠ run.stored.flatten ∧ survivors data = [minimalBatch 0] := by
  exact Yields.succeeds (by decide +kernel)

end KafkaWire.Storage
