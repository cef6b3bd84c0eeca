import KafkaWire.Storage.Restart
import KafkaWire.Storage.SegmentRuns

/-! The index only shortens the scan for a batch: with it and without it the scan stops at the same
batch. -/

namespace KafkaWire.Storage

open Bytes Files Programs Machine

def Segment.scanFromStart (world : World) (s : Segment) (targetOffset : Int) : Except Fault Nat :=
  s.findBatchLoop world targetOffset s.logSize (List.replicate v2HeaderSize 0) 0

section Scan

variable {world : World} {s : Segment} {batches : List Bytes}

theorem Holds.scanFromStart (holds : Holds (world.stores .log) s batches) (keyed : s.Keyed)
    (positive : 0 ≤ s.baseOffset) (target : Int) (low : s.baseOffset ≤ target) :
    s.scanFromStart world target =
      .ok (s.logSize - (fromOffset s.baseOffset batches target).flatten.length) := by
  obtain ⟨junk, bytes⟩ := holds.bytes keyed
  have many : batches.length ≤ s.logSize := by
    rw [holds.size]
    exact Framing.length_le_flatten batchFormat batches holds.tiles.isBatch
  exact findBatchLoop_eq target junk [] batches s.baseOffset s.nextOffset s.logSize _ bytes holds.size
    holds.tiles positive low many (by simp [v2HeaderSize])

theorem Holds.scans_agree (holds : Holds (world.stores .log) s batches) (keyed : s.Keyed)
    (positive : 0 ≤ s.baseOffset) (bounded : s.nextOffset < 2 ^ 63) (target : Int)
    (low : s.baseOffset ≤ target) (high : target < s.nextOffset) :
    ∃ front batch back, batches = front ++ batch :: back ∧
      (decodeHeader batch).baseOffset ≤ target ∧ target ≤ (decodeHeader batch).lastOffset ∧
      s.findBatchAt world target = .ok front.flatten.length ∧
      s.scanFromStart world target = .ok front.flatten.length := by
  obtain ⟨front, batch, back, first, shape, found, before, tiles, below, above⟩ :=
    fromOffset_cons holds.tiles low high
  have position : s.logSize - (fromOffset s.baseOffset batches target).flatten.length =
      front.flatten.length := by
    rw [found, holds.size, shape, List.flatten_append, List.length_append]
    omega
  refine ⟨front, batch, back, shape, ?_, ?_, ?_, ?_⟩
  · rw [tiles.1.baseOffset]
    exact below
  · rw [tiles.1.lastOffset (le_trans positive before.le)]
    omega
  · rw [holds.findBatchAt keyed positive bounded target low high, position]
  · rw [holds.scanFromStart keyed positive target low, position]

end Scan

namespace SegmentRun

variable {run : SegmentRun}

def Appends (run : SegmentRun) (call : SegmentAppend) : Prop :=
  run.Untorn call ∧ run.Continues call.batch

instance (run : SegmentRun) (call : SegmentAppend) : Decidable (run.Appends call) :=
  inferInstanceAs (Decidable (_ ∧ _))

structure Stacked (run : SegmentRun) : Prop where
  exact' : run.Exact
  positive : 0 ≤ run.segment.baseOffset
  bounded : run.segment.nextOffset < 2 ^ 63
  tiles : Tiles run.segment.baseOffset run.stored run.segment.nextOffset
  samples : Samples run.segment.baseOffset run.segment.idx.entries run.stored

theorem Stacked.wrote {call : SegmentAppend} {done : Appended} {after : World}
    (stacked : run.Stacked) (continues : run.Continues call.batch)
    (wrote : Wrote run.segment call.batch (run.facing call.ticks) done after) :
    Stacked ⟨done.segment, after, run.stored ++ [call.batch]⟩ := by
  obtain ⟨whole, starts, counted, fits⟩ := continues
  have shape := wrote.segment.shape
  have base : done.segment.baseOffset = run.segment.baseOffset := by rw [shape]; rfl
  have positive := stacked.positive
  have stored : StoredAt run.segment.nextOffset call.batch :=
    ⟨whole, wrote.crc, starts, counted, fits⟩
  have low := le_trans positive stacked.tiles.le
  have next : done.segment.nextOffset = run.segment.nextOffset + offsetCount call.batch := by
    rw [shape]
    show int64 ((decodeHeader call.batch).lastOffset + 1) = _
    rw [stored.lastOffset low, int64_of_range _ (by omega) (by omega)]
    omega
  refine ⟨stacked.exact'.wrote wrote, ?_, ?_, ?_, ?_⟩
  · show 0 ≤ done.segment.baseOffset
    rw [base]
    exact positive
  · show done.segment.nextOffset < 2 ^ 63
    rw [next]
    exact fits
  · show Tiles done.segment.baseOffset _ done.segment.nextOffset
    rw [base, next]
    exact stacked.tiles.snoc stored
  · show Samples done.segment.baseOffset done.segment.idx.entries _
    rw [base]
    exact wrote.segment.idx.samples stacked.samples stacked.exact'.size

theorem Stacked.step (stacked : run.Stacked) {call : SegmentAppend} (appends : run.Appends call) :
    (run.step call).Stacked := by
  have exact' := stacked.exact'.step appends.1
  rcases step_cases stacked.exact'.keyed call with ⟨done, wrote, segment, stored⟩ | ⟨-, segment, stored⟩
  · rw [show run.step call = ⟨done.segment, _, run.stored ++ [call.batch]⟩ by
      rw [← segment, ← stored]]
    exact stacked.wrote appends.2 wrote
  · refine ⟨exact', ?_, ?_, ?_, ?_⟩
    · rw [segment]
      exact stacked.positive
    · rw [segment]
      exact stacked.bounded
    · rw [segment, stored]
      exact stacked.tiles
    · rw [segment, stored]
      exact stacked.samples

theorem stacked_of_guarded {start : SegmentRun} (calls : List SegmentAppend) (stacked : start.Stacked)
    (appends : Guarded step Appends start calls) : (exec step start calls).Stacked ∧
      (exec step start calls).segment.baseOffset = start.segment.baseOffset := by
  induction calls generalizing start with
  | nil => exact ⟨stacked, rfl⟩
  | cons call rest ih =>
    obtain ⟨final, base⟩ := ih (stacked.step appends.1) appends.2
    exact ⟨final, base.trans (step_baseOffset stacked.exact'.keyed call)⟩

theorem fresh_stacked {opts : SegmentOpts} {world opened : World} {segment : Segment}
    (vacant : Vacant opts.baseOffset world) (created : openSegment opts world = .ok segment opened)
    (positive : 0 ≤ opts.baseOffset) (bounded : opts.baseOffset < 2 ^ 63) :
    Stacked ⟨segment, opened, []⟩ := by
  obtain ⟨exact', base, next, empty⟩ := fresh_exact vacant created
  refine ⟨exact', by rw [base]; exact positive, by rw [next]; exact bounded, ?_, ?_⟩
  · exact base.trans next.symm
  · show Samples segment.baseOffset segment.idx.entries []
    rw [empty]
    exact Samples.nil _ _

theorem Stacked.holds (stacked : run.Stacked) :
    Holds (run.world.stores .log) run.segment run.stored := by
  obtain ⟨file, found, data⟩ := Option.map_eq_some_iff.mp stacked.exact'.positioned.contents
  refine ⟨stacked.tiles, stacked.exact'.size, ⟨file, found, ?_⟩,
    stacked.samples.indexOk stacked.tiles stacked.positive⟩
  rw [data]

end SegmentRun

open SegmentRun in
/-- In a segment built by appends, a search through the index stops at the batch where a scan from
the start stops, which is the one that has the offset. -/
theorem index_search_eq_scan (opts : SegmentOpts) (world opened : World) (segment : Segment)
    (calls : List SegmentAppend) (positive : 0 ≤ opts.baseOffset) (bounded : opts.baseOffset < 2 ^ 63)
    (vacant : Vacant opts.baseOffset world) (created : openSegment opts world = .ok segment opened)
    (appends : Guarded step Appends ⟨segment, opened, []⟩ calls) (target : Int) :
    let run := exec step ⟨segment, opened, []⟩ calls
    run.segment.baseOffset ≤ target → target < run.segment.nextOffset →
      ∃ front batch back, run.stored = front ++ batch :: back ∧
        (decodeHeader batch).baseOffset ≤ target ∧ target ≤ (decodeHeader batch).lastOffset ∧
        run.segment.findBatchAt run.world target = .ok front.flatten.length ∧
        run.segment.scanFromStart run.world target = .ok front.flatten.length := by
  obtain ⟨stacked, -⟩ :=
    stacked_of_guarded calls (fresh_stacked vacant created positive bounded) appends
  intro run low high
  exact stacked.holds.scans_agree stacked.exact'.keyed stacked.positive stacked.bounded target low high

/-- The second of two batches, found through its sample and by the scan. -/
theorem sampled_batch_found :
    ∃ segment opened, openSegment ⟨0, 1, 1000, 0⟩ World.empty = .ok segment opened ∧
      let run := exec SegmentRun.step ⟨segment, opened, []⟩
        [⟨minimalBatch 0, []⟩, ⟨stamp (minimalBatch 4) 1, []⟩]
      run.segment.idx.entries.length = 2 ∧ ∃ front batch back,
        run.stored = front ++ batch :: back ∧ (decodeHeader batch).baseOffset ≤ 3 ∧
        3 ≤ (decodeHeader batch).lastOffset ∧
        run.segment.findBatchAt run.world 3 = .ok front.flatten.length ∧
        run.segment.scanFromStart run.world 3 = .ok front.flatten.length := by
  have outcome : Yields (openSegment ⟨0, 1, 1000, 0⟩) World.empty (fun segment opened =>
      let start : SegmentRun := ⟨segment, opened, []⟩
      let calls : List SegmentAppend := [⟨minimalBatch 0, []⟩, ⟨stamp (minimalBatch 4) 1, []⟩]
      let run := exec SegmentRun.step start calls
      Guarded SegmentRun.step SegmentRun.Appends start calls ∧ run.segment.idx.entries.length = 2 ∧
        run.segment.baseOffset = 0 ∧ run.segment.nextOffset = 6) (fun _ _ => False) := by
    decide +kernel
  obtain ⟨segment, opened, created, appends, entries, base, next⟩ := outcome.succeeds
  have zero : (0 : Int) < 2 ^ 63 := by decide
  exact ⟨segment, opened, created, entries, index_search_eq_scan ⟨0, 1, 1000, 0⟩ World.empty opened
    segment _ (le_refl _) zero (World.bare_empty.vacant 0) created appends 3
    (by rw [base]; decide) (by rw [next]; decide)⟩

/-- Behind a batch that is longer than its header says, the scan from the start loses its way; the
search through the index jumps over it. -/
theorem overlong_batch_stops_scan :
    ∃ segment opened, openSegment ⟨0, 1, 1000, 0⟩ World.empty = .ok segment opened ∧
      let run := exec SegmentRun.step ⟨segment, opened, []⟩
        [⟨overlongBatch, []⟩, ⟨stamp (minimalBatch 0) 1, []⟩]
      (∀ batch ∈ run.stored, (decodeHeader batch).lastOffsetDelta = 0) ∧
        run.stored = [overlongBatch, stamp (minimalBatch 0) 1] ∧
        run.segment.baseOffset = 0 ∧ run.segment.nextOffset = 2 ∧
        run.segment.findBatchAt run.world 1 = .ok 62 ∧
        ∀ position, run.segment.scanFromStart run.world 1 ≠ .ok position := by
  have outcome : Yields (openSegment ⟨0, 1, 1000, 0⟩) World.empty (fun segment opened =>
      let run := exec SegmentRun.step ⟨segment, opened, []⟩
        [⟨overlongBatch, []⟩, ⟨stamp (minimalBatch 0) 1, []⟩]
      run.stored = [overlongBatch, stamp (minimalBatch 0) 1] ∧ run.segment.baseOffset = 0 ∧
        run.segment.nextOffset = 2 ∧ (run.segment.findBatchAt run.world 1).toOption = some 62 ∧
        (run.segment.scanFromStart run.world 1).toOption = none) (fun _ _ => False) := by
    decide +kernel
  obtain ⟨segment, opened, created, stored, base, next, found, failed⟩ := outcome.succeeds
  refine ⟨segment, opened, created, by rw [stored]; decide +kernel, stored, base, next,
    ok_of_toOption found, fun position scanned => ?_⟩
  rw [scanned] at failed
  cases failed

end KafkaWire.Storage
