import KafkaWire.Storage.Scanning

/-! The index of a segment that is opened again. Recovery builds it anew while it reads the log; it
leaves the index files alone when there is no log to read. -/

namespace KafkaWire.Storage

open Bytes Files Programs Machine

namespace SegmentRun

variable {run : SegmentRun}

theorem Stacked.valid (stacked : run.Stacked) :
    ∀ batch ∈ run.stored, IsBatch batch ∧ crcOk batch = true := stacked.tiles.valid

theorem Stacked.data (stacked : run.Stacked) :
    (run.world.stores .log).data run.segment.baseOffset = run.stored.flatten :=
  stacked.exact'.positioned.data

theorem Stacked.reopen (stacked : run.Stacked) {opts : SegmentOpts} {disk reopened : World}
    {segment : Segment} {cut : Nat} (base : opts.baseOffset = run.segment.baseOffset)
    (crashed : (disk.stores .log).data opts.baseOffset =
      ((run.world.stores .log).data opts.baseOffset).take cut)
    (ran : openSegment opts disk = .ok segment reopened)
    (clean : ((disk.stores .index).data opts.baseOffset).length < indexEntrySize ∨
      (disk.stores .log).data opts.baseOffset ≠ []) :
    ∃ kept, kept <+: run.stored ∧ segment.baseOffset = opts.baseOffset ∧
      Stacked ⟨segment, reopened, kept⟩ := by
  obtain ⟨-, -, -, -, kept, recovered, positioned, -⟩ := (openSegment_spec opts disk).of_ok ran
  have found : survivors ((disk.stores .log).data opts.baseOffset) =
      Framing.fitting run.stored cut := by
    rw [crashed, base, stacked.data, survivors_take _ _ stacked.valid]
  have front : kept <+: run.stored :=
    (found ▸ recovered.front).trans (Framing.fitting_prefix _ _)
  obtain ⟨middle, tiled, le⟩ := stacked.tiles.take_prefix front
  have positive := stacked.positive
  have next : segment.nextOffset = middle := by
    rw [recovered.next, base, tiled.endOffset positive]
  refine ⟨kept, front, recovered.baseOffset, ⟨recovered.keyed, ?_, recovered.size, ?_⟩, ?_, ?_, ?_, ?_⟩
  · show Positioned (reopened.stores .log) segment.baseOffset segment.logFile.fd kept.flatten
    rw [recovered.baseOffset]
    exact positioned
  · exact fun batch member => stacked.exact'.crc batch (front.subset member)
  · show 0 ≤ segment.baseOffset
    rw [recovered.baseOffset, base]
    exact positive
  · show segment.nextOffset < 2 ^ 63
    rw [next]
    exact lt_of_le_of_lt le stacked.bounded
  · show Tiles segment.baseOffset kept segment.nextOffset
    rw [recovered.baseOffset, base, next]
    exact tiled
  · show Samples segment.baseOffset segment.idx.entries kept
    rw [recovered.baseOffset]
    exact recovered.samples.mp clean

end SegmentRun

def IndexEntry.Names (base : Int) (batches : List Bytes) (entry : IndexEntry) : Prop :=
  ∃ front batch back, batches = front ++ batch :: back ∧ entry.position = front.flatten.length ∧
    (decodeHeader batch).baseOffset = base + entry.relOffset

open SegmentRun in
/-- A segment whose log file is a front of one that appends have written is opened again, and
appended to. Unless the log file is empty and the index file is not, every entry of the index names a
batch of the log, in ascending order. -/
theorem reopened_index_names_batches (opts opts' : SegmentOpts) (world opened disk reopened : World)
    (segment segment' : Segment) (calls : List SegmentAppend) (cut : Nat)
    (positive : 0 ≤ opts.baseOffset) (bounded : opts.baseOffset < 2 ^ 63)
    (vacant : Vacant opts.baseOffset world) (created : openSegment opts world = .ok segment opened)
    (appends : Guarded step Appends ⟨segment, opened, []⟩ calls)
    (same : opts'.baseOffset = opts.baseOffset)
    (crashed : (disk.stores .log).data opts.baseOffset =
      (((exec step ⟨segment, opened, []⟩ calls).world.stores .log).data opts.baseOffset).take cut)
    (ran : openSegment opts' disk = .ok segment' reopened)
    (clean : ((disk.stores .index).data opts.baseOffset).length < indexEntrySize ∨
      (disk.stores .log).data opts.baseOffset ≠ []) :
    ∃ kept, kept <+: (exec step ⟨segment, opened, []⟩ calls).stored ∧
      ∀ later, Guarded step Appends ⟨segment', reopened, kept⟩ later →
        let run := exec step ⟨segment', reopened, kept⟩ later
        (run.world.stores .log).data opts.baseOffset = run.stored.flatten ∧
          (∀ entry ∈ run.segment.idx.entries, entry.Names opts.baseOffset run.stored) ∧
          run.segment.idx.entries.Pairwise fun a b =>
            a.relOffset < b.relOffset ∧ a.position < b.position := by
  obtain ⟨stacked, base⟩ :=
    stacked_of_guarded calls (fresh_stacked vacant created positive bounded) appends
  replace base := base.trans (fresh_exact vacant created).2.1
  rw [← same] at crashed clean base
  obtain ⟨kept, front, base', stacked'⟩ := stacked.reopen base.symm crashed ran clean
  refine ⟨kept, front, fun later appends' => ?_⟩
  obtain ⟨final, here⟩ := stacked_of_guarded later stacked' appends'
  rw [← here.trans (base'.trans same)]
  refine ⟨final.data, fun entry member => ?_, final.samples.ascending final.tiles final.positive⟩
  obtain ⟨front', batch, back, shape, position, -, starts⟩ :=
    final.samples.mem final.tiles final.positive member
  exact ⟨front', batch, back, shape, position, starts⟩

/-- On an empty log file every other index file leaves entries, which name nothing. -/
theorem stale_entries_name_nothing {opts : SegmentOpts} {disk reopened : World} {segment : Segment}
    (ran : openSegment opts disk = .ok segment reopened)
    (empty : (disk.stores .log).data opts.baseOffset = [])
    (stale : indexEntrySize ≤ ((disk.stores .index).data opts.baseOffset).length) :
    (reopened.stores .log).data opts.baseOffset = [] ∧ segment.idx.entries ≠ [] := by
  obtain ⟨-, -, -, -, kept, recovered, positioned, -⟩ := (openSegment_spec opts disk).of_ok ran
  have front := recovered.front
  rw [empty] at front
  obtain rfl : kept = [] := List.prefix_nil.mp front
  refine ⟨positioned.data, fun cleared => ?_⟩
  have clean := recovered.samples.mpr (by rw [cleared]; exact Samples.nil _ _)
  exact clean.elim (by omega) fun filled => filled empty

/-- The log is cut inside the second of two batches, the index is not, and one batch follows. -/
theorem cut_log_indexed_again :
    ∃ disk segment' reopened kept,
      ((disk.stores .log).data 0).length = 70 ∧ ((disk.stores .index).data 0).length = 16 ∧
      openSegment ⟨0, 1, 1000, 0⟩ disk = .ok segment' reopened ∧
      let run := exec SegmentRun.step ⟨segment', reopened, kept⟩ [⟨stamp (minimalBatch 2) 1, []⟩]
      (run.world.stores .log).data 0 = run.stored.flatten ∧
        (∀ entry ∈ run.segment.idx.entries, entry.Names 0 run.stored) ∧
        run.segment.idx.entries.Pairwise fun a b =>
          a.relOffset < b.relOffset ∧ a.position < b.position := by
  have outcome : Yields (openSegment ⟨0, 1, 1000, 0⟩) World.empty (fun segment opened =>
      let start : SegmentRun := ⟨segment, opened, []⟩
      let calls : List SegmentAppend := [⟨minimalBatch 0, []⟩, ⟨stamp (minimalBatch 4) 1, []⟩]
      let disk := (exec SegmentRun.step start calls).world.cutLog 0 70
      Guarded SegmentRun.step SegmentRun.Appends start calls ∧
        ((disk.stores .log).data 0).length = 70 ∧ ((disk.stores .index).data 0).length = 16 ∧
        (disk.stores .log).data 0 =
          (((exec SegmentRun.step start calls).world.stores .log).data 0).take 70 ∧
        Yields (openSegment ⟨0, 1, 1000, 0⟩) disk (fun segment' reopened =>
          SegmentRun.Appends ⟨segment', reopened, []⟩ ⟨stamp (minimalBatch 2) 1, []⟩)
          (fun _ _ => False)) (fun _ _ => False) := by decide +kernel
  obtain ⟨segment, opened, created, appends, cut, index, crashed, reopens⟩ := outcome.succeeds
  obtain ⟨segment', reopened, ran, continues⟩ := reopens.succeeds
  have filled : (World.stores _ .log).data 0 ≠ [] := fun empty => by
    rw [empty] at cut
    cases cut
  have zero : (0 : Int) < 2 ^ 63 := by decide
  obtain ⟨kept, -, holds⟩ := reopened_index_names_batches ⟨0, 1, 1000, 0⟩ ⟨0, 1, 1000, 0⟩
    World.empty opened _ reopened segment segment' _ 70 (le_refl _) zero
    (World.bare_empty.vacant 0) created appends rfl crashed ran (.inr filled)
  exact ⟨_, segment', reopened, kept, cut, index, ran, holds _ ⟨continues, trivial⟩⟩

/-- The log is empty and the index is not. The two entries stay, and two batches later the second
points at a batch with another offset, past the one that is looked for. -/
theorem stale_index_survives :
    ∃ segment opened segment' reopened, openSegment ⟨0, 1, 1000, 0⟩ World.empty = .ok segment opened ∧
      let before := exec SegmentRun.step ⟨segment, opened, []⟩
        [⟨minimalBatch 0, []⟩, ⟨stamp (minimalBatch 0) 1, []⟩]
      openSegment ⟨0, 1, 1000, 0⟩ (before.world.cutLog 0 0) = .ok segment' reopened ∧
      segment'.logSize = 0 ∧ segment'.idx.entries = [⟨0, 0⟩, ⟨1, 61⟩] ∧
      let run := exec SegmentRun.step ⟨segment', reopened, []⟩
        [⟨minimalBatch 4, []⟩, ⟨stamp (minimalBatch 0) 5, []⟩]
      run.stored = [minimalBatch 4, stamp (minimalBatch 0) 5] ∧
        ⟨1, 61⟩ ∈ run.segment.idx.entries ∧
        (run.segment.findBatchAt run.world 1).toOption = some 61 := by
  have outcome : Yields (openSegment ⟨0, 1, 1000, 0⟩) World.empty (fun segment opened =>
      let before := exec SegmentRun.step ⟨segment, opened, []⟩
        [⟨minimalBatch 0, []⟩, ⟨stamp (minimalBatch 0) 1, []⟩]
      Yields (openSegment ⟨0, 1, 1000, 0⟩) (before.world.cutLog 0 0) (fun segment' reopened =>
        let run := exec SegmentRun.step ⟨segment', reopened, []⟩
          [⟨minimalBatch 4, []⟩, ⟨stamp (minimalBatch 0) 5, []⟩]
        segment'.logSize = 0 ∧ segment'.idx.entries = [⟨0, 0⟩, ⟨1, 61⟩] ∧
          run.stored = [minimalBatch 4, stamp (minimalBatch 0) 5] ∧
          ⟨1, 61⟩ ∈ run.segment.idx.entries ∧
          (run.segment.findBatchAt run.world 1).toOption = some 61) (fun _ _ => False))
      (fun _ _ => False) := by decide +kernel
  obtain ⟨segment, opened, created, reopens⟩ := outcome.succeeds
  obtain ⟨segment', reopened, ran, stale⟩ := reopens.succeeds
  exact ⟨segment, opened, segment', reopened, created, ran, stale⟩

end KafkaWire.Storage
