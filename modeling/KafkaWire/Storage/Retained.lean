import KafkaWire.Storage.Closing
import KafkaWire.Storage.History

/-! Logs from whose front retention deletes segments. What is left is a log of the same shape that
starts later, and a fetch returns batches that the log still has. -/

namespace KafkaWire.Storage

open Bytes Files Programs Related

variable {after : World} {maxBytes offset first : Int}

structure Retained (p : Partition) : Prop where
  intact : ∃ front active old new, Intact p front active old new
  start : p.log.segments.head?.map Segment.baseOffset = some p.log.logStart

theorem Recorded.retained {p : Partition} (recorded : Recorded p) : Retained p := by
  obtain ⟨front, active, old, new, intact, -⟩ := recorded.intact
  exact ⟨⟨front, active, old, new, intact⟩, recorded.start.trans (by rw [recorded.logStart])⟩

theorem Retained.head_base {p : Partition} (retained : Retained p) :
    ∀ s ∈ p.log.segments.head?, s.baseOffset = p.log.logStart := by
  intro s isFirst
  have start := retained.start
  rw [Option.mem_def.mp isFirst] at start
  exact Option.some.inj start

theorem Retained.start_nonneg {p : Partition} (retained : Retained p) : 0 ≤ p.log.logStart := by
  obtain ⟨front, active, old, new, intact⟩ := retained.intact
  have layout := intact.readable.layout
  obtain ⟨s, isFirst⟩ := Option.isSome_iff_exists.mp
    (List.isSome_head?.mpr (layout.segments.trans_ne (by simp)))
  rw [← retained.head_base s isFirst]
  exact layout.positive s (layout.segments ▸ List.mem_of_mem_head? isFirst)

theorem Intact.contents {p : Partition} {front : List Segment} {active : Segment}
    {old : List (List Bytes)} {new : List Bytes} (intact : Intact p front active old new) :
    (old ++ [new]).flatten.flatten =
      (front ++ [active]).flatMap fun s => (p.world.stores .log).data s.baseOffset := by
  have data {s : Segment} {bytes synced : Bytes} (filed : Filed (p.world.stores .log) s bytes synced) :
      (p.world.stores .log).data s.baseOffset = bytes := by
    obtain ⟨mtime, found⟩ := filed
    rw [Store.data, found]
  obtain ⟨-, files, ⟨kept, -, filed, -⟩, -⟩ := intact
  have older : old.flatten.flatten = front.flatMap fun s => (p.world.stores .log).data s.baseOffset := by
    induction files with
    | nil => rfl
    | cons filed _ ih => rw [List.flatten_cons, List.flatten_append, ih, List.flatMap_cons, data filed]
  rw [List.flatten_append, List.flatten_append, older, List.flatMap_append, List.flatMap_singleton,
    data filed, List.flatten_singleton]

theorem Retained.facing {p : Partition} (retained : Retained p) (ticks : List Tick) :
    Retained (p.facing ticks) := by
  obtain ⟨front, active, old, new, intact⟩ := retained.intact
  exact ⟨⟨front, active, old, new, intact.idle rfl⟩, retained.start⟩

theorem Effects.retained {p p' : Partition} (effects : Effects IsBatch False p p')
    (retained : Retained p) : Retained p' := by
  obtain ⟨front, active, old, new, intact⟩ := retained.intact
  obtain ⟨front', active', old', new', -, intact', -, -⟩ := Effects.extends effects intact
  obtain ⟨start, logStart⟩ := Effects.start effects
  exact ⟨⟨front', active', old', new', intact'⟩, by rw [start, logStart, retained.start]⟩

theorem append_effects {p : Partition} {front : List Segment} {active : Segment}
    (layout : Layout p front active) (calm : p.world.Calm) (paused : Bool) (batches : List Bytes)
    (valid : ∀ batch ∈ checkedBatches paused batches, IsBatch batch)
    (fits : Fits p.log.highWatermark (checkedBatches paused batches)) :
    Yields (append paused batches) p (fun _ p' => Effects IsBatch False p p')
      (fun _ p' => Effects IsBatch False p p') := by
  by_cases checked : paused = false ∧ ∀ batch ∈ batches, validateBatchForAppend batch = none
  · rw [checkedBatches, if_pos checked] at fits valid
    exact (append_spec IsBatch False layout paused batches valid (fun _ => fits) (.inr calm)).mono
      (fun _ _ done => done.1.effects) fun _ _ failed => failed.effects
  · exact (append_refused False layout paused batches (.inr calm)
      (refused_of_unchecked checked)).mono
      (fun _ _ impossible => impossible.elim) fun _ _ silent => silent.effects

section Deleting

variable {p : Partition} {front : List Segment} {active s : Segment} {old : List (List Bytes)}
  {group new : List Bytes}

theorem Removed.tidy {before : World} (removed : Removed s.baseOffset before after)
    (tidy : Tidy (s :: front) active before) : Tidy front active after := by
  intro suffix key file found
  rw [removed suffix, Store.lookup_remove] at found
  split at found
  · cases found
  · next apart =>
      refine (tidy suffix key file found).imp_left ?_
      rintro ⟨owner, member, rfl⟩
      rcases List.mem_cons.mp member with rfl | rest
      · exact absurd rfl apart
      · exact ⟨owner, rest, rfl⟩

def dropHead (p : Partition) (segments : List Segment) (after : World) : Partition :=
  { p with log := { p.log with segments := segments }, world := after }

theorem Layout.dropHead (layout : Layout p (s :: front) active)
    (removed : Removed s.baseOffset p.world after) :
    Layout (dropHead p (front ++ [active]) after) front active where
  segments := rfl
  ordered := (List.pairwise_cons.mp layout.ordered).2
  linked := (List.isChain_cons.mp layout.linked).2
  filled := fun t member => layout.filled t (List.mem_cons_of_mem _ member)
  upward := layout.upward
  positive := fun t member => layout.positive t (List.mem_cons_of_mem _ member)
  bounded := layout.bounded
  keyed := fun t member => layout.keyed t (List.mem_cons_of_mem _ member)
  handle := by
    show active.logFile.fd < (after.stores .log).nextFd
    rw [removed .log]
    exact layout.handle
  files := removed.tidy layout.files

theorem Layout.apart_head (layout : Layout p (s :: front) active) :
    ∀ t ∈ front ++ [active], t.baseOffset ≠ s.baseOffset := by
  intro t member
  have ascending := layout.ascending
  rw [layout.segments, List.cons_append, List.map_cons, List.pairwise_cons] at ascending
  exact ne_of_gt (ascending.1 t.baseOffset (List.mem_map_of_mem member))

theorem Intact.dropHead (intact : Intact p (s :: front) active (group :: old) new)
    (removed : Removed s.baseOffset p.world after) :
    Intact (dropHead p (front ++ [active]) after) front active old new := by
  have layout := intact.readable.layout
  have same : ∀ t ∈ front ++ [active],
      (after.stores .log).lookup t.baseOffset = (p.world.stores .log).lookup t.baseOffset :=
    fun t member => removed.other .log (layout.apart_head t member)
  have before : ∀ t ∈ front, t ∈ front ++ [active] := fun t member => List.mem_append_left _ member
  have offset : (after.stores .log).offset = (p.world.stores .log).offset := by
    rw [removed .log]
    rfl
  obtain ⟨kept, inside, ⟨mtime, found⟩, whole⟩ := intact.new
  refine ⟨⟨layout.dropHead removed, ?_, ?_, ?_⟩, ?_, ⟨kept, inside, ⟨mtime, ?_⟩, whole⟩, ?_⟩
  · exact forall₂_congr_of_mem (List.forall₂_cons.mp intact.readable.old).2
      fun t member => by rw [← same t (before t member)]; rfl
  · exact intact.readable.new.congr (by rw [← same active (by simp)]; rfl)
  · show active.logSize ≤ (after.stores .log).offset active.logFile.fd
    rw [offset]
    exact intact.readable.reach
  · exact forall₂_filed_congr (List.forall₂_cons.mp intact.old).2
      fun t member => same t (before t member)
  · show (after.stores .log).lookup active.baseOffset = _
    rw [same active (by simp), found]
  · show (after.stores .log).offset active.logFile.fd = active.logSize
    rw [offset]
    exact intact.offset

structure Shortened (p p' : Partition) (front : List Segment) (active : Segment)
    (old : List (List Bytes)) (new : List Bytes) : Prop where
  rest : ∃ front' old', front' <:+ front ∧ old' <:+ old ∧ Intact p' front' active old' new
  logStart : p'.log.logStart = p.log.logStart
  journal : p'.journal = p.journal

theorem HeadDeleted.shortens {cutoff : Int} {l l' : LiveLog} (deleted : HeadDeleted cutoff l l')
    (intact : Intact l.partition front active old new) :
    Shortened l.partition l'.partition front active old new := by
  obtain ⟨seg, next, rest, shape, -, shape', removed⟩ := deleted.head
  have segments := intact.readable.layout.segments
  cases front with
  | nil => simp [LiveLog.segments, segments] at shape
  | cons first others =>
    obtain ⟨group, old', -, -, rfl⟩ := List.forall₂_cons_left_iff.mp intact.old
    obtain ⟨rfl, tail⟩ : first = seg ∧ others ++ [active] = next :: rest := by
      simpa [LiveLog.segments, segments] using shape
    refine ⟨⟨others, old', List.suffix_cons _ _, List.suffix_cons _ _, ?_⟩, deleted.logStart,
      deleted.journal⟩
    rw [deleted.partition_eq, shape', ← tail]
    exact intact.dropHead removed

theorem Deletions.shortens {cutoff : Int} {l l' : LiveLog} (deletions : Deletions cutoff l l')
    (intact : Intact l.partition front active old new) :
    Shortened l.partition l'.partition front active old new := by
  induction deletions with
  | refl => exact ⟨⟨front, old, List.suffix_rfl, List.suffix_rfl, intact⟩, rfl, rfl⟩
  | tail _ deleted ih =>
    obtain ⟨⟨front', old', fewer, fewer', intact'⟩, logStart, journal⟩ := ih
    obtain ⟨⟨front'', old'', less, less', intact''⟩, logStart', journal'⟩ := deleted.shortens intact'
    exact ⟨⟨front'', old'', less.trans fewer, less'.trans fewer', intact''⟩,
      logStart'.trans logStart, journal'.trans journal⟩

theorem Layout.head_le (layout : Layout p front active) {front' : List Segment}
    (fewer : front' <:+ front) {start : Int}
    (first : p.log.segments.head?.map Segment.baseOffset = some start) :
    ∃ s, (front' ++ [active]).head? = some s ∧ start ≤ s.baseOffset := by
  obtain ⟨gone, rfl⟩ := fewer
  obtain ⟨s, isFirst⟩ : ∃ s, (front' ++ [active]).head? = some s := by
    cases front' <;> exact ⟨_, rfl⟩
  refine ⟨s, isFirst, ?_⟩
  cases gone with
  | nil =>
    rw [layout.segments, List.nil_append, isFirst] at first
    exact (Option.some.inj first).ge
  | cons head others =>
    have ascending := layout.ascending
    rw [layout.segments, List.cons_append, List.cons_append] at ascending first
    obtain rfl : head.baseOffset = start := Option.some.inj first
    refine le_of_lt ((List.pairwise_cons.mp ascending).1 s.baseOffset (List.mem_map_of_mem ?_))
    rw [List.append_assoc]
    exact List.mem_append_right _ (List.mem_of_mem_head? isFirst)

structure Advances (p p' : Partition) : Prop where
  retained : Retained p'
  highWatermark : p'.log.highWatermark = p.log.highWatermark
  logStart : p.log.logStart ≤ p'.log.logStart
  journal : p'.journal = p.journal

theorem deleteSegmentsBefore_advances (cutoff : Int) (l : LiveLog) (handles : l.headClosed = false)
    (quiet : l.partition.world.Quiet) (retained : Retained l.partition) :
    Yields (LiveLog.deleteSegmentsBefore cutoff) l
      (fun _ l' => l'.headClosed = false ∧ Advances l.partition l'.partition) fun _ _ => False := by
  obtain ⟨front, active, old, new, intact⟩ := retained.intact
  have layout := intact.readable.layout
  simp only [LiveLog.deleteSegmentsBefore, yields_bind, yields_get, yields_modify, yields_pure]
  refine (deleteLoop_quiet cutoff l quiet).mono (fun _ l' deleted => ?_)
    fun _ _ impossible => impossible
  obtain ⟨deletions, -⟩ := deleted
  have handles' := Deletions.handles deletions handles
  have shortened := Deletions.shortens deletions intact
  obtain ⟨front', old', fewer, -, intact'⟩ := shortened.rest
  have layout' := intact'.readable.layout
  obtain ⟨s, isFirst, later⟩ := layout.head_le fewer retained.start
  have first : l'.segments.head? = some s := by
    rw [LiveLog.segments, layout'.segments, isFirst]
  rw [LiveLog.setLogStart, first]
  refine ⟨handles', ⟨⟨front', active, old', new, ?_⟩, congrArg (Option.map _) first⟩, ?_, later,
    shortened.journal⟩
  · exact { intact' with readable := { intact'.readable with layout := { layout' with } } }
  · exact layout'.highWatermark.trans layout.highWatermark.symm

end Deleting

section Fetching

variable {world : World} {s : Segment} {batches front tail : List Bytes} {bytes : Bytes}

def Whole (batches : List Bytes) (bytes : Bytes) : Prop :=
  ∃ kept, kept <:+: batches ∧ bytes = kept.flatten

theorem Whole.nil (batches : List Bytes) : Whole batches [] :=
  ⟨[], List.nil_infix, rfl⟩

theorem Whole.trimmed (valid : ∀ batch ∈ tail, IsBatch batch) (limit : Nat) :
    Whole (front ++ tail) (trimToBatchBoundary (tail.flatten.take limit)) :=
  ⟨Framing.fitting tail limit,
    (Framing.fitting_prefix tail limit).isInfix.trans (List.suffix_append _ _).isInfix,
    trimToBatchBoundary_take tail limit valid⟩

theorem IsBatch.parsed_front {batch : Bytes} (whole : IsBatch batch) {rest : Bytes} {limit : Nat}
    {hdr : BatchHeader} (parsed : parseBatchHeader ((batch ++ rest).take limit) = (hdr, none)) :
    hdr.totalSize = batch.length := by
  obtain ⟨ok, rfl⟩ := (parse_ok_iff _ hdr).mp parsed
  have enough : 61 ≤ limit := by
    have long := ok.long
    rw [List.length_take] at long
    omega
  rw [(Prod.mk.inj (parsed.symm.trans (whole.parse_front rest limit enough))).1, whole.totalSize]

theorem readAt_exact (data : (world.stores .log).data s.logFile.key = (front ++ tail).flatten)
    (size : s.logSize = (front ++ tail).flatten.length)
    (read : s.readAt world (s.logSize - tail.flatten.length) maxBytes = .ok bytes) :
    ∃ n : Nat, (n = maxBytes.toNat ∨ n = tail.flatten.length) ∧ bytes = tail.flatten.take n := by
  rw [List.flatten_append, List.length_append] at size
  have position : s.logSize - tail.flatten.length = front.flatten.length := by omega
  have reaches : ((world.stores .log).data s.logFile.key).drop front.flatten.length =
      tail.flatten := by
    rw [data, List.flatten_append, List.drop_left]
  rw [Segment.readAt, position, reaches] at read
  split at read
  · next past =>
      cases read
      have empty : tail.flatten = [] := List.eq_nil_of_length_eq_zero (by omega)
      exact ⟨tail.flatten.length, .inr rfl, by rw [empty]; rfl⟩
  · dsimp only at read
    split at read
    · split at read
      · cases read
      · cases read
        refine ⟨_, .inr rfl, ?_⟩
        congr 1
        omega
    · split at read
      · cases read
      · cases read
        exact ⟨_, .inl rfl, rfl⟩

theorem fetchFirstBatch_whole {batch : Bytes} {rest : List Bytes}
    (data : (world.stores .log).data s.logFile.key = (front ++ batch :: rest).flatten)
    (size : s.logSize = (front ++ batch :: rest).flatten.length) (whole : IsBatch batch)
    {limit : Nat}
    (fetched : fetchFirstBatch world s (s.logSize - (batch :: rest).flatten.length) offset
      ((batch :: rest).flatten.take limit) = .ok (bytes, first)) :
    Whole (front ++ batch :: rest) bytes := by
  rw [fetchFirstBatch] at fetched
  split at fetched
  · cases fetched
  · next hdr parsed =>
      have total := whole.parsed_front parsed
      split at fetched
      · cases fetched
      · next full read =>
          obtain ⟨n, limited, rfl⟩ := readAt_exact data size read
          split at fetched
          · cases fetched
            exact .nil _
          · cases fetched
            have after : batch :: rest <:+: front ++ batch :: rest := (List.suffix_append _ _).isInfix
            rw [total, Int.toNat_natCast] at limited
            rcases limited with rfl | rfl
            · refine ⟨[batch], (List.prefix_append [batch] rest).isInfix.trans after, ?_⟩
              rw [List.flatten_cons, List.take_left, List.flatten_singleton]
            · exact ⟨batch :: rest, after, List.take_length⟩

theorem Holds.fetchSegment_whole (holds : Holds (world.stores .log) s batches) (keyed : s.Keyed)
    (positive : 0 ≤ s.baseOffset) (bounded : s.nextOffset < 2 ^ 63)
    (complete : (world.stores .log).data s.baseOffset = batches.flatten)
    (low : s.baseOffset ≤ offset) (high : offset < s.nextOffset)
    (fetched : Storage.fetchSegment world s offset maxBytes = .ok (bytes, first)) :
    Whole batches bytes := by
  obtain ⟨front, batch, rest, -, rfl, found, -⟩ := fromOffset_cons holds.tiles low high
  have data : (world.stores .log).data s.logFile.key = (front ++ batch :: rest).flatten := by
    rw [keyed.log, complete]
  have valid : ∀ b ∈ batch :: rest, IsBatch b := fun b member =>
    holds.tiles.isBatch b (List.mem_append_right _ member)
  rw [Storage.fetchSegment, holds.findBatchAt keyed positive bounded offset low high, found] at fetched
  dsimp only at fetched
  split at fetched
  · cases fetched
  · next buf read =>
      obtain ⟨n, -, rfl⟩ := readAt_exact data holds.size read
      split at fetched
      · cases fetched
        exact .nil _
      · split at fetched
        · exact fetchFirstBatch_whole data holds.size (valid batch List.mem_cons_self) fetched
        · cases fetched
          exact Whole.trimmed valid n

theorem findSegmentLocked_inside {l : Log} (found : l.findSegmentLocked offset = some s) :
    (∃ first, l.segments.head? = some first ∧ first.baseOffset ≤ offset) ∧
      offset < l.highWatermark := by
  rw [Log.findSegmentLocked] at found
  split at found
  · cases found
  · next first isFirst =>
      split at found
      · cases found
      · next below =>
          split at found
          · cases found
          · next above => exact ⟨⟨first, isFirst, not_lt.mp below⟩, not_le.mp above⟩

variable {p : Partition} {segments : List Segment} {active : Segment} {old : List (List Bytes)}
  {new : List Bytes}

theorem Intact.complete (intact : Intact p segments active old new) :
    List.Forall₂ (fun s batches => Holds (p.world.stores .log) s batches ∧
      (p.world.stores .log).data s.baseOffset = batches.flatten) (segments ++ [active])
      (old ++ [new]) := by
  have exact' {t : Segment} {group : List Bytes} {synced : Bytes}
      (filed : Filed (p.world.stores .log) t group.flatten synced) :
      (p.world.stores .log).data t.baseOffset = group.flatten := by
    obtain ⟨mtime, found⟩ := filed
    exact Store.data_of_lookup _ _ _ found
  obtain ⟨kept, -, filed, -⟩ := intact.new
  refine List.rel_append ?_ (.cons ⟨intact.readable.new, exact' filed⟩ .nil)
  exact List.Forall₂.mp (fun _ _ holds filed => ⟨holds, exact' filed⟩) intact.readable.old intact.old

theorem Intact.fetchAt_whole (intact : Intact p segments active old new)
    (fetched : fetchAt p.log p.world offset maxBytes = .ok (bytes, first)) :
    Whole (old ++ [new]).flatten bytes := by
  have layout := intact.readable.layout
  rw [fetchAt] at fetched
  split at fetched
  · cases fetched
    exact .nil _
  · split at fetched
    · split at fetched
      · cases fetched
        exact .nil _
      · cases fetched
    · next seg found =>
        obtain ⟨⟨head, isHead, below⟩, above⟩ := findSegmentLocked_inside found
        rw [layout.segments] at isHead
        obtain ⟨before, s, after, shape, low, high, others⟩ :=
          Storage.locate offset (segments ++ [active]) layout.linked layout.ordered
            (fun t isFirst => by
              rw [isHead] at isFirst
              exact Option.some.inj isFirst ▸ below)
            ⟨active, by simp, layout.highWatermark ▸ above⟩
        rw [layout.findSegmentLocked offset before after s shape low others above] at found
        obtain rfl := Option.some.inj found
        have member : s ∈ segments ++ [active] := by simp [shape]
        obtain ⟨early, group, late, groups, -, ⟨holds, complete⟩, -⟩ :=
          forall₂_split before after s _ (shape ▸ intact.complete)
        obtain ⟨kept, inside, same⟩ := holds.fetchSegment_whole (layout.keyed s member)
          (layout.positive s member) (layout.next_bounded s member) complete low high fetched
        refine ⟨kept, inside.trans ⟨early.flatten, late.flatten, ?_⟩, same⟩
        rw [groups, List.flatten_append, List.flatten_cons, List.append_assoc]

/-- Every batch that a fetch returns lies between the log start and the high watermark. -/
theorem Retained.fetchAt_inside (retained : Retained p)
    (fetched : fetchAt p.log p.world offset maxBytes = .ok (bytes, first)) :
    ∃ kept : List Bytes, bytes = kept.flatten ∧ ∀ batch ∈ kept, ∃ base, StoredAt base batch ∧
      p.log.logStart ≤ base ∧ base + offsetCount batch ≤ p.log.highWatermark := by
  obtain ⟨front, active, old, new, intact⟩ := retained.intact
  obtain ⟨kept, inside, same⟩ := intact.fetchAt_whole fetched
  refine ⟨kept, same, fun batch member => ?_⟩
  obtain ⟨base, low, high, stored⟩ := (intact.tiles retained.start).mem batch (inside.subset member)
  exact ⟨base, stored, low, high⟩

end Fetching

end KafkaWire.Storage
