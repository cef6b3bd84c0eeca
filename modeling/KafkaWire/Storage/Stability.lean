import KafkaWire.Storage.Readable

/-! Effects that store nothing do not change what a reader sees. -/

namespace KafkaWire.Storage

open Bytes Files Programs Related

variable {world after : World}

theorem emptySegment_holds (cfg : Config) (base : Int) (logFd idxFd tixFd : Nat) (createdAt : Int)
    (added : HandleAdded base world after) :
    Holds (after.stores .log) (emptySegment (segmentOpts cfg base) logFd idxFd tixFd createdAt) [] := by
  obtain ⟨now, log⟩ := added
  have created : (after.stores .log).lookup base =
      some (((world.stores .log).lookup base).getD ⟨[], [], now⟩) := by
    rw [log, Store.lookup_openFile, if_pos rfl]
  exact ⟨rfl, rfl, ⟨_, created, List.nil_prefix⟩, by simp [IndexOk, emptySegment]⟩

section Silence

variable {p : Partition} {front : List Segment} {active : Segment} {old : List (List Bytes)}
  {new : List Bytes} (readable : Readable p front active old new)

include readable

theorem Readable.idle (same : after.stores = p.world.stores) :
    Readable { p with world := after } front active old new :=
  readable.withWorld (readable.layout.idle same) (fun s _ => by rw [same]) (by rw [same])

theorem Readable.synced (synced : Synced active p.world after) :
    Readable { p with world := after } front active old new :=
  readable.withWorld (readable.layout.synced synced) (fun s _ => synced.contents .log s.baseOffset)
    (by rw [synced.log, Store.offset_sync])

theorem Readable.opening (isSealed : active.sealed = true)
    (ahead : active.nextOffset ≠ active.baseOffset)
    (opening : Opening active.nextOffset p.world after)
    (handles : after.stores .log = p.world.stores .log ∨
      HandleAdded active.nextOffset p.world after) :
    Readable { p with world := after } front active old new := by
  refine readable.withWorld (readable.layout.opening isSealed opening handles) ?_ ?_
  · intro s member
    rw [readable.layout.opening_lookup ahead opening .log s member]
  · rcases handles with same | added
    · rw [same]
    · exact added.offset _ readable.layout.handle

theorem Readable.tore {batch : Bytes} (tore : Tore active batch p.world after) :
    Readable { p with world := after } front active old new := by
  have keyed := readable.layout.active_keyed
  obtain ⟨file, found, inside⟩ := readable.new.file
  obtain ⟨count, -, shape⟩ := id tore
  have log : after.stores .log = (p.world.stores .log).write active.logFile (batch.take count)
      p.world.next.now := by
    rw [shape]
    simp
  refine ⟨readable.layout.tore tore, ?_, ⟨readable.new.tiles, readable.new.size, ?_,
    readable.new.index⟩, ?_⟩
  · apply forall₂_congr_of_mem readable.old
    intro s member
    rw [tore.other keyed .log s.baseOffset (ne_of_lt (readable.layout.base_lt s member))]
  · have rewritten : (after.stores .log).lookup active.baseOffset = some { file with
        data := Store.overwrite file.data ((p.world.stores .log).offset active.logFile.fd)
          (batch.take count)
        mtime := p.world.next.now } := by
      rw [log, Store.lookup_write, keyed.log, if_pos rfl, found]
      rfl
    exact ⟨_, rewritten, overwrite_keeps _ _ _ _ inside (readable.new.size ▸ readable.reach)⟩
  · show active.logSize ≤ (after.stores .log).offset active.logFile.fd
    rw [log, Store.offset_write, if_pos rfl]
    exact le_trans readable.reach (Nat.le_add_right _ _)

theorem Readable.closed (synced : Synced active p.world after) :
    Readable { p with log := p.log.setActive { active with sealed := true }, world := after } front
      { active with sealed := true } old new := by
  have still := readable.synced synced
  exact ⟨readable.layout.closed synced, still.old,
    ⟨still.new.tiles, still.new.size, still.new.file, still.new.index⟩, still.reach⟩

theorem Readable.rolled (cfg : Config) (idxFd tixFd : Nat) (createdAt : Int)
    (isSealed : active.sealed = true) (ahead : active.nextOffset ≠ active.baseOffset)
    (opening : Opening active.nextOffset p.world after)
    (added : HandleAdded active.nextOffset p.world after) :
    let seg := emptySegment (segmentOpts cfg active.nextOffset) (p.world.stores .log).nextFd
      idxFd tixFd createdAt
    Readable { p with log := { p.log with segments := p.log.segments ++ [seg] }, world := after }
      (front ++ [active]) seg (old ++ [new]) [] := by
  intro seg
  have still := readable.opening isSealed ahead opening (.inr added)
  exact ⟨readable.layout.rolled cfg idxFd tixFd createdAt isSealed ahead opening added,
    still.held, emptySegment_holds cfg _ _ idxFd tixFd createdAt added, Nat.zero_le _⟩

end Silence

section Unseen

structure Alike (s s' : Segment) : Prop where
  base : s'.baseOffset = s.baseOffset
  next : s'.nextOffset = s.nextOffset
  size : s'.logSize = s.logSize

theorem Alike.refl (s : Segment) : Alike s s := ⟨rfl, rfl, rfl⟩

theorem fetchSegment_congr {world' : World} {s s' : Segment} {group : List Bytes}
    (holds : Holds (world.stores .log) s group) (holds' : Holds (world'.stores .log) s' group)
    (keyed : s.Keyed) (keyed' : s'.Keyed) (alike : Alike s s') (positive : 0 ≤ s.baseOffset)
    (bounded : s.nextOffset < 2 ^ 63) (small : s.logSize < 2 ^ 62) (offset maxBytes : Int)
    (low : s.baseOffset ≤ offset) (high : offset < s.nextOffset) :
    fetchSegment world' s' offset maxBytes = fetchSegment world s offset maxBytes := by
  obtain ⟨front, shape⟩ := fromOffset_suffix s.baseOffset group offset
  have located := holds.findBatchAt keyed positive bounded offset low high
  have located' := holds'.findBatchAt keyed' (alike.base ▸ positive) (alike.next ▸ bounded) offset
    (alike.base ▸ low) (alike.next ▸ high)
  rw [alike.base, alike.size] at located'
  have read (size : Int) :
      s'.readAt world' (s.logSize - (fromOffset s.baseOffset group offset).flatten.length) size =
        s.readAt world (s.logSize - (fromOffset s.baseOffset group offset).flatten.length) size := by
    have first := (holds.laid keyed shape.symm).readAt_tail small size
    have second := (holds'.laid keyed' shape.symm).readAt_tail (alike.size ▸ small) size
    rw [alike.size] at second
    rw [first, second]
  unfold fetchSegment fetchFirstBatch
  rw [located, located']
  simp only [read]

variable {p p' : Partition} {front front' : List Segment} {active active' : Segment}
  {old old' : List (List Bytes)} {new new' : List Bytes}

theorem findSegmentLocked_beyond (l : Log) (offset : Int) (beyond : l.highWatermark ≤ offset) :
    l.findSegmentLocked offset = none := by
  unfold Log.findSegmentLocked
  split
  · rfl
  · split
    · rfl
    · rfl

theorem findSegmentLocked_before (l : Log) (offset : Int) (s : Segment)
    (first : l.segments.head? = some s) (below : offset < s.baseOffset) :
    l.findSegmentLocked offset = none := by
  rw [Log.findSegmentLocked, first]
  dsimp only
  rw [if_pos below]

structure Twins (world world' : World) (s s' : Segment) : Prop where
  alike : Alike s s'
  held : ∃ group, Holds (world.stores .log) s group ∧ Holds (world'.stores .log) s' group

theorem twins_of_held {world' : World} {segments kept : List Segment}
    {groups : List (List Bytes)} (held : List.Forall₂ (Holds (world.stores .log)) segments groups)
    (held' : List.Forall₂ (Holds (world'.stores .log)) kept groups)
    (alike : List.Forall₂ Alike segments kept) :
    List.Forall₂ (Twins world world') segments kept := by
  induction held generalizing kept with
  | nil =>
    cases alike
    exact .nil
  | cons holds _ ih =>
    cases alike with
    | cons same alike =>
      cases held' with
      | cons holds' held' => exact .cons ⟨same, _, holds, holds'⟩ (ih held' alike)

/-- What a reader sees depends on the batches and on where the segments begin, up to
segments at the very end that have nothing in them. -/
theorem fetchAt_eq_of_twins (layout : Layout p front active) (layout' : Layout p' front' active')
    (kept extra : List Segment) (segments : front' ++ [active'] = kept ++ extra)
    (twins : List.Forall₂ (Twins p.world p'.world) (front ++ [active]) kept)
    (same : p'.log.highWatermark = p.log.highWatermark)
    (atEnd : ∀ s ∈ extra, s.baseOffset = p.log.highWatermark)
    (small : ∀ s ∈ front ++ [active], s.logSize < 2 ^ 62) (offset maxBytes : Int) :
    fetchAt p'.log p'.world offset maxBytes = fetchAt p.log p.world offset maxBytes := by
  unfold fetchAt
  rw [if_neg (show ¬ p'.log.segments.isEmpty = true by simp [layout'.segments]),
    if_neg (show ¬ p.log.segments.isEmpty = true by simp [layout.segments]), same]
  by_cases high : offset < p.log.highWatermark
  · obtain ⟨first, rest, shape⟩ := List.exists_cons_of_ne_nil
      (show front ++ [active] ≠ [] by simp)
    obtain ⟨first', rest', twinsFirst, -, shape'⟩ :=
      List.forall₂_cons_left_iff.mp (shape ▸ twins)
    by_cases low : first.baseOffset ≤ offset
    · obtain ⟨before, s, after, split, below, above, later⟩ :=
        locate offset (front ++ [active]) layout.linked layout.ordered
          (fun t isHead => by
            rw [shape, List.head?_cons, Option.mem_def, Option.some.injEq] at isHead
            exact isHead ▸ low)
          ⟨active, by simp, layout.highWatermark ▸ high⟩
      obtain ⟨before', s', after', split', -, twinsHere, twinsLater⟩ :=
        forall₂_split before after s kept (split ▸ twins)
      obtain ⟨alike, group, holds, holds'⟩ := twinsHere
      have member : s ∈ front ++ [active] := by
        rw [split]
        simp
      have member' : s' ∈ front' ++ [active'] := by
        rw [segments, split']
        simp
      have found := layout.findSegmentLocked offset before after s split below later high
      have found' := layout'.findSegmentLocked offset before' (after' ++ extra) s'
        (by rw [segments, split', List.append_assoc, List.cons_append]) (alike.base ▸ below)
        (by
          intro t isLater
          rcases List.mem_append.mp isLater with inside | isExtra
          · obtain ⟨u, isAfter, twin⟩ := forall₂_mem_right twinsLater t inside
            exact twin.alike.base ▸ later u isAfter
          · rw [atEnd t isExtra]
            exact high)
        (same ▸ high)
      rw [found, found']
      exact fetchSegment_congr holds holds' (layout.keyed s member) (layout'.keyed s' member') alike
        (layout.positive s member) (layout.next_bounded s member) (small s member) offset maxBytes
        below above
    · rw [findSegmentLocked_before p.log offset first (by rw [layout.segments, shape]; rfl)
          (not_le.mp low),
        findSegmentLocked_before p'.log offset first'
          (by rw [layout'.segments, segments, shape']; rfl)
          (twinsFirst.alike.base ▸ not_le.mp low)]
  · rw [findSegmentLocked_beyond _ _ (not_lt.mp high),
      findSegmentLocked_beyond _ _ (same ▸ not_lt.mp high)]

structure SameView (p p' : Partition) (stored : List Bytes) : Prop where
  readable : ∃ front active old new, Readable p' front active old new ∧
    (old ++ [new]).flatten = stored ∧ ∀ s ∈ front ++ [active], s.logSize < 2 ^ 62
  fetched : ∀ offset maxBytes, fetchAt p'.log p'.world offset maxBytes =
    fetchAt p.log p.world offset maxBytes

theorem alike_refl (segments : List Segment) : List.Forall₂ Alike segments segments :=
  List.forall₂_same.mpr fun s _ => Alike.refl s

theorem SameView.of_world (readable : Readable p front active old new)
    (readable' : Readable { p with world := after } front active old new)
    (small : ∀ s ∈ front ++ [active], s.logSize < 2 ^ 62) :
    SameView p { p with world := after } (old ++ [new]).flatten where
  readable := ⟨front, active, old, new, readable', rfl, small⟩
  fetched := fetchAt_eq_of_twins readable.layout readable'.layout (front ++ [active]) [] (by simp)
    (twins_of_held readable.held readable'.held (alike_refl _)) rfl (by simp) small

theorem Effect.sameView {tearing : Prop} (effect : Effect (fun _ => False) tearing p p')
    (readable : Readable p front active old new)
    (small : ∀ s ∈ front ++ [active], s.logSize < 2 ^ 62) :
    SameView p p' (old ++ [new]).flatten := by
  have layout := readable.layout
  cases effect with
  | idle later same => exact .of_world readable (readable.idle same) small
  | tore segments tore allowed =>
    obtain ⟨rfl, rfl⟩ := segments_unique layout.segments segments
    exact .of_world readable (readable.tore tore) small
  | stored segments member => exact member.elim
  | synced segments later synced =>
    obtain ⟨rfl, rfl⟩ := segments_unique layout.segments segments
    exact .of_world readable (readable.synced synced) small
  | opening segments isSealed ahead opening handles =>
    obtain ⟨rfl, rfl⟩ := segments_unique layout.segments segments
    exact .of_world readable (readable.opening isSealed ahead opening handles) small
  | closed segments later synced =>
    obtain ⟨rfl, rfl⟩ := segments_unique layout.segments segments
    have readable' := readable.closed synced
    have alike : List.Forall₂ Alike (front ++ [active]) (front ++ [{ active with sealed := true }]) :=
      List.rel_append (alike_refl front) (.cons ⟨rfl, rfl, rfl⟩ .nil)
    refine ⟨⟨_, _, _, _, readable', rfl, ?_⟩, ?_⟩
    · intro s member
      rcases List.mem_append.mp member with isOld | isLast
      · exact small s (List.mem_append_left _ isOld)
      · rw [List.mem_singleton.mp isLast]
        exact small active (by simp)
    · exact fetchAt_eq_of_twins layout readable'.layout _ [] (by simp)
        (twins_of_held readable.held readable'.held alike)
        (by rw [readable'.layout.highWatermark, layout.highWatermark]) (by simp) small
  | rolled idxFd tixFd createdAt segments isSealed ahead opening added =>
    obtain ⟨rfl, rfl⟩ := segments_unique layout.segments segments
    have readable' := readable.rolled p.log.cfg idxFd tixFd createdAt isSealed ahead opening added
    refine ⟨⟨_, _, _, _, readable', by simp, ?_⟩, ?_⟩
    · intro s member
      rcases List.mem_append.mp member with isOld | isNew
      · exact small s isOld
      · rw [List.mem_singleton.mp isNew]
        exact show (0 : Nat) < 2 ^ 62 by decide
    · have still := readable.opening isSealed ahead opening (.inr added)
      exact fetchAt_eq_of_twins layout readable'.layout (front ++ [active]) [_] rfl
        (twins_of_held readable.held still.held (alike_refl _))
        (by rw [readable'.layout.highWatermark, layout.highWatermark]; rfl)
        (by
          intro s member
          rw [List.mem_singleton.mp member, layout.highWatermark]
          rfl)
        small

theorem Silent.sameView {tearing : Prop} (silent : Silent tearing p p')
    (readable : Readable p front active old new)
    (small : ∀ s ∈ front ++ [active], s.logSize < 2 ^ 62) :
    SameView p p' (old ++ [new]).flatten := by
  induction silent with
  | refl => exact ⟨⟨front, active, old, new, readable, rfl, small⟩, fun _ _ => rfl⟩
  | tail _ effect ih =>
    obtain ⟨⟨_, _, _, _, readable', stored, small'⟩, fetched⟩ := ih
    obtain ⟨⟨_, _, _, _, readable'', stored', small''⟩, fetched'⟩ :=
      effect.sameView readable' small'
    exact ⟨⟨_, _, _, _, readable'', stored'.trans stored, small''⟩,
      fun offset maxBytes => (fetched' offset maxBytes).trans (fetched offset maxBytes)⟩

end Unseen

end KafkaWire.Storage
