import KafkaWire.Lib.Related
import KafkaWire.Storage.Reading

/-! Reading a whole log. The offsets from the first segment to the high watermark are
tiled by the batches of the segments, and a fetch returns batches from the one that has
the requested offset on. -/

namespace KafkaWire.Storage

open Bytes Files Programs BinarySearch Related

structure Readable (p : Partition) (front : List Segment) (active : Segment)
    (old : List (List Bytes)) (new : List Bytes) : Prop where
  layout : Layout p front active
  old : List.Forall₂ (Holds (p.world.stores .log)) front old
  new : Holds (p.world.stores .log) active new
  reach : active.logSize ≤ (p.world.stores .log).offset active.logFile.fd

section Locating

variable {p : Partition} {front : List Segment} {active : Segment}

theorem locate (offset : Int) (segments : List Segment)
    (linked : segments.IsChain fun a b => a.nextOffset = b.baseOffset)
    (ordered : segments.Pairwise fun a b => a.nextOffset ≤ b.baseOffset)
    (low : ∀ s ∈ segments.head?, s.baseOffset ≤ offset)
    (high : ∃ s ∈ segments.getLast?, offset < s.nextOffset) :
    ∃ before s after, segments = before ++ s :: after ∧ s.baseOffset ≤ offset ∧
      offset < s.nextOffset ∧ ∀ later ∈ after, offset < later.baseOffset := by
  induction segments with
  | nil => simp at high
  | cons s rest ih =>
    rw [List.pairwise_cons] at ordered
    by_cases here : offset < s.nextOffset
    · refine ⟨[], s, rest, rfl, low s (by simp), here, ?_⟩
      intro later member
      have := ordered.1 later member
      omega
    · cases rest with
      | nil =>
        obtain ⟨last, isLast, inside⟩ := high
        simp only [List.getLast?_singleton, Option.mem_def, Option.some.injEq] at isLast
        rw [← isLast] at inside
        exact absurd inside here
      | cons second others =>
        rw [List.isChain_cons_cons] at linked
        obtain ⟨before, found, after, shape, low', high', later⟩ := ih linked.2 ordered.2
          (by
            intro t isFirst
            simp only [List.head?_cons, Option.mem_def, Option.some.injEq] at isFirst
            rw [← isFirst, ← linked.1]
            exact not_lt.mp here)
          (by simpa [List.getLast?_cons_cons] using high)
        exact ⟨s :: before, found, after, by rw [shape, List.cons_append], low', high', later⟩

theorem Layout.next_bounded (layout : Layout p front active) (s : Segment)
    (member : s ∈ front ++ [active]) : s.nextOffset < 2 ^ 63 := by
  rcases List.mem_append.mp member with isOld | isLast
  · have before := layout.before_active s isOld
    have upward := layout.upward
    have bounded := layout.bounded
    omega
  · rw [List.mem_singleton.mp isLast]
    exact layout.bounded

theorem findSegmentLocked_some {l : Log} {offset : Int} {first : Segment}
    (isFirst : l.segments.head? = some first) (low : first.baseOffset ≤ offset)
    (high : offset < l.highWatermark) : ∃ s, l.findSegmentLocked offset = some s := by
  rw [Log.findSegmentLocked, isFirst]
  dsimp only
  rw [if_neg (not_lt.mpr low), if_neg (not_le.mpr high)]
  have inside := (BinarySearch.search_below l.segments.length (l.startsPast offset)).1
  split
  · exact ⟨first, rfl⟩
  · refine ⟨_, List.getElem?_eq_getElem (?_ : _ < l.segments.length)⟩
    omega

theorem findSegmentLocked_eq (l : Log) (offset : Int) (before after : List Segment) (s : Segment)
    (segments : l.segments = before ++ s :: after) (earlier : ∀ t ∈ before, t.baseOffset ≤ offset)
    (low : s.baseOffset ≤ offset) (later : ∀ t ∈ after, offset < t.baseOffset)
    (high : offset < l.highWatermark) : l.findSegmentLocked offset = some s := by
  have boundary : Boundary l.segments.length (l.startsPast offset) (before.length + 1) := by
    refine ⟨by simp [segments], ?_, ?_⟩
    · intro i small
      rw [Log.startsPast, segments]
      by_cases inside : i < before.length
      · rw [List.getElem?_append_left inside, List.getElem?_eq_getElem inside]
        simpa using earlier _ (List.getElem_mem inside)
      · obtain rfl : i = before.length := by omega
        rw [List.getElem?_append_right (Nat.le_refl _), Nat.sub_self]
        simpa using low
    · intro i large inside
      rw [Log.startsPast, segments, List.getElem?_append_right (by omega)]
      obtain ⟨k, same⟩ : ∃ k, i - before.length = k + 1 := ⟨i - before.length - 1, by omega⟩
      rw [same, List.getElem?_cons_succ]
      cases found : after[k]? with
      | none => rfl
      | some t => simpa using later t (List.mem_of_getElem? found)
  have first : ∃ t, l.segments.head? = some t ∧ t.baseOffset ≤ offset := by
    cases before with
    | nil => exact ⟨s, by simp [segments], low⟩
    | cons t others => exact ⟨t, by simp [segments], earlier t List.mem_cons_self⟩
  obtain ⟨t, isFirst, below⟩ := first
  rw [Log.findSegmentLocked, isFirst]
  dsimp only
  rw [if_neg (not_lt.mpr below), if_neg (not_le.mpr high), search_eq _ _ _ boundary,
    if_neg (by omega), segments]
  simp

theorem Layout.findSegmentLocked (layout : Layout p front active) (offset : Int)
    (before after : List Segment) (s : Segment) (shape : front ++ [active] = before ++ s :: after)
    (low : s.baseOffset ≤ offset) (later : ∀ t ∈ after, offset < t.baseOffset)
    (high : offset < p.log.highWatermark) : p.log.findSegmentLocked offset = some s := by
  refine findSegmentLocked_eq p.log offset before after s (layout.segments.trans shape) ?_ low later
    high
  intro t member
  have ordered := layout.ordered
  rw [shape, List.pairwise_append] at ordered
  have upward := layout.base_le_next t (by rw [shape]; exact List.mem_append_left _ member)
  exact le_trans (le_trans upward (ordered.2.2 t member s List.mem_cons_self)) low

end Locating

section Reading

variable {store : Store Int}

theorem fromOffset_append_right {base next : Int} {batches : List Bytes} (more : List Bytes)
    {target : Int} (tiles : Tiles base batches next) (low : base ≤ target) (high : target < next) :
    fromOffset base (batches ++ more) target = fromOffset base batches target ++ more := by
  induction batches generalizing base with
  | nil =>
    have same : base = next := tiles
    omega
  | cons batch rest ih =>
    rw [List.cons_append, fromOffset, fromOffset]
    split
    · rfl
    · next past => exact ih tiles.2 (not_lt.mp past)

theorem tiles_flatten {segments : List Segment} {groups : List (List Bytes)} (start finish : Int)
    (held : List.Forall₂ (Holds store) segments groups)
    (linked : segments.IsChain fun a b => a.nextOffset = b.baseOffset)
    (first : ∀ s ∈ segments.head?, s.baseOffset = start)
    (last : ∀ s ∈ segments.getLast?, s.nextOffset = finish) (nonempty : segments ≠ []) :
    Tiles start groups.flatten finish := by
  induction held generalizing start with
  | nil => exact absurd rfl nonempty
  | @cons s group rest others holds held ih =>
    have begins := first s (by simp)
    rw [List.flatten_cons, Tiles.append_iff]
    refine ⟨s.nextOffset, begins ▸ holds.tiles, ?_⟩
    cases held with
    | nil => exact last s (by simp)
    | @cons second group' rest' others' holds' held' =>
      rw [List.isChain_cons_cons] at linked
      refine ih s.nextOffset linked.2 ?_ ?_ (by simp)
      · intro t isFirst
        simp only [List.head?_cons, Option.mem_def, Option.some.injEq] at isFirst
        rw [← isFirst, linked.1]
      · intro t isLast
        exact last t (by simpa [List.getLast?_cons_cons] using isLast)

end Reading

section Fetching

variable {p : Partition} {front : List Segment} {active : Segment} {old : List (List Bytes)}
  {new : List Bytes} (readable : Readable p front active old new)

include readable

theorem Readable.held :
    List.Forall₂ (Holds (p.world.stores .log)) (front ++ [active]) (old ++ [new]) :=
  List.rel_append readable.old (.cons readable.new .nil)

theorem Readable.locate (start offset : Int)
    (first : ∀ s ∈ p.log.segments.head?, s.baseOffset = start) (low : start ≤ offset)
    (high : offset < p.log.highWatermark) :
    ∃ s group later, s ∈ front ++ [active] ∧ Holds (p.world.stores .log) s group ∧
      p.log.findSegmentLocked offset = some s ∧ s.baseOffset ≤ offset ∧ offset < s.nextOffset ∧
      fromOffset start (old ++ [new]).flatten offset =
        fromOffset s.baseOffset group offset ++ later := by
  have layout := readable.layout
  rw [layout.segments] at first
  obtain ⟨before, s, after, shape, below, above, others⟩ :=
    Storage.locate offset (front ++ [active]) layout.linked layout.ordered
      (fun s isFirst => first s isFirst ▸ low)
      ⟨active, by simp, layout.highWatermark ▸ high⟩
  have held := readable.held
  have linked := layout.linked
  rw [shape] at held linked first
  obtain ⟨early, group, late, groups, held', holds, -⟩ := forall₂_split before after s _ held
  refine ⟨s, group, late.flatten, by rw [shape]; simp, holds,
    layout.findSegmentLocked offset before after s shape below others high, below, above, ?_⟩
  rw [groups, List.flatten_append, List.flatten_cons]
  have tiled : Tiles start early.flatten s.baseOffset := by
    cases before with
    | nil =>
      cases held'
      exact (first s (by simp)).symm
    | cons t others' =>
      have chain := List.isChain_append.mp linked
      refine tiles_flatten start s.baseOffset held' chain.1 ?_ ?_ (by simp)
      · intro u isFirst
        exact first u (by simpa using isFirst)
      · intro u isLast
        exact chain.2.2 u isLast s (by simp)
  rw [fromOffset_append tiled below, fromOffset_append_right late.flatten holds.tiles below above]

/-- A fetch at an offset of the log returns whole batches, the first of which has it. -/
theorem Readable.fetchAt (start offset maxBytes : Int)
    (first : ∀ s ∈ p.log.segments.head?, s.baseOffset = start) (low : start ≤ offset)
    (high : offset < p.log.highWatermark) (small : ∀ s ∈ front ++ [active], s.logSize < 2 ^ 62)
    (least : 61 ≤ maxBytes) (most : maxBytes ≤ maxAlloc) :
    ∃ batch more later, fromOffset start (old ++ [new]).flatten offset = batch :: more ++ later ∧
      fetchAt p.log p.world offset maxBytes =
        .ok ((batch :: more).flatten, (decodeHeader batch).baseOffset) := by
  have layout := readable.layout
  obtain ⟨s, group, later, member, holds, found, below, above, same⟩ :=
    readable.locate start offset first low high
  obtain ⟨batch, rest, tail, fetched⟩ := holds.fetchSegment (layout.keyed s member)
    (layout.positive s member) (layout.next_bounded s member) (small s member) offset maxBytes
    below above least most
  obtain ⟨more, answered, cut, shape⟩ := answer_cons batch rest maxBytes.toNat
  refine ⟨batch, more, cut ++ later, ?_, ?_⟩
  · rw [same, tail, ← shape]
    simp
  · rw [Storage.fetchAt, found, if_neg (by simp [layout.segments]), ← answered]
    exact fetched

end Fetching

section Preservation

variable {p : Partition} {front : List Segment} {active : Segment} {old : List (List Bytes)}
  {new : List Bytes}

theorem forall₂_congr_of_mem {store after : Store Int} {segments : List Segment}
    {groups : List (List Bytes)} (held : List.Forall₂ (Holds store) segments groups)
    (same : ∀ s ∈ segments, (after.lookup s.baseOffset).map File.data =
      (store.lookup s.baseOffset).map File.data) :
    List.Forall₂ (Holds after) segments groups := by
  induction held with
  | nil => exact .nil
  | cons holds _ ih =>
    exact .cons (holds.congr (same _ List.mem_cons_self))
      (ih fun s member => same s (List.mem_cons_of_mem _ member))

theorem Readable.withWorld (readable : Readable p front active old new) {after : World}
    (layout : Layout { p with world := after } front active)
    (same : ∀ s ∈ front ++ [active], ((after.stores .log).lookup s.baseOffset).map File.data =
      ((p.world.stores .log).lookup s.baseOffset).map File.data)
    (offset : (after.stores .log).offset active.logFile.fd =
      (p.world.stores .log).offset active.logFile.fd) :
    Readable { p with world := after } front active old new where
  layout := layout
  old := forall₂_congr_of_mem readable.old fun s member => same s (List.mem_append_left _ member)
  new := readable.new.congr (same active (by simp))
  reach := by
    show active.logSize ≤ (after.stores .log).offset active.logFile.fd
    rw [offset]
    exact readable.reach

theorem HandleAdded.offset {base : Int} {before after : World} (added : HandleAdded base before after)
    (fd : Nat) (known : fd < (before.stores .log).nextFd) :
    (after.stores .log).offset fd = (before.stores .log).offset fd := by
  obtain ⟨now, log⟩ := added
  rw [log, Store.offset_openFile, if_neg (by omega)]

theorem Layout.opening_lookup (layout : Layout p front active)
    (ahead : active.nextOffset ≠ active.baseOffset) {after : World}
    (opening : Opening active.nextOffset p.world after) (suffix : Suffix) :
    ∀ s ∈ front ++ [active],
      (after.stores suffix).lookup s.baseOffset = (p.world.stores suffix).lookup s.baseOffset := by
  intro s member
  apply opening.other
  rcases List.mem_append.mp member with isOld | isLast
  · have below := layout.base_lt s isOld
    have upward := layout.upward
    omega
  · rw [List.mem_singleton.mp isLast]
    exact ahead.symm

theorem overwrite_keeps (bytes : Bytes) (kept data : Bytes) (position : Nat)
    (inside : kept <+: data) (behind : kept.length ≤ position) :
    kept <+: Store.overwrite data position bytes := by
  obtain ⟨rest, rfl⟩ := inside
  refine ⟨(rest.take (position - kept.length)) ++ (List.replicate (position - (kept ++ rest).length) 0 ++
    (bytes ++ (kept ++ rest).drop (position + bytes.length))), ?_⟩
  rw [Store.overwrite, List.take_append, List.take_of_length_le behind]
  simp

end Preservation

end KafkaWire.Storage
