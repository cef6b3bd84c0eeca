import KafkaWire.Storage.History
import KafkaWire.Storage.Offsets
import KafkaWire.Storage.Reopening

/-! A crash, and the restart after it. Of a log whose files are complete but for the end of
the active one, the restart recovers the batches that lie wholly inside what is left. -/

namespace KafkaWire.Storage

open Bytes Files Programs Related

variable {base next : Int} {batches : List Bytes}

theorem Tiles.valid (tiles : Tiles base batches next) :
    ∀ batch ∈ batches, IsBatch batch ∧ crcOk batch = true := by
  intro batch member
  obtain ⟨first, -, -, stored⟩ := tiles.mem batch member
  exact ⟨stored.whole, by simp [crcOk, stored.crc]⟩

theorem Tiles.endOffset (tiles : Tiles base batches next)
    (low : 0 ≤ base) : endOffset base batches = next := by
  induction batches generalizing base with
  | nil => exact tiles
  | cons batch rest ih =>
    obtain ⟨stored, tiles'⟩ := tiles
    have counted := stored.counted
    have fits := stored.fits
    have next' : int64 ((decodeHeader batch).lastOffset + 1) = base + offsetCount batch := by
      rw [stored.lastOffset low, int64_of_range _ (by omega) (by omega)]
      omega
    rw [Storage.endOffset, List.foldl_cons, next']
    exact ih tiles' (by omega)

theorem Tiles.take_prefix {kept : List Bytes}
    (tiles : Tiles base batches next) (inside : kept <+: batches) :
    ∃ middle, Tiles base kept middle ∧ middle ≤ next := by
  obtain ⟨rest, rfl⟩ := inside
  obtain ⟨middle, front, back⟩ := (Tiles.append_iff _ _ _ _).mp tiles
  exact ⟨middle, front, back.le⟩

def Segment.span (s : Segment) : Int × Int := (s.baseOffset, s.nextOffset)

theorem Layout.transfer {p q : Partition} {front front' : List Segment} {active active' : Segment}
    (layout : Layout p front active) (segments : q.log.segments = front' ++ [active'])
    (spans : front'.map Segment.span = front.map Segment.span)
    (base : active'.baseOffset = active.baseOffset)
    (upward : active'.baseOffset ≤ active'.nextOffset) (bounded : active'.nextOffset < 2 ^ 63)
    (keyed : ∀ s ∈ front' ++ [active'], s.Keyed)
    (handle : active'.logFile.fd < (q.world.stores .log).nextFd)
    (files : Tidy front' active' q.world) : Layout q front' active' := by
  have each (holds : Int × Int → Prop) (all : ∀ s ∈ front, holds s.span) :
      ∀ s ∈ front', holds s.span := by
    have mapped : ∀ span ∈ front.map Segment.span, holds span := List.forall_mem_map.mpr all
    rw [← spans] at mapped
    exact List.forall_mem_map.mp mapped
  have before : ∀ s ∈ front', s.nextOffset ≤ active'.baseOffset := by
    rw [base]
    exact each (fun span => span.2 ≤ active.baseOffset) layout.before_active
  have linked := List.isChain_append.mp layout.linked
  refine ⟨segments, ?_, ?_, each (fun span => span.1 < span.2) layout.filled, upward, ?_, bounded,
    keyed, handle, files⟩
  · refine List.pairwise_append.mpr ⟨?_, by simp, ?_⟩
    · have ordered := (List.pairwise_append.mp layout.ordered).1
      have mapped := (List.pairwise_map (R := fun a b : Int × Int => a.2 ≤ b.1)).mpr
        (show front.Pairwise fun a b => a.span.2 ≤ b.span.1 from ordered)
      rw [← spans] at mapped
      exact List.pairwise_map.mp mapped
    · intro s member last isLast
      rw [List.mem_singleton.mp isLast]
      exact before s member
  · refine List.isChain_append.mpr ⟨?_, by simp, ?_⟩
    · have mapped := (List.isChain_map (R := fun a b : Int × Int => a.2 = b.1) Segment.span).mpr
        (show front.IsChain fun a b => a.span.2 = b.span.1 from linked.1)
      rw [← spans] at mapped
      exact (List.isChain_map _).mp mapped
    · intro s isLast last isFirst
      simp only [List.head?_cons, Option.mem_def, Option.some.injEq] at isFirst
      have lasts := congrArg List.getLast? spans
      rw [List.getLast?_map, List.getLast?_map, Option.mem_def.mp isLast, Option.map_some] at lasts
      obtain ⟨t, isLast', same⟩ := Option.map_eq_some_iff.mp lasts.symm
      rw [← isFirst, base, ← linked.2.2 t isLast' active (by simp)]
      exact (congrArg Prod.snd same).symm
  · intro s member
    rcases List.mem_append.mp member with old | last
    · exact each (fun span => 0 ≤ span.1)
        (fun s member => layout.positive s (List.mem_append_left _ member)) s old
    · rw [List.mem_singleton.mp last, base]
      exact layout.active_positive

/-- The directory `disk` is what a crash left of `p`: the log file of the active segment is cut
to its first `cut` bytes and the other log files are complete. The index files may be gone or
hold anything. -/
structure Crashed (p : Partition) (cut : Nat) (disk : World) : Prop where
  logs : ∀ key, ((disk.stores .log).lookup key).map File.data =
    ((p.world.stores .log).lookup key).map fun file =>
      if p.log.segments.getLast?.map Segment.baseOffset = some key then file.data.take cut
      else file.data
  names : ∀ suffix key, (p.world.stores suffix).lookup key = none →
    (disk.stores suffix).lookup key = none

def World.cutLog (world : World) (base : Int) (cut : Nat) : World :=
  world.withStore .log ((world.stores .log).truncate ⟨0, base⟩ cut world.time)

theorem crashed_cutLog (p : Partition) (active : Segment) (cut : Nat)
    (isLast : p.log.segments.getLast? = some active) :
    Crashed p cut (p.world.cutLog active.baseOffset cut) := by
  constructor
  · intro key
    rw [isLast, Option.map_some, World.cutLog, World.stores_withStore, if_pos rfl,
      Store.lookup_truncate]
    by_cases same : key = active.baseOffset
    · rw [if_pos same, same, Option.map_map]
      congr 1
      funext file
      simp
    · rw [if_neg same]
      congr 1
      funext file
      rw [if_neg fun equal => same (Option.some.inj equal).symm]
  · intro suffix key absent
    rw [World.cutLog, World.stores_withStore]
    split
    · next isLog =>
        subst isLog
        rw [Store.lookup_truncate]
        split
        · next same => rw [← same, absent, Option.map_none]
        · exact absent
    · exact absent

def sealedBytes (p : Partition) : Nat := (p.log.segments.dropLast.map Segment.logSize).sum

def wholeBatches (p : Partition) (cut : Nat) : List Bytes :=
  Framing.fitting (p.journal.map Stored.written) (sealedBytes p + cut)

section Crashing

variable {p : Partition} {front : List Segment} {active : Segment} {old : List (List Bytes)}
  {new : List Bytes} {cut : Nat} {disk : World}

theorem Intact.wholeBatches (intact : Intact p front active old new)
    (stored : (old ++ [new]).flatten = p.journal.map Stored.written) (cut : Nat) :
    wholeBatches p cut = old.flatten ++ Framing.fitting new cut := by
  have sizes : sealedBytes p = old.flatten.flatten.length := by
    rw [sealedBytes, intact.readable.layout.segments, List.dropLast_concat]
    have held := intact.readable.old
    clear intact stored
    induction held with
    | nil => rfl
    | cons holds _ ih =>
      rw [List.map_cons, List.sum_cons, ih, holds.size, List.flatten_cons, List.flatten_append,
        List.length_append]
  rw [Storage.wholeBatches, ← stored, sizes, List.flatten_append, List.flatten_singleton,
    Framing.fitting_append]

theorem Layout.owned (layout : Layout p front active) (unsealed : Unsealed p) (suffix : Suffix)
    (key : Int) (found : ((p.world.stores suffix).lookup key).isSome = true) :
    key ∈ p.log.segments.map Segment.baseOffset := by
  obtain ⟨file, found⟩ := Option.isSome_iff_exists.mp found
  rw [layout.segments, List.mem_map]
  rcases layout.files suffix key file found with ⟨s, member, same⟩ | ⟨-, -, isSealed⟩
  · exact ⟨s, member, same⟩
  · rw [unsealed active layout.last] at isSealed
    cases isSealed

theorem Intact.files (intact : Intact p front active old new) (unsealed : Unsealed p) (key : Int) :
    ((p.world.stores .log).lookup key).isSome = true ↔
      key ∈ p.log.segments.map Segment.baseOffset := by
  have layout := intact.readable.layout
  constructor
  · exact layout.owned unsealed .log key
  · rw [layout.segments, Option.isSome_iff_exists, List.mem_map]
    rintro ⟨s, member, rfl⟩
    obtain ⟨before, after, split⟩ := List.append_of_mem member
    obtain ⟨_, _, _, -, -, holds, -⟩ := forall₂_split before after s _ (split ▸ intact.readable.held)
    obtain ⟨file, found, -⟩ := holds.file
    exact ⟨file, found⟩

theorem Intact.survivors_old (intact : Intact p front active old new) (crashed : Crashed p cut disk) :
    List.Forall₂ (fun s batches => survivors ((disk.stores .log).data s.baseOffset) = batches ∧
      Tiles s.baseOffset batches s.nextOffset ∧
      (p.world.stores .log).data s.baseOffset = batches.flatten) front old := by
  have layout := intact.readable.layout
  refine forall₂_imp_of_mem (forall₂_and intact.readable.old intact.old) ?_
  rintro s member batches ⟨holds, mtime, found⟩
  have file := crashed.logs s.baseOffset
  have apart : p.log.segments.getLast?.map Segment.baseOffset ≠ some s.baseOffset := by
    rw [layout.last, Option.map_some]
    intro same
    exact absurd (Option.some.inj same) (ne_of_gt (layout.base_lt s member))
  rw [found, Option.map_some, if_neg apart] at file
  obtain ⟨cutFile, found', data⟩ := Option.map_eq_some_iff.mp file
  refine ⟨?_, holds.tiles, by rw [Store.data, found]⟩
  rw [Store.data, found']
  dsimp only
  rw [data, survivors_flatten batches holds.tiles.valid]

theorem Intact.survivors_new (intact : Intact p front active old new) (crashed : Crashed p cut disk) :
    survivors ((disk.stores .log).data active.baseOffset) = Framing.fitting new cut := by
  obtain ⟨kept, -, ⟨mtime, found⟩, -⟩ := intact.new
  have file := crashed.logs active.baseOffset
  rw [found, Option.map_some, if_pos (by rw [intact.readable.layout.last]; rfl)] at file
  obtain ⟨cutFile, found', data⟩ := Option.map_eq_some_iff.mp file
  rw [Store.data, found']
  dsimp only
  rw [data, survivors_take new cut intact.readable.new.tiles.valid]

theorem Recorded.tiles_old (recorded : Recorded p) (intact : Intact p front active old new)
    (stored : (old ++ [new]).flatten = p.journal.map Stored.written) :
    Tiles 0 old.flatten active.baseOffset := by
  have tiles := recorded.tiles
  rw [← stored, List.flatten_append, List.flatten_singleton,
    intact.readable.layout.highWatermark] at tiles
  obtain ⟨middle, front, back⟩ := (Tiles.append_iff _ _ _ _).mp tiles
  have sum := back.sum
  have sum' := intact.readable.new.tiles.sum
  obtain rfl : middle = active.baseOffset := by omega
  exact front

theorem Recorded.disk_files (recorded : Recorded p) (unsealed : Unsealed p)
    (crashed : Crashed p cut disk) (key : Int) : ((disk.stores .log).lookup key).isSome = true ↔
      key ∈ p.log.segments.map Segment.baseOffset := by
  obtain ⟨front, active, old, new, intact, -⟩ := recorded.intact
  rw [← intact.files unsealed key, ← Option.isSome_map, crashed.logs key, Option.isSome_map]

theorem Recorded.bases_nonneg (recorded : Recorded p) :
    ∀ base ∈ p.log.segments.map Segment.baseOffset, 0 ≤ base := by
  obtain ⟨front, active, layout⟩ := recorded.layout
  intro base member
  obtain ⟨s, isMember, rfl⟩ := List.mem_map.mp member
  exact layout.positive s (layout.segments ▸ isMember)

structure Survived (p : Partition) (cut : Nat) (log : Log) (after : World) : Prop where
  bases : log.segments.map Segment.baseOffset = p.log.segments.map Segment.baseOffset
  logStart : log.logStart = p.log.logStart
  sealed : ∀ s ∈ p.log.segments.dropLast,
    (after.stores .log).data s.baseOffset = (p.world.stores .log).data s.baseOffset
  contents : (log.segments.map fun s => (after.stores .log).data s.baseOffset).flatten =
    (Storage.wholeBatches p cut).flatten
  highWatermark : log.highWatermark = ((Storage.wholeBatches p cut).map offsetCount).sum

theorem Recorded.reopen (recorded : Recorded p) (unsealed : Unsealed p)
    (crashed : Crashed p cut disk) (quiet : disk.Quiet) (cfg : Config) :
    Yields (openLog cfg) disk
      (fun log after => Survived p cut log after ∧
        ReopenedAll disk (p.log.segments.map Segment.baseOffset) log.segments after ∧
        ∃ front active, Layout ⟨log, after, []⟩ front active)
      (fun _ _ => False) := by
  obtain ⟨front, active, old, new, intact, stored⟩ := recorded.intact
  have layout := intact.readable.layout
  refine (openLog_quiet cfg disk quiet _ (by simp [layout.segments]) layout.ascending
    recorded.bases_nonneg (recorded.disk_files unsealed crashed)).mono ?_
    fun _ _ impossible => impossible
  · rintro log after ⟨-, start, all⟩
    have reopened := all.reopened
    rw [layout.segments, List.forall₂_map_left_iff] at reopened
    obtain ⟨front', active', late, segments, reopenedOld, reopenedNew, none⟩ :=
      forall₂_split front [] active _ reopened
    cases none
    have oldFound := intact.survivors_old crashed
    have newFound := intact.survivors_new crashed
    have bases : log.segments.map Segment.baseOffset = p.log.segments.map Segment.baseOffset := by
      rw [layout.segments]
      exact map_eq_of_forall₂ (reopened.imp fun _ _ opened => opened.baseOffset)
    have data (base : Int) (member : base ∈ p.log.segments.map Segment.baseOffset) :
        (after.stores .log).data base = (survivors ((disk.stores .log).data base)).flatten := by
      obtain ⟨file, found, same⟩ := Option.map_eq_some_iff.mp (all.kept base member)
      rw [← same, Store.data, found]
    have dataOld : List.Forall₂ (fun s batches =>
        List.flatten batches = (after.stores .log).data s.baseOffset) front old := by
      refine forall₂_imp_of_mem oldFound fun s member batches found => ?_
      rw [data s.baseOffset (List.mem_map_of_mem (by simp [layout.segments, member])), found.1]
    have dataNew : (after.stores .log).data active.baseOffset = (Framing.fitting new cut).flatten := by
      rw [data active.baseOffset (List.mem_map_of_mem (by simp [layout.segments])), newFound]
    obtain ⟨middle, tiled, le⟩ :=
      intact.readable.new.tiles.take_prefix (Framing.fitting_prefix new cut)
    have next : active'.nextOffset = middle := by
      rw [reopenedNew.next, newFound, tiled.endOffset layout.active_positive]
    have ends : ∀ s ∈ front, endOffset s.baseOffset (survivors ((disk.stores .log).data s.baseOffset)) =
        s.nextOffset := by
      intro s member
      obtain ⟨before, rest, split⟩ := List.append_of_mem member
      obtain ⟨_, batches, _, -, -, ⟨found, tiles, -⟩, -⟩ :=
        forall₂_split before rest s _ (split ▸ oldFound)
      rw [found, tiles.endOffset (layout.positive s (List.mem_append_left _ member))]
    have spans : front'.map Segment.span = front.map Segment.span := by
      refine map_eq_of_forall₂ (forall₂_imp_of_mem reopenedOld fun s member s' opened => ?_)
      rw [Segment.span, Segment.span, opened.baseOffset, opened.next, ends s member]
    have layout' : Layout ⟨log, after, []⟩ front' active' := by
      refine layout.transfer segments spans reopenedNew.baseOffset ?_ ?_ ?_ ?_ ?_
      · rw [next, reopenedNew.baseOffset]
        exact tiled.le
      · rw [next]
        exact lt_of_le_of_lt le layout.bounded
      · intro s member
        obtain ⟨_, -, opened⟩ := forall₂_mem_right reopened s (segments ▸ member)
        exact opened.keyed
      · exact (all.last active' (by simp [segments])).2.1
      · intro suffix key file found
        refine .inl ?_
        by_cases member : key ∈ p.log.segments.map Segment.baseOffset
        · rw [← bases, segments] at member
          exact List.mem_map.mp member
        · have absent : (p.world.stores suffix).lookup key = none := by
            rw [← Option.not_isSome_iff_eq_none]
            exact fun known => member (layout.owned unsealed suffix key known)
          rw [all.other suffix key member, crashed.names suffix key absent] at found
          cases found
    have whole := intact.wholeBatches stored cut
    refine ⟨⟨bases, ?_, ?_, ?_, ?_⟩, all, front', active', layout'⟩
    · rw [List.head?_map, recorded.start] at start
      rw [recorded.logStart]
      exact (Option.some.inj start).symm
    · rw [layout.segments, List.dropLast_concat]
      intro s member
      obtain ⟨before, rest, split⟩ := List.append_of_mem member
      obtain ⟨_, batches, _, -, -, ⟨found, -, filed⟩, -⟩ :=
        forall₂_split before rest s _ (split ▸ oldFound)
      rw [data s.baseOffset (List.mem_map_of_mem (by simp [layout.segments, member])), found, filed]
    · have perBase : (log.segments.map fun s => (after.stores .log).data s.baseOffset) =
          (log.segments.map Segment.baseOffset).map fun base => (after.stores .log).data base := by
        rw [List.map_map]
        rfl
      rw [perBase, bases, layout.segments, List.map_map, List.map_append, List.flatten_append, whole,
        List.flatten_append, List.flatten_flatten, map_eq_of_forall₂ dataOld, List.map_singleton,
        List.flatten_singleton, Function.comp_apply, dataNew]
      rfl
    · rw [layout'.highWatermark, next, whole]
      have tiles := (Tiles.append_iff _ _ _ _).mpr ⟨_, recorded.tiles_old intact stored, tiled⟩
      rw [tiles.sum, zero_add]

end Crashing

end KafkaWire.Storage
