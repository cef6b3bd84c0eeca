import KafkaWire.Storage.Log
import KafkaWire.Storage.SegmentEffects

/-! The layout of a partition: segments that follow one another without a gap, and no
file that is not one of theirs. `Effect` lists everything an append can do to a
partition; the layout survives each of them. -/

namespace KafkaWire.Storage

open Bytes Files Programs

variable {world after before : World} {batch : Bytes} {done : Appended}

theorem setActive_segments (l : Log) (front : List Segment) (active seg : Segment)
    (segments : l.segments = front ++ [active]) : (l.setActive seg).segments = front ++ [seg] := by
  simp [Log.setActive, segments]

/-- A file that belongs to no segment is an empty one at the offset where the log ends,
left there by a roll that failed after it had sealed the active segment. -/
def Tidy (front : List Segment) (active : Segment) (world : World) : Prop :=
  ∀ suffix key file, (world.stores suffix).lookup key = some file →
    (∃ s ∈ front ++ [active], s.baseOffset = key) ∨
      (key = active.nextOffset ∧ (file.data = [] ∧ file.synced = []) ∧ active.sealed = true)

structure Layout (p : Partition) (front : List Segment) (active : Segment) : Prop where
  segments : p.log.segments = front ++ [active]
  ordered : (front ++ [active]).Pairwise fun a b => a.nextOffset ≤ b.baseOffset
  linked : (front ++ [active]).IsChain fun a b => a.nextOffset = b.baseOffset
  filled : ∀ s ∈ front, s.baseOffset < s.nextOffset
  upward : active.baseOffset ≤ active.nextOffset
  positive : ∀ s ∈ front ++ [active], 0 ≤ s.baseOffset
  bounded : active.nextOffset < 2 ^ 63
  keyed : ∀ s ∈ front ++ [active], s.Keyed
  handle : active.logFile.fd < (p.world.stores .log).nextFd
  files : Tidy front active p.world

section Facts

variable {p : Partition} {front : List Segment} {active : Segment} (layout : Layout p front active)

include layout

theorem Layout.highWatermark : p.log.highWatermark = active.nextOffset := by
  simp [Log.highWatermark, layout.segments]

theorem Layout.last : p.log.segments.getLast? = some active := by
  simp [layout.segments]

theorem Layout.active_keyed : active.Keyed := layout.keyed active (by simp)

theorem Layout.active_positive : 0 ≤ active.baseOffset := layout.positive active (by simp)

theorem Layout.before_active (s : Segment) (member : s ∈ front) :
    s.nextOffset ≤ active.baseOffset :=
  (List.pairwise_append.mp layout.ordered).2.2 s member active (by simp)

theorem Layout.base_lt (s : Segment) (member : s ∈ front) : s.baseOffset < active.baseOffset :=
  lt_of_lt_of_le (layout.filled s member) (layout.before_active s member)

theorem Layout.vacant (ahead : active.nextOffset ≠ active.baseOffset) :
    Vacant active.nextOffset p.world := by
  intro suffix file found
  rcases layout.files suffix _ file found with ⟨s, member, same⟩ | ⟨-, empty, -⟩
  · rcases List.mem_append.mp member with old | last
    · have below := layout.base_lt s old
      have upward := layout.upward
      omega
    · rw [List.mem_singleton.mp last] at same
      exact absurd same.symm ahead
  · exact empty

theorem Layout.ascending : (p.log.segments.map Segment.baseOffset).Pairwise (· < ·) := by
  rw [layout.segments, List.pairwise_map]
  refine List.pairwise_append.mpr ⟨?_, by simp, ?_⟩
  · refine (List.pairwise_append.mp layout.ordered).1.imp_of_mem ?_
    intro first second member _ le
    exact lt_of_lt_of_le (layout.filled first member) le
  · intro s member last isLast
    rw [List.mem_singleton.mp isLast]
    exact layout.base_lt s member

theorem Layout.base_le_next (s : Segment) (member : s ∈ front ++ [active]) :
    s.baseOffset ≤ s.nextOffset := by
  rcases List.mem_append.mp member with old | last
  · exact le_of_lt (layout.filled s old)
  · rw [List.mem_singleton.mp last]
    exact layout.upward

theorem Layout.bases_nodup : (p.log.segments.map Segment.baseOffset).Nodup :=
  layout.ascending.nodup

end Facts

def offsetCount (batch : Bytes) : Int := (decodeHeader batch).lastOffsetDelta + 1

theorem stamp_offsets (batch : Bytes) (next : Int) (long : 61 ≤ batch.length) (low : 0 ≤ next)
    (counted : 0 < offsetCount batch) (fits : next + offsetCount batch < 2 ^ 63) :
    (decodeHeader (stamp batch next)).baseOffset = next ∧
      (decodeHeader (stamp batch next)).lastOffset = next + offsetCount batch - 1 ∧
      int64 ((decodeHeader (stamp batch next)).lastOffset + 1) = next + offsetCount batch := by
  unfold offsetCount at counted fits ⊢
  have base : int64 next = next := int64_of_range next (by omega) (by omega)
  have last : (decodeHeader (stamp batch next)).lastOffset =
      next + ((decodeHeader batch).lastOffsetDelta + 1) - 1 := by
    rw [lastOffset_stamp batch next long, base, int64_of_range _ (by omega) (by omega)]
    omega
  refine ⟨(baseOffset_stamp batch next long).trans base, last, ?_⟩
  rw [last, int64_of_range _ (by omega) (by omega)]
  omega

section Effects

variable (whole : Bytes → Prop) (tearing : Prop)

/-- What an append can do to a partition, one file operation or one change of the segment
list at a time. The batches it stores satisfy `whole`, and the writes it leaves
half-done are empty unless `tearing`. -/
inductive Effect : Partition → Partition → Prop
  | idle {p : Partition} {after : World} (later : Later p.world after)
      (same : after.stores = p.world.stores) : Effect p { p with world := after }
  | tore {p : Partition} {front : List Segment} {active : Segment} {batch : Bytes} {after : World}
      (segments : p.log.segments = front ++ [active]) (tore : Tore active batch p.world after)
      (allowed : tearing ∨ p.world.next.fault = some 0) : Effect p { p with world := after }
  | stored {p : Partition} {front : List Segment} {active : Segment} {batch : Bytes}
      {done : Appended} {after : World} (segments : p.log.segments = front ++ [active])
      (member : whole batch) (counted : 0 < offsetCount batch)
      (fits : active.nextOffset + offsetCount batch < 2 ^ 63) (long : 61 ≤ batch.length)
      (wrote : Wrote active (stamp batch active.nextOffset) p.world done after) :
      Effect p (recordStored batch (stamp batch active.nextOffset) done { p with world := after })
  | synced {p : Partition} {front : List Segment} {active : Segment} {after : World}
      (segments : p.log.segments = front ++ [active]) (later : Later p.world after)
      (synced : Synced active p.world after) : Effect p { p with world := after }
  | closed {p : Partition} {front : List Segment} {active : Segment} {after : World}
      (segments : p.log.segments = front ++ [active]) (later : Later p.world after)
      (synced : Synced active p.world after) :
      Effect p
        { p with log := p.log.setActive { active with sealed := true }, world := after }
  | opening {p : Partition} {front : List Segment} {active : Segment} {after : World}
      (segments : p.log.segments = front ++ [active]) (isSealed : active.sealed = true)
      (ahead : active.nextOffset ≠ active.baseOffset)
      (opening : Opening active.nextOffset p.world after)
      (handles : after.stores .log = p.world.stores .log ∨
        HandleAdded active.nextOffset p.world after) : Effect p { p with world := after }
  | rolled {p : Partition} {front : List Segment} {active : Segment} {after : World}
      (idxFd tixFd : Nat) (createdAt : Int)
      (segments : p.log.segments = front ++ [active]) (isSealed : active.sealed = true)
      (ahead : active.nextOffset ≠ active.baseOffset)
      (opening : Opening active.nextOffset p.world after)
      (added : HandleAdded active.nextOffset p.world after) :
      Effect p
        { p with
          log := { p.log with
            segments := p.log.segments ++
              [emptySegment (segmentOpts p.log.cfg active.nextOffset) (p.world.stores .log).nextFd
                idxFd tixFd createdAt] }
          world := after }

abbrev Effects := Relation.ReflTransGen (Effect whole tearing)

variable {whole tearing}

theorem Effect.mono {weaker : Bytes → Prop} {tearing' : Prop} {p p' : Partition}
    (weaken : ∀ batch, whole batch → weaker batch) (tears : tearing → tearing')
    (effect : Effect whole tearing p p') : Effect weaker tearing' p p' := by
  cases effect with
  | idle later same => exact .idle later same
  | tore segments tore allowed => exact .tore segments tore (allowed.imp_left tears)
  | stored segments member counted fits long wrote =>
    exact .stored segments (weaken _ member) counted fits long wrote
  | synced segments later synced => exact .synced segments later synced
  | closed segments later synced => exact .closed segments later synced
  | opening segments isSealed ahead opening handles =>
    exact .opening segments isSealed ahead opening handles
  | rolled idxFd tixFd createdAt segments isSealed ahead opening added =>
    exact .rolled idxFd tixFd createdAt segments isSealed ahead opening added

end Effects

section Preservation

variable {p p' : Partition} {front : List Segment} {active : Segment}

theorem Layout.renew (layout : Layout p front active) (seg : Segment)
    (segments : p'.log.segments = front ++ [seg]) (base : seg.baseOffset = active.baseOffset)
    (upward : seg.baseOffset ≤ seg.nextOffset) (bounded : seg.nextOffset < 2 ^ 63)
    (keyed : seg.Keyed) (handle : seg.logFile.fd < (p'.world.stores .log).nextFd)
    (files : Tidy front seg p'.world) : Layout p' front seg where
  segments := segments
  ordered := by
    have ordered := List.pairwise_append.mp layout.ordered
    refine List.pairwise_append.mpr ⟨ordered.1, by simp, ?_⟩
    intro s member last isLast
    rw [List.mem_singleton.mp isLast, base]
    exact layout.before_active s member
  linked := by
    have linked := List.isChain_append.mp layout.linked
    refine List.isChain_append.mpr ⟨linked.1, by simp, ?_⟩
    intro s member last isLast
    simp only [List.head?_cons, Option.mem_def, Option.some.injEq] at isLast
    rw [← isLast, base]
    exact linked.2.2 s member active (by simp)
  filled := layout.filled
  upward := upward
  positive := by
    intro s member
    rcases List.mem_append.mp member with old | last
    · exact layout.positive s (List.mem_append_left _ old)
    · rw [List.mem_singleton.mp last, base]
      exact layout.active_positive
  bounded := bounded
  keyed := by
    intro s member
    rcases List.mem_append.mp member with old | last
    · exact layout.keyed s (List.mem_append_left _ old)
    · rw [List.mem_singleton.mp last]
      exact keyed
  handle := handle
  files := files

theorem Tidy.of_other (tidy : Tidy front active world)
    (other : ∀ suffix key, key ≠ active.baseOffset →
      (after.stores suffix).lookup key = (world.stores suffix).lookup key) :
    Tidy front active after := by
  intro suffix key file found
  by_cases own : key = active.baseOffset
  · exact .inl ⟨active, by simp, own.symm⟩
  · rw [other suffix key own] at found
    exact tidy suffix key file found

theorem Tidy.of_flushed (tidy : Tidy front active world)
    (flushed : ∀ suffix key, (after.stores suffix).lookup key = (world.stores suffix).lookup key ∨
      (after.stores suffix).lookup key = ((world.stores suffix).lookup key).map File.flush) :
    Tidy front active after := by
  intro suffix key file found
  rcases flushed suffix key with same | isFlushed
  · rw [same] at found
    exact tidy suffix key file found
  · rw [isFlushed] at found
    obtain ⟨before, found', rfl⟩ := Option.map_eq_some_iff.mp found
    refine (tidy suffix key before found').imp_right ?_
    rintro ⟨atEnd, ⟨empty, -⟩, isSealed⟩
    exact ⟨atEnd, ⟨empty, empty⟩, isSealed⟩

/-- A stray file can only exist while the active segment is sealed. -/
theorem Tidy.renew {seg : Segment} (tidy : Tidy front active world)
    (base : seg.baseOffset = active.baseOffset)
    (stray : active.sealed = true → seg.nextOffset = active.nextOffset ∧ seg.sealed = true) :
    Tidy front seg world := by
  intro suffix key file found
  rcases tidy suffix key file found with ⟨s, member, same⟩ | ⟨atEnd, empty, isSealed⟩
  · rcases List.mem_append.mp member with old | last
    · exact .inl ⟨s, List.mem_append_left _ old, same⟩
    · rw [List.mem_singleton.mp last] at same
      exact .inl ⟨seg, by simp, base.trans same⟩
  · obtain ⟨sameEnd, sealed'⟩ := stray isSealed
    exact .inr ⟨sameEnd ▸ atEnd, empty, sealed'⟩

theorem Tore.other (tore : Tore active batch before after)
    (keyed : active.Keyed) (suffix : Suffix) (key : Int) (apart : key ≠ active.baseOffset) :
    (after.stores suffix).lookup key = (before.stores suffix).lookup key := by
  obtain ⟨count, -, rfl⟩ := tore
  by_cases same : suffix = .log
  · subst same
    simp [keyed.log, apart]
  · simp [same]

theorem Tore.nextFd (tore : Tore active batch before after) :
    (after.stores .log).nextFd = (before.stores .log).nextFd := by
  obtain ⟨count, -, rfl⟩ := tore
  simp

theorem Indexed.keyed {s s' : Segment} {relOffset : Int} {position : Nat}
    (indexed : Indexed s s' relOffset position) (keyed : s.Keyed) : s'.Keyed := by
  have shape := indexed.shape
  refine ⟨?_, ?_, ?_⟩
  · rw [shape]
    exact keyed.log
  · rw [shape, indexed.idx.1]
    exact keyed.index
  · rw [shape, indexed.tix]
    exact keyed.timeIndex

section Written

variable (wrote : Wrote active batch before done after)

include wrote

theorem Wrote.nextFd : (after.stores .log).nextFd = (before.stores .log).nextFd := by
  obtain ⟨now, log⟩ := wrote.log
  simp [log]

theorem Wrote.baseOffset : done.segment.baseOffset = active.baseOffset := by
  rw [wrote.segment.shape]
  rfl

theorem Wrote.isOpen : done.segment.sealed = false := by
  rw [wrote.segment.shape]
  exact wrote.unsealed

theorem Wrote.logSize : done.segment.logSize = active.logSize + batch.length := by
  rw [wrote.segment.shape]
  rfl

theorem Wrote.logFile : done.segment.logFile = active.logFile := by
  rw [wrote.segment.shape]
  rfl

theorem Wrote.nextOffset :
    done.segment.nextOffset = int64 ((decodeHeader batch).lastOffset + 1) := by
  rw [wrote.segment.shape]
  rfl

end Written

theorem Wrote.nextOffset_stamp
    (wrote : Wrote active (stamp batch active.nextOffset) before done after)
    (long : 61 ≤ batch.length) (low : 0 ≤ active.nextOffset) (counted : 0 < offsetCount batch)
    (fits : active.nextOffset + offsetCount batch < 2 ^ 63) :
    done.segment.nextOffset = active.nextOffset + offsetCount batch := by
  rw [wrote.nextOffset]
  exact (stamp_offsets batch active.nextOffset long low counted fits).2.2

theorem HandleAdded.nextFd {base : Int} (added : HandleAdded base before after) :
    (after.stores .log).nextFd = (before.stores .log).nextFd + 1 := by
  obtain ⟨now, log⟩ := added
  rw [log]
  rfl

theorem Opening.tidy (opening : Opening active.nextOffset before after)
    (tidy : Tidy front active before) (isSealed : active.sealed = true) :
    Tidy front active after := by
  intro suffix key file found
  by_cases atEnd : key = active.nextOffset
  · subst atEnd
    exact .inr ⟨rfl, opening.vacant suffix file found, isSealed⟩
  · rw [opening.other suffix key atEnd] at found
    exact tidy suffix key file found

variable (layout : Layout p front active)

include layout

theorem Layout.next_positive : 0 ≤ active.nextOffset :=
  le_trans layout.active_positive layout.upward

theorem Layout.idle (same : after.stores = p.world.stores) :
    Layout { p with world := after } front active :=
  layout.renew active layout.segments rfl layout.upward layout.bounded layout.active_keyed
    (by rw [same]; exact layout.handle)
    (by intro suffix key file found; rw [same] at found; exact layout.files suffix key file found)

theorem Layout.tore (tore : Tore active batch p.world after) :
    Layout { p with world := after } front active :=
  layout.renew active layout.segments rfl layout.upward layout.bounded layout.active_keyed
    (by rw [tore.nextFd]; exact layout.handle)
    (layout.files.of_other (tore.other layout.active_keyed))

theorem Layout.stored (long : 61 ≤ batch.length) (counted : 0 < offsetCount batch)
    (fits : active.nextOffset + offsetCount batch < 2 ^ 63)
    (wrote : Wrote active (stamp batch active.nextOffset) p.world done after) :
    Layout (recordStored batch (stamp batch active.nextOffset) done { p with world := after }) front
      done.segment := by
  have next := wrote.nextOffset_stamp long layout.next_positive counted fits
  have upward := layout.upward
  refine layout.renew done.segment
    (setActive_segments p.log front active done.segment layout.segments)
    wrote.baseOffset ?_ (by omega) ?_ ?_ ?_
  · rw [wrote.baseOffset, next]
    omega
  · have keyed := layout.active_keyed
    exact wrote.segment.keyed ⟨keyed.log, keyed.index, keyed.timeIndex⟩
  · show done.segment.logFile.fd < (after.stores .log).nextFd
    rw [wrote.logFile, wrote.nextFd]
    exact layout.handle
  · refine (layout.files.of_other wrote.other).renew wrote.baseOffset ?_
    intro isSealed
    rw [wrote.unsealed] at isSealed
    cases isSealed

theorem Layout.synced (synced : Synced active p.world after) :
    Layout { p with world := after } front active :=
  layout.renew active layout.segments rfl layout.upward layout.bounded layout.active_keyed
    (by rw [synced.log, Store.nextFd_sync]; exact layout.handle)
    (layout.files.of_flushed synced.flushed)

theorem Layout.closed (synced : Synced active p.world after) :
    Layout { p with log := p.log.setActive { active with sealed := true }, world := after } front
      { active with sealed := true } := by
  have keyed := layout.active_keyed
  refine layout.renew { active with sealed := true }
    (setActive_segments p.log front active _ layout.segments) rfl layout.upward layout.bounded
    ⟨keyed.log, keyed.index, keyed.timeIndex⟩ ?_ ?_
  · show active.logFile.fd < (after.stores .log).nextFd
    rw [synced.log, Store.nextFd_sync]
    exact layout.handle
  · exact (layout.files.of_flushed synced.flushed).renew rfl fun _ => ⟨rfl, rfl⟩

theorem Layout.opening (isSealed : active.sealed = true)
    (opening : Opening active.nextOffset p.world after)
    (handles : after.stores .log = p.world.stores .log ∨
      HandleAdded active.nextOffset p.world after) :
    Layout { p with world := after } front active := by
  refine layout.renew active layout.segments rfl layout.upward layout.bounded layout.active_keyed ?_
    (opening.tidy layout.files isSealed)
  have handle := layout.handle
  rcases handles with same | added
  · show active.logFile.fd < (after.stores .log).nextFd
    rw [same]
    exact handle
  · have more := added.nextFd
    show active.logFile.fd < (after.stores .log).nextFd
    omega

theorem Layout.rolled (cfg : Config) (idxFd tixFd : Nat) (createdAt : Int)
    (isSealed : active.sealed = true) (ahead : active.nextOffset ≠ active.baseOffset)
    (opening : Opening active.nextOffset p.world after)
    (added : HandleAdded active.nextOffset p.world after) :
    let seg := emptySegment (segmentOpts cfg active.nextOffset) (p.world.stores .log).nextFd
      idxFd tixFd createdAt
    Layout { p with log := { p.log with segments := p.log.segments ++ [seg] }, world := after }
      (front ++ [active]) seg := by
  intro seg
  have upward := layout.upward
  refine ⟨by simp [layout.segments], ?_, ?_, ?_, le_refl _, ?_, layout.bounded, ?_, ?_, ?_⟩
  · refine List.pairwise_append.mpr ⟨layout.ordered, by simp, ?_⟩
    intro s member last isLast
    rw [List.mem_singleton.mp isLast]
    show s.nextOffset ≤ active.nextOffset
    rcases List.mem_append.mp member with old | isActive
    · exact le_trans (layout.before_active s old) upward
    · rw [List.mem_singleton.mp isActive]
  · refine List.isChain_append.mpr ⟨layout.linked, by simp, ?_⟩
    intro s isLast first isFirst
    simp only [List.getLast?_append, List.getLast?_singleton, Option.some_or, Option.mem_def,
      Option.some.injEq, List.head?_cons] at isLast isFirst
    rw [← isLast, ← isFirst]
    rfl
  · intro s member
    rcases List.mem_append.mp member with old | isActive
    · exact layout.filled s old
    · rw [List.mem_singleton.mp isActive]
      omega
  · intro s member
    rcases List.mem_append.mp member with old | isNew
    · exact layout.positive s old
    · rw [List.mem_singleton.mp isNew]
      exact layout.next_positive
  · intro s member
    rcases List.mem_append.mp member with old | isNew
    · exact layout.keyed s old
    · rw [List.mem_singleton.mp isNew]
      exact ⟨rfl, rfl, rfl⟩
  · show (p.world.stores .log).nextFd < (after.stores .log).nextFd
    rw [added.nextFd]
    exact Nat.lt_succ_self _
  · intro suffix key file found
    rcases opening.tidy layout.files isSealed suffix key file found with ⟨s, member, same⟩ | stray
    · exact .inl ⟨s, List.mem_append_left _ member, same⟩
    · exact .inl ⟨seg, by simp, stray.1.symm⟩

end Preservation

theorem segments_unique {l : Log} {front front' : List Segment} {active active' : Segment}
    (first : l.segments = front ++ [active]) (second : l.segments = front' ++ [active']) :
    front = front' ∧ active = active' := by
  rw [first] at second
  have same := List.append_inj' second rfl
  exact ⟨same.1, List.singleton_inj.mp same.2⟩

section Runs

variable {whole : Bytes → Prop} {tearing : Prop} {p p' : Partition} {front : List Segment}
  {active : Segment}

theorem Effect.layout (effect : Effect whole tearing p p') (layout : Layout p front active) :
    ∃ front' active', Layout p' front' active' ∧ active.nextOffset ≤ active'.nextOffset := by
  cases effect with
  | idle later same => exact ⟨front, active, layout.idle same, le_refl _⟩
  | tore segments tore allowed =>
    obtain ⟨rfl, rfl⟩ := segments_unique layout.segments segments
    exact ⟨front, active, layout.tore tore, le_refl _⟩
  | stored segments member counted fits long wrote =>
    obtain ⟨rfl, rfl⟩ := segments_unique layout.segments segments
    refine ⟨front, _, layout.stored long counted fits wrote, ?_⟩
    rw [wrote.nextOffset_stamp long layout.next_positive counted fits]
    omega
  | synced segments later synced =>
    obtain ⟨rfl, rfl⟩ := segments_unique layout.segments segments
    exact ⟨front, active, layout.synced synced, le_refl _⟩
  | closed segments later synced =>
    obtain ⟨rfl, rfl⟩ := segments_unique layout.segments segments
    exact ⟨front, _, layout.closed synced, le_refl _⟩
  | opening segments isSealed ahead opening handles =>
    obtain ⟨rfl, rfl⟩ := segments_unique layout.segments segments
    exact ⟨front, active, layout.opening isSealed opening handles, le_refl _⟩
  | rolled idxFd tixFd createdAt segments isSealed ahead opening added =>
    obtain ⟨rfl, rfl⟩ := segments_unique layout.segments segments
    exact ⟨front ++ [active], _,
      layout.rolled p.log.cfg idxFd tixFd createdAt isSealed ahead opening added, le_refl _⟩

theorem Effects.layout (effects : Effects whole tearing p p') (layout : Layout p front active) :
    ∃ front' active', Layout p' front' active' ∧ active.nextOffset ≤ active'.nextOffset := by
  induction effects with
  | refl => exact ⟨front, active, layout, le_refl _⟩
  | tail _ effect ih =>
    obtain ⟨front', active', layout', le⟩ := ih
    obtain ⟨front'', active'', layout'', le'⟩ := effect.layout layout'
    exact ⟨front'', active'', layout'', le_trans le le'⟩

end Runs

end KafkaWire.Storage
