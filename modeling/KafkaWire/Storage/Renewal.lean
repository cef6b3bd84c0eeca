import KafkaWire.Storage.Crash
import KafkaWire.Storage.Pruning

/-! A log that was closed and is opened again: the same batches in the same segments. -/

namespace KafkaWire.Storage

open Bytes Files Programs Related

structure Rests (p : Partition) (disk : World) : Prop where
  retained : Retained p
  unsealed : Unsealed p
  clean : Clean p.world
  files : disk.stores = p.world.stores

structure Renewed (p : Partition) (after : World) (s s' : Segment) (group : List Bytes) : Prop where
  baseOffset : s'.baseOffset = s.baseOffset
  nextOffset : s'.nextOffset = s.nextOffset
  logSize : s'.logSize = s.logSize
  keyed : s'.Keyed
  holds : Holds (after.stores .log) s' group
  file : (after.stores .log).lookup s.baseOffset = (p.world.stores .log).lookup s.baseOffset

section Reopening

variable {p : Partition} {disk after : World} {s s' : Segment} {kept group : List Bytes}

theorem Recovered.renewed (recovered : Recovered disk s.baseOffset s' kept) (quiet : disk.Quiet)
    (files : disk.stores = p.world.stores) (clean : Clean p.world)
    (holds : Holds (p.world.stores .log) s group)
    (complete : (p.world.stores .log).data s.baseOffset = group.flatten) (positive : 0 ≤ s.baseOffset)
    (contents : ((after.stores .log).lookup s'.baseOffset).map File.data = some kept.flatten)
    (untouched : Untouched s'.baseOffset kept.flatten disk after) :
    kept = group ∧ Renewed p after s s' group := by
  have whole := recovered.full quiet
  rw [files, complete, survivors_flatten group holds.tiles.valid] at whole
  subst whole
  have next : s'.nextOffset = s.nextOffset := by
    rw [recovered.next, holds.tiles.endOffset positive]
  have samples : Samples s.baseOffset s'.idx.entries kept := by
    apply recovered.samples.mp
    by_cases empty : (p.world.stores .log).data s.baseOffset = []
    · rw [files, (clean _ empty).data .index]
      exact .inl (by decide)
    · rw [files]
      exact .inr empty
  obtain ⟨file, found, inside⟩ := holds.file
  rw [recovered.baseOffset] at contents untouched
  obtain ⟨file', found', data⟩ := Option.map_eq_some_iff.mp contents
  refine ⟨rfl, recovered.baseOffset, next, ?_, recovered.keyed, ⟨?_, recovered.size, ?_, ?_⟩, ?_⟩
  · rw [recovered.size, holds.size]
  · rw [recovered.baseOffset, next]
    exact holds.tiles
  · rw [recovered.baseOffset]
    exact ⟨file', found', by rw [data]⟩
  · rw [recovered.baseOffset]
    exact samples.indexOk holds.tiles positive
  · rw [untouched ?_, files]
    rw [files, found, Option.map_some, ← complete, Store.data_of_lookup _ _ file found]

variable {front : List Segment} {active : Segment} {old : List (List Bytes)} {new : List Bytes}
  {found : List (Segment × List Bytes)}

theorem Intact.renewed (intact : Intact p front active old new) (clean : Clean p.world)
    (files : disk.stores = p.world.stores) (quiet : disk.Quiet)
    (all : RecoveredAll disk (p.log.segments.map Segment.baseOffset) found after) :
    List.Forall₂ (fun s one => Renewed p after s one.1 one.2) (front ++ [active]) found ∧
      found.map Prod.snd = old ++ [new] := by
  have layout := intact.readable.layout
  have recovered := all.recovered
  rw [layout.segments, List.forall₂_map_left_iff] at recovered
  have each (s : Segment) (one : Segment × List Bytes) (group : List Bytes)
      (both : (s ∈ front ++ [active] ∧ one ∈ found) ∧ Recovered disk s.baseOffset one.1 one.2)
      (held : Holds (p.world.stores .log) s group ∧
        (p.world.stores .log).data s.baseOffset = group.flatten) :
      one.2 = group ∧ Renewed p after s one.1 group :=
    both.2.renewed quiet files clean held.1 held.2 (layout.positive s both.1.1)
      (all.kept one both.1.2) (all.untouched one both.1.2)
  constructor
  · refine (forall₂_mem recovered).imp fun s one both => ?_
    obtain ⟨group, -, held⟩ := forall₂_mem_left intact.complete s both.1.1
    obtain ⟨same, renewed⟩ := each s one group both held
    rw [same]
    exact renewed
  · have matched := forall₂_through (forall₂_mem recovered) intact.complete
    rw [← List.map_id (old ++ [new])]
    refine (map_eq_of_forall₂ (f := Prod.snd) (g := id) (matched.imp ?_)).symm
    rintro one group ⟨s, both, held⟩
    exact (each s one group both held).1.symm

theorem Intact.lossless (intact : Intact p front active old new)
    (files : disk.stores = p.world.stores) :
    ∀ base ∈ p.log.segments.map Segment.baseOffset, Lossless disk base := by
  intro base member
  rw [intact.readable.layout.segments] at member
  obtain ⟨s, isMember, rfl⟩ := List.mem_map.mp member
  obtain ⟨group, -, holds, complete⟩ := forall₂_mem_left intact.complete s isMember
  rw [Lossless, files, complete, survivors_flatten group holds.tiles.valid]

theorem Intact.reopened {q : Partition} {front' : List Segment} {active' : Segment}
    (intact : Intact p front active old new) (layout : Layout q front' active')
    (before : List.Forall₂ (fun s s' => ∃ group, Renewed p q.world s s' group) front front')
    (held : List.Forall₂ (Holds (q.world.stores .log)) front' old)
    (last : Renewed p q.world active active' new) (isOpen : active'.sealed = false)
    (offset : (q.world.stores .log).offset active'.logFile.fd = active'.logSize) :
    Intact q front' active' old new := by
  obtain ⟨kept, inside, ⟨mtime, filed⟩, -⟩ := intact.new
  refine ⟨⟨layout, held, last.holds, offset.ge⟩, ?_, ⟨kept, inside, ⟨mtime, ?_⟩, ?_⟩, offset⟩
  · refine (forall₂_through before intact.old).imp ?_
    rintro s' group ⟨s, ⟨_, renewed⟩, time, found⟩
    exact ⟨time, by rw [renewed.baseOffset, renewed.file, found]⟩
  · rw [last.baseOffset, last.file, filed]
  · rw [isOpen]
    exact fun impossible => absurd impossible (by decide)

structure Resumes (p q : Partition) : Prop where
  retained : Retained q
  clean : Clean q.world
  unsealed : Unsealed q
  shaped : p.log.cfg = q.log.cfg → Shaped p → Shaped q

theorem Shaped.renewed {q : Partition} (shaped : Shaped p) (layout : Layout p front active)
    (renewed : List.Forall₂ (fun s s' => ∃ group, Renewed p q.world s s' group) (front ++ [active])
      q.log.segments)
    (cfg : p.log.cfg = q.log.cfg) (sealed : ∀ s ∈ q.log.segments.dropLast, s.sealed = true)
    (unsealed : Unsealed q) (limits : ∀ s ∈ q.log.segments, s.maxBytes = q.log.cfg.segmentBytes) :
    Shaped q := by
  refine ⟨sealed, unsealed, limits, fun s' member => ?_, fun s' isLast => ?_⟩
  · obtain ⟨s, isMember, _, same⟩ := forall₂_mem_right renewed s' member
    rw [← cfg, same.logSize]
    exact shaped.sized s (layout.segments ▸ isMember)
  · obtain ⟨found, active', late, shape, -, ⟨_, same⟩, nothing⟩ :=
      forall₂_split front [] active _ renewed
    cases nothing
    rw [shape, List.getLast?_concat] at isLast
    obtain rfl := Option.some.inj isLast
    rw [same.logSize, same.nextOffset, same.baseOffset]
    exact shaped.started active layout.last

theorem Rests.resumes (rests : Rests p disk) (quiet : disk.Quiet) (log : Log)
    (start : (p.log.segments.map Segment.baseOffset).head? = some log.logStart)
    (limits : ∀ s ∈ log.segments, s.maxBytes = log.cfg.segmentBytes)
    (segments : log.segments = found.map Prod.fst)
    (all : RecoveredAll disk (p.log.segments.map Segment.baseOffset) found after) :
    Resumes p ⟨log, after, []⟩ := by
  obtain ⟨front, active, old, new, intact⟩ := rests.retained.intact
  have layout := intact.readable.layout
  obtain ⟨renewed, groups⟩ := intact.renewed rests.clean rests.files quiet all
  have matched : List.Forall₂ (fun s s' => ∃ group, Renewed p after s s' group) (front ++ [active])
      log.segments := by
    rw [segments, List.forall₂_map_right_iff]
    exact renewed.imp fun s one renewed' => ⟨one.2, renewed'⟩
  have unsealed : Unsealed ⟨log, after, []⟩ := by
    intro s isLast
    exact (all.last s (segments ▸ isLast)).1
  have bases : log.segments.map Segment.baseOffset = p.log.segments.map Segment.baseOffset := by
    rw [segments, all.bases_eq]
  obtain ⟨found', ⟨active', group⟩, late, rfl, before, last, nothing⟩ :=
    forall₂_split front [] active _ renewed
  cases nothing
  rw [List.map_append, List.map_singleton] at groups
  obtain ⟨rfl, isNew⟩ := List.append_inj' groups rfl
  obtain rfl := List.singleton_inj.mp isNew
  have split : log.segments = found'.map Prod.fst ++ [active'] := by
    rw [segments, List.map_append, List.map_singleton]
  dsimp only at last
  have isLast := all.last active' (by rw [← segments, split, List.getLast?_concat])
  have layout' : Layout ⟨log, after, []⟩ (found'.map Prod.fst) active' := by
    refine layout.transfer split ?_ last.baseOffset ?_ ?_ ?_ isLast.2.1 ?_
    · rw [List.map_map]
      refine map_eq_of_forall₂ (before.imp fun s one renewed' => ?_)
      rw [Function.comp_apply, Segment.span, Segment.span, renewed'.baseOffset, renewed'.nextOffset]
    · rw [last.baseOffset, last.nextOffset]
      exact layout.upward
    · rw [last.nextOffset]
      exact layout.bounded
    · rw [← split]
      intro s' member
      obtain ⟨_, -, _, renewed'⟩ := forall₂_mem_right matched s' member
      exact renewed'.keyed
    · intro suffix key file known
      refine .inl (List.mem_map.mp ?_)
      rw [← split, bases]
      by_contra outside
      rw [all.other suffix key outside, rests.files] at known
      exact outside (layout.owned rests.unsealed suffix key (by rw [known]; rfl))
  have again : Intact ⟨log, after, []⟩ (found'.map Prod.fst) active' (found'.map Prod.snd) group := by
    refine intact.reopened layout' ?_ ?_ last isLast.1 isLast.2.2
    · rw [List.forall₂_map_right_iff]
      exact before.imp fun s one renewed' => ⟨one.2, renewed'⟩
    · rw [List.forall₂_map_left_iff, List.forall₂_map_right_iff, List.forall₂_same]
      intro one member
      obtain ⟨_, -, renewed'⟩ := forall₂_mem_right before one member
      exact renewed'.holds
  refine ⟨⟨⟨_, _, _, _, again⟩, ?_⟩, ?_, unsealed, fun cfg shaped => ?_⟩
  · rw [← List.head?_map, bases, start]
  · exact all.clean quiet (intact.lossless rests.files) (rests.clean.congr rests.files)
  · exact shaped.renewed layout matched cfg (segments ▸ all.front) unsealed limits

theorem Rests.recovers (rests : Rests p disk) (quiet : disk.Quiet) (cfg : Config) :
    Yields (openLog cfg) disk
      (fun log after => log.cfg = cfg ∧
        (p.log.segments.map Segment.baseOffset).head? = some log.logStart ∧
        (∀ s ∈ log.segments, s.maxBytes = log.cfg.segmentBytes) ∧
        ∃ found, log.segments = found.map Prod.fst ∧
          RecoveredAll disk (p.log.segments.map Segment.baseOffset) found after)
      fun _ _ => False := by
  obtain ⟨front, active, old, new, intact⟩ := rests.retained.intact
  have layout := intact.readable.layout
  have listed : segmentBases (disk.stores .log).keys = p.log.segments.map Segment.baseOffset := by
    refine segmentBases_eq _ _ (Store.keys_nodup _) layout.ascending ?_ fun key => ?_
    · intro base member
      obtain ⟨s, isMember, rfl⟩ := List.mem_map.mp member
      exact layout.positive s (layout.segments ▸ isMember)
    · rw [Store.mem_keys, rests.files]
      exact intact.files rests.unsealed key
  have spec := openLog_spec cfg disk (by rw [listed]; simp [layout.segments])
  rw [listed] at spec
  refine spec.mono ?_ fun _ _ noisy => noisy quiet
  rintro log after ⟨rfl, start, limits, found, segments, all⟩
  exact ⟨rfl, start, limits, found, segments, all⟩

theorem Rests.reopen (rests : Rests p disk) (quiet : disk.Quiet) (cfg : Config) :
    Yields (openLog cfg) disk (fun log after => Resumes p ⟨log, after, []⟩ ∧ log.cfg = cfg)
      fun _ _ => False := by
  refine (rests.recovers quiet cfg).mono ?_ fun _ _ impossible => impossible
  rintro log after ⟨same, start, limits, found, segments, all⟩
  exact ⟨rests.resumes quiet log start limits segments all, same⟩

end Reopening

end KafkaWire.Storage
