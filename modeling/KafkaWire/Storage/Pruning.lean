import KafkaWire.Storage.Reopening
import KafkaWire.Storage.Retained
import KafkaWire.Storage.Shape

/-! The files of a log that is appended to, cut short from the front, and closed. -/

namespace KafkaWire.Storage

open Bytes Files Programs

variable {l l' : LiveLog}

section Appending

variable {p p' : Partition} {front : List Segment} {active : Segment} {old : List (List Bytes)}
  {new : List Bytes}

theorem Intact.data_active (intact : Intact p front active old new) :
    (p.world.stores .log).data active.baseOffset = new.flatten := by
  obtain ⟨kept, -, ⟨mtime, found⟩, -⟩ := intact.new
  exact Store.data_of_lookup _ _ _ found

theorem Intact.vacant_active (intact : Intact p front active old new) (empty : new.flatten = [])
    (indexes : ∀ suffix, suffix ≠ .log → ∀ file,
      (p.world.stores suffix).lookup active.baseOffset = some file → file.data = [] ∧ file.synced = []) :
    Vacant active.baseOffset p.world := by
  intro suffix file found
  by_cases isLog : suffix = .log
  · obtain ⟨kept, inside, ⟨mtime, found'⟩, -⟩ := intact.new
    rw [isLog, found', empty] at found
    cases found
    have nothing := inside.flatten
    rw [empty, List.prefix_nil] at nothing
    exact ⟨rfl, nothing⟩
  · exact indexes suffix isLog file found

theorem Clean.synced {s : Segment} {before after : World} (clean : Clean before)
    (synced : Synced s before after) : Clean after := by
  intro key empty suffix file found
  have data : (before.stores .log).data key = [] := by
    have same := synced.contents .log key
    unfold Store.data at empty ⊢
    cases there : (before.stores .log).lookup key with
    | none => rfl
    | some old =>
      rw [there] at same
      obtain ⟨new, there', same'⟩ := Option.map_eq_some_iff.mp same
      rw [there'] at empty
      exact same'.symm.trans empty
  rcases synced.flushed suffix key with same | flushed
  · exact clean key data suffix file (same ▸ found)
  · rw [flushed] at found
    obtain ⟨old, there, rfl⟩ := Option.map_eq_some_iff.mp found
    have vacant := clean key data suffix old there
    exact ⟨vacant.1, vacant.1⟩

theorem Effect.clean (effect : Effect IsBatch False p p') (intact : Intact p front active old new)
    (clean : Clean p.world) : Clean p'.world := by
  have layout := intact.readable.layout
  cases effect with
  | idle later same => exact clean.congr same
  | tore segments tore allowed =>
    obtain ⟨rfl, rfl⟩ := segments_unique layout.segments segments
    have torn := intact.tore tore (allowed.resolve_left id)
    refine clean.except (tore.other layout.active_keyed) fun empty => ?_
    rw [torn.data_active] at empty
    exact torn.vacant_active empty fun suffix apart => by
      obtain ⟨count, -, rfl⟩ := tore
      have vacant := clean active.baseOffset (by rw [intact.data_active, empty])
      simpa [apart] using vacant suffix
  | stored segments member counted fits long wrote =>
    obtain ⟨rfl, rfl⟩ := segments_unique layout.segments segments
    have written := (intact.stored member counted fits wrote).data_active
    refine clean.except wrote.other fun empty => ?_
    have filled := stamp_length _ active.nextOffset long
    rw [wrote.baseOffset, empty] at written
    have short := congrArg List.length written
    rw [List.flatten_append, List.length_append, List.flatten_singleton, List.length_nil] at short
    omega
  | synced segments later synced => exact clean.synced synced
  | closed segments later synced => exact clean.synced synced
  | opening segments isSealed ahead opening handles =>
    exact clean.except opening.other fun _ => opening.vacant
  | rolled idxFd tixFd createdAt segments isSealed ahead opening added =>
    exact clean.except opening.other fun _ => opening.vacant

theorem Effects.clean (effects : Effects IsBatch False p p') (intact : Intact p front active old new)
    (clean : Clean p.world) : Clean p'.world := by
  induction effects with
  | refl => exact clean
  | tail before effect ih =>
    obtain ⟨front', active', old', new', -, intact', -, -⟩ := Effects.extends before intact
    exact effect.clean intact' ih

end Appending

section Deleting

structure Pruned (l l' : LiveLog) : Prop where
  cfg : l'.partition.log.cfg = l.partition.log.cfg
  segments : l'.segments <:+ l.segments
  last : l'.segments.getLast? = l.segments.getLast?
  files : ∀ key, (∀ suffix, (l'.partition.world.stores suffix).lookup key =
    (l.partition.world.stores suffix).lookup key) ∨
    ∀ suffix, (l'.partition.world.stores suffix).lookup key = none

theorem Pruned.refl (l : LiveLog) : Pruned l l :=
  ⟨rfl, List.suffix_rfl, rfl, fun _ => .inl fun _ => rfl⟩

theorem Pruned.trans {first second third : LiveLog} (front : Pruned first second)
    (back : Pruned second third) : Pruned first third := by
  refine ⟨back.cfg.trans front.cfg, back.segments.trans front.segments, back.last.trans front.last,
    fun key => ?_⟩
  rcases back.files key with same | gone
  · refine (front.files key).imp (fun same' suffix => ?_) fun gone' suffix => ?_
    · rw [same suffix, same' suffix]
    · rw [same suffix, gone' suffix]
  · exact .inr gone

theorem HeadDeleted.prunes {cutoff : Int} (deleted : HeadDeleted cutoff l l') : Pruned l l' := by
  obtain ⟨seg, next, rest, shape, -, shape', removed⟩ := deleted.head
  refine ⟨deleted.cfg, ?_, ?_, fun key => ?_⟩
  · rw [shape, shape']
    exact List.suffix_cons seg (next :: rest)
  · rw [shape, shape']
    exact (List.getLast?_cons_cons).symm
  · by_cases own : key = seg.baseOffset
    · refine .inr fun suffix => ?_
      rw [removed suffix, Store.lookup_remove, if_pos own]
    · exact .inl fun suffix => removed.other suffix own

theorem Deletions.prunes {cutoff : Int} (deletions : Deletions cutoff l l') : Pruned l l' := by
  induction deletions with
  | refl => exact .refl l
  | tail _ deleted ih => exact ih.trans deleted.prunes

theorem deleteSegmentsBefore_prunes (cutoff : Int) (l : LiveLog)
    (quiet : l.partition.world.Quiet) :
    Yields (LiveLog.deleteSegmentsBefore cutoff) l (fun _ l' => Pruned l l') fun _ _ => False := by
  simp only [LiveLog.deleteSegmentsBefore, yields_bind, yields_get, yields_modify, yields_pure]
  refine (deleteLoop_quiet cutoff l quiet).mono (fun _ l' deleted => ?_)
    fun _ _ impossible => impossible
  obtain ⟨deletions, -⟩ := deleted
  refine (Deletions.prunes deletions).trans ?_
  rw [LiveLog.setLogStart]
  split <;> exact ⟨rfl, List.suffix_rfl, rfl, fun _ => .inl fun _ => rfl⟩

theorem Pruned.clean (pruned : Pruned l l') (clean : Clean l.partition.world) :
    Clean l'.partition.world := by
  intro key empty suffix file found
  rcases pruned.files key with same | gone
  · rw [Store.data, same] at empty
    rw [same] at found
    exact clean key empty suffix file found
  · rw [gone] at found
    cases found

theorem Pruned.shaped (pruned : Pruned l l') (shaped : Shaped l.partition) :
    Shaped l'.partition := by
  have member := fun s isMember => pruned.segments.subset (a := s) isMember
  refine ⟨fun s isMember => shaped.sealed s ?_, ?_, ?_, ?_, ?_⟩
  · obtain ⟨gone, shape⟩ := pruned.segments
    have nonempty : l'.segments ≠ [] := List.ne_nil_of_mem (List.mem_of_mem_dropLast isMember)
    show s ∈ l.segments.dropLast
    rw [← shape, List.dropLast_append_of_ne_nil nonempty]
    exact List.mem_append_right _ isMember
  · intro s isLast
    exact shaped.unsealed s (pruned.last ▸ isLast)
  · intro s isMember
    rw [pruned.cfg]
    exact shaped.limits s (member s isMember)
  · intro s isMember
    rw [pruned.cfg]
    exact shaped.sized s (member s isMember)
  · intro s isLast
    exact shaped.started s (pruned.last ▸ isLast)

end Deleting

section Closing

structure Emptied (l l' : LiveLog) : Prop where
  segments : l'.segments = []
  handles : l'.headClosed = false
  files : l'.partition.world.stores = l.partition.world.stores

theorem closeLoop_spec (closed : Bool) (segments : List Segment) (world : World) :
    Yields (LiveLog.closeLoop closed segments) world
      (fun failed after => (Later world after ∧ after.stores = world.stores) ∧
        (failed ≠ none → ¬ world.Quiet)) fun _ _ => False := by
  induction segments generalizing closed world with
  | nil => exact ⟨⟨Later.refl _, rfl⟩, fun some => absurd rfl some⟩
  | cons s rest ih =>
    simp only [LiveLog.closeLoop, yields_bind, yields_pure]
    refine (segmentClose_spec closed world).mono (fun failed middle ⟨⟨later, same⟩, noisy⟩ => ?_)
      fun _ _ impossible => impossible
    refine (ih false middle).mono (fun more after ⟨⟨later', same'⟩, noisy'⟩ => ?_)
      fun _ _ impossible => impossible
    refine ⟨⟨later.trans later', same'.trans same⟩, fun some quiet => ?_⟩
    cases failed with
    | none => exact noisy' some (later.quiet quiet)
    | some err => exact noisy nofun quiet

theorem close_empties (l : LiveLog) :
    Yields LiveLog.close l (fun _ l' => Emptied l l') (fun _ l' => Emptied l l') := by
  simp only [LiveLog.close, yields_bind, yields_get, yields_live, sys, yields_zoom, yields_modify]
  refine (closeLoop_spec _ _ _).mono (fun failed after closed => ?_)
    fun _ _ impossible => impossible.elim
  obtain ⟨⟨-, same⟩, -⟩ := closed
  split <;> exact ⟨rfl, rfl, same⟩

end Closing

end KafkaWire.Storage
