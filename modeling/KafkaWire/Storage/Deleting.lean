import KafkaWire.Storage.Lifecycle

/-! What the deletion of segments does to a log, whether it gets to its end or not. -/

namespace KafkaWire.Storage

open Bytes Files Programs

variable {base : Int} {before after : World}

section Calls

variable {α : Type} {l : LiveLog}

theorem yields_live {prog : LogM α} {post : α → LiveLog → Prop} {failed : Fault → LiveLog → Prop} :
    Yields (live prog) l post failed ↔
      Yields prog l.partition (fun value p => post value { l with partition := p })
        (fun err p => failed (.err err) { l with partition := p }) := by
  simp only [Yields, live]
  cases prog l.partition <;> rfl

end Calls

def Removed (base : Int) (before after : World) : Prop :=
  ∀ suffix, after.stores suffix = (before.stores suffix).remove base

theorem Removed.other {key : Int} (removed : Removed base before after)
    (suffix : Suffix) (apart : key ≠ base) :
    (after.stores suffix).lookup key = (before.stores suffix).lookup key := by
  rw [removed suffix, Store.lookup_remove, if_neg apart]

def Touched (base : Int) (before after : World) : Prop :=
  ∀ suffix key, key ≠ base →
    (after.stores suffix).lookup key = (before.stores suffix).lookup key

theorem Touched.of_stores (same : after.stores = before.stores) : Touched base before after := by
  intro suffix key _
  rw [same]

section Files

variable {world : World}

theorem closeFile_spec (suffix : Suffix) (world : World) :
    Yields (closeFile suffix) world (fun _ after => Later world after ∧ after.stores = world.stores)
      (fun _ after => (Later world after ∧ after.stores = world.stores) ∧ ¬ world.Quiet) := by
  refine (syscall_spec suffix _ world).mono ?_ fun _ after ⟨blocked, later, same⟩ =>
    ⟨⟨later, same⟩, fun quiet => quiet.not_blocked 1 blocked⟩
  rintro _ after ⟨spent, now, -, rfl⟩
  exact ⟨spent.later, withStore_self world suffix⟩

theorem removeFile_spec (suffix : Suffix) (base : Int) (world : World) :
    Yields (removeFile suffix base) world
      (fun _ after => Later world after ∧
        after.stores = (world.withStore suffix ((world.stores suffix).remove base)).stores)
      (fun _ after => (Later world after ∧ after.stores = world.stores) ∧ ¬ world.Quiet) := by
  refine (syscall_spec suffix _ world).mono ?_ fun _ after ⟨blocked, later, same⟩ =>
    ⟨⟨later, same⟩, fun quiet => quiet.not_blocked 1 blocked⟩
  rintro _ after ⟨spent, now, -, rfl⟩
  exact ⟨spent.later, by simp [World.withStore]⟩

theorem firstError_spec (suffixes : List Suffix) (world : World) :
    Yields (firstError (suffixes.map closeFile)) world
      (fun failed after => (Later world after ∧ after.stores = world.stores) ∧
        (failed ≠ none → ¬ world.Quiet)) fun _ _ => False := by
  induction suffixes generalizing world with
  | nil => exact ⟨⟨Later.refl _, rfl⟩, fun some => absurd rfl some⟩
  | cons suffix rest ih =>
    have onwards (failed : Option Err) (middle : World) (later : Later world middle)
        (same : middle.stores = world.stores) (noisy : failed ≠ none → ¬ world.Quiet) :
        Yields (firstError (rest.map closeFile)) middle
          (fun more after => (Later world after ∧ after.stores = world.stores) ∧
            (failed.or more ≠ none → ¬ world.Quiet)) fun _ _ => False := by
      refine (ih middle).mono (fun more after ⟨⟨later', same'⟩, noisy'⟩ => ?_)
        fun _ _ impossible => impossible
      refine ⟨⟨later.trans later', same'.trans same⟩, fun some quiet => ?_⟩
      cases failed with
      | none => exact noisy' some (later.quiet quiet)
      | some err => exact noisy nofun quiet
    simp only [List.map_cons, firstError, yields_bind, yields_orElse, yields_pure]
    refine (closeFile_spec suffix world).mono (fun _ middle ⟨later, same⟩ => ?_)
      fun _ middle ⟨⟨later, same⟩, noisy⟩ => ?_
    · exact onwards none middle later same fun some => absurd rfl some
    · exact onwards (some .io) middle later same fun _ => noisy

theorem segmentClose_spec (closed : Bool) (world : World) :
    Yields (Segment.close closed) world
      (fun failed after => (Later world after ∧ after.stores = world.stores) ∧
        (failed ≠ none → ¬ world.Quiet)) fun _ _ => False := by
  unfold Segment.close
  split
  · exact ⟨⟨Later.refl _, rfl⟩, fun some => absurd rfl some⟩
  · exact firstError_spec [.log, .index, .timeIndex] world

end Files

theorem Touched.trans {first second third : World} (front : Touched base first second)
    (back : Touched base second third) : Touched base first third :=
  fun suffix key apart => (back suffix key apart).trans (front suffix key apart)

theorem Touched.removed {suffix : Suffix}
    (same : after.stores = (before.withStore suffix ((before.stores suffix).remove base)).stores) :
    Touched base before after := by
  intro other key apart
  rw [same, World.stores_withStore]
  split
  · next isSame => rw [isSame, Store.lookup_remove, if_neg apart]
  · rfl

theorem delete_spec (s : Segment) (closed : Bool) (world : World) :
    Yields (s.delete closed) world
      (fun _ after => Later world after ∧ Removed s.baseOffset world after)
      (fun _ after => (Later world after ∧ Touched s.baseOffset world after) ∧ ¬ world.Quiet) := by
  simp only [Segment.delete, yields_bind]
  refine (segmentClose_spec closed world).mono (fun failed first ⟨⟨later₁, same⟩, noisy⟩ => ?_)
    fun _ _ impossible => impossible.elim
  have touched₁ : Touched s.baseOffset world first := .of_stores same
  cases failed with
  | some err => exact ⟨⟨later₁, touched₁⟩, noisy nofun⟩
  | none =>
    simp only [yields_bind, yields_mapError]
    refine (removeFile_spec .log s.baseOffset first).mono (fun _ second ⟨later₂, log⟩ => ?_)
      fun _ second ⟨⟨later₂, same₂⟩, noisy₂⟩ => ⟨⟨later₁.trans later₂, touched₁.trans (.of_stores same₂)⟩,
        fun quiet => noisy₂ (later₁.quiet quiet)⟩
    have later₂ := later₁.trans later₂
    have touched₂ := touched₁.trans (.removed log)
    refine (removeFile_spec .index s.baseOffset second).mono (fun _ third ⟨later₃, index⟩ => ?_)
      fun _ third ⟨⟨later₃, same₃⟩, noisy₃⟩ => ⟨⟨later₂.trans later₃, touched₂.trans (.of_stores same₃)⟩,
        fun quiet => noisy₃ (later₂.quiet quiet)⟩
    have later₃ := later₂.trans later₃
    have touched₃ := touched₂.trans (.removed index)
    refine (removeFile_spec .timeIndex s.baseOffset third).mono
      (fun _ last ⟨later₄, timeIndex⟩ => ⟨later₃.trans later₄, ?_⟩)
      fun _ last ⟨⟨later₄, same₄⟩, noisy₄⟩ => ⟨⟨later₃.trans later₄, touched₃.trans (.of_stores same₄)⟩,
        fun quiet => noisy₄ (later₃.quiet quiet)⟩
    intro suffix
    cases suffix <;> simp [timeIndex, index, log, same]

structure HeadDeleted (cutoff : Int) (l l' : LiveLog) : Prop where
  head : ∃ seg next rest, l.segments = seg :: next :: rest ∧ next.baseOffset ≤ cutoff ∧
    l'.segments = next :: rest ∧ Removed seg.baseOffset l.partition.world l'.partition.world
  later : Later l.partition.world l'.partition.world
  handles : l'.headClosed = false
  cfg : l'.partition.log.cfg = l.partition.log.cfg
  logStart : l'.partition.log.logStart = l.partition.log.logStart
  journal : l'.partition.journal = l.partition.journal

abbrev Deletions (cutoff : Int) := Relation.ReflTransGen (HeadDeleted cutoff)

def LiveLog.Stops (l : LiveLog) (cutoff : Int) : Prop :=
  ∀ seg next rest, l.segments = seg :: next :: rest → cutoff < next.baseOffset

/-- The deletion of the oldest segment has failed: its handles are gone, and perhaps some of its
files, but it is still in the list. -/
structure HeadDamaged (l l' : LiveLog) : Prop where
  head : ∃ seg next rest, l.segments = seg :: next :: rest ∧
    Touched seg.baseOffset l.partition.world l'.partition.world
  log : l'.partition.log = l.partition.log
  handles : l'.headClosed = true
  noisy : ¬ l.partition.world.Quiet

theorem deleteLoop_spec (cutoff : Int) (fuel deleted : Nat) (l : LiveLog)
    (enough : l.segments.length ≤ fuel) :
    Yields (LiveLog.deleteLoop cutoff fuel deleted) l
      (fun count l' => Deletions cutoff l l' ∧ l'.Stops cutoff ∧
        count + l'.segments.length = deleted + l.segments.length)
      (fun fault l' => (∃ err, fault = .err err) ∧ ∃ middle, Deletions cutoff l middle ∧
        HeadDamaged middle l') := by
  induction fuel generalizing deleted l with
  | zero =>
    refine ⟨.refl, fun seg next rest shape => ?_, rfl⟩
    rw [shape] at enough
    simp at enough
  | succ fuel ih =>
    simp only [LiveLog.deleteLoop, yields_bind, yields_get]
    split
    · next seg next rest shape =>
        split
        · next beyond =>
            refine ⟨.refl, fun seg' next' rest' shape' => ?_, rfl⟩
            rw [shape] at shape'
            cases shape'
            exact beyond
        · next low =>
            simp only [yields_bind, yields_modify, yields_live, sys, yields_zoom]
            refine (delete_spec seg l.headClosed l.partition.world).mono
              (fun _ after ⟨later, removed⟩ => ?_) fun err after ⟨⟨later, touched⟩, noisy⟩ => ?_
            · let shorter := LiveLog.setSegments (next :: rest) false
                { (LiveLog.setSegments (seg :: next :: rest) true l) with
                  partition := { (LiveLog.setSegments (seg :: next :: rest) true l).partition with
                    world := after } }
              have head : HeadDeleted cutoff l shorter :=
                ⟨⟨seg, next, rest, shape, not_lt.mp low, rfl, removed⟩, later, rfl, rfl, rfl, rfl⟩
              refine (ih (deleted + 1) shorter ?_).mono
                (fun count l' ⟨deletions, stops, total⟩ => ⟨.head head deletions, stops, ?_⟩)
                fun fault l' ⟨isErr, middle, deletions, damaged⟩ =>
                  ⟨isErr, middle, .head head deletions, damaged⟩
              · rw [shape] at enough
                simpa [shorter, LiveLog.setSegments, LiveLog.segments] using enough
              · rw [total, shape]
                simp only [shorter, LiveLog.setSegments, LiveLog.segments, List.length_cons]
                omega
            · refine ⟨⟨err, rfl⟩, l, .refl, ⟨seg, next, rest, shape, touched⟩, ?_, rfl, noisy⟩
              show { l.partition.log with segments := seg :: next :: rest } = l.partition.log
              rw [← shape]
              rfl
    · next short =>
        refine ⟨.refl, fun seg next rest shape => ?_, rfl⟩
        exact absurd shape (short seg next rest)

section Runs

variable {cutoff : Int} {l l' : LiveLog}

theorem HeadDeleted.partition_eq (deleted : HeadDeleted cutoff l l') :
    l'.partition = { l.partition with
      log := { l.partition.log with segments := l'.segments }
      world := l'.partition.world } := by
  obtain ⟨⟨⟨cfg, segments, logStart⟩, world, journal⟩, headClosed⟩ := l'
  obtain ⟨-, -, -, rfl, rfl, rfl⟩ := deleted
  rfl

theorem Deletions.later (deletions : Deletions cutoff l l') :
    Later l.partition.world l'.partition.world := by
  induction deletions with
  | refl => exact Later.refl _
  | tail _ deleted ih => exact ih.trans deleted.later

theorem Deletions.handles (deletions : Deletions cutoff l l') (handles : l.headClosed = false) :
    l'.headClosed = false := by
  induction deletions with
  | refl => exact handles
  | tail _ deleted _ => exact deleted.handles

theorem deleteLoop_quiet (cutoff : Int) (l : LiveLog) (quiet : l.partition.world.Quiet) :
    Yields (LiveLog.deleteLoop cutoff l.segments.length 0) l
      (fun count l' => Deletions cutoff l l' ∧ l'.Stops cutoff ∧
        count + l'.segments.length = 0 + l.segments.length) fun _ _ => False :=
  (deleteLoop_spec cutoff _ 0 l le_rfl).mono (fun _ _ done => done)
    fun _ _ ⟨_, _, deletions, damaged⟩ => damaged.noisy ((Deletions.later deletions).quiet quiet)

end Runs

end KafkaWire.Storage
