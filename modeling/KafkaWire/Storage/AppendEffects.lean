import KafkaWire.Storage.Layout

/-! Appending to a log is a sequence of effects, whatever the operating system answers. -/

namespace KafkaWire.Storage

open Bytes Files Programs

variable {next : Int} {refused : Prop} {batches : List Bytes} {r : Partition}

def Fits (next : Int) (batches : List Bytes) : Prop :=
  (∀ batch ∈ batches, 0 < offsetCount batch) ∧ next + (batches.map offsetCount).sum < 2 ^ 63

instance (next : Int) (batches : List Bytes) : Decidable (Fits next batches) :=
  inferInstanceAs (Decidable (_ ∧ _))

theorem sum_offsetCount_nonneg (batches : List Bytes)
    (counted : ∀ batch ∈ batches, 0 < offsetCount batch) : 0 ≤ (batches.map offsetCount).sum := by
  apply List.sum_nonneg
  intro count member
  obtain ⟨batch, isBatch, rfl⟩ := List.mem_map.mp member
  exact le_of_lt (counted batch isBatch)

theorem Fits.append_iff (next : Int) (first second : List Bytes) :
    Fits next (first ++ second) ↔
      Fits next first ∧ Fits (next + (first.map offsetCount).sum) second := by
  unfold Fits
  rw [List.forall_mem_append, List.map_append, List.sum_append]
  constructor
  · rintro ⟨⟨counted, counted'⟩, room⟩
    have rest := sum_offsetCount_nonneg second counted'
    exact ⟨⟨counted, by omega⟩, counted', by omega⟩
  · rintro ⟨⟨counted, -⟩, counted', room⟩
    exact ⟨⟨counted, counted'⟩, by omega⟩

theorem sum_offsetCount_le {some all : List Bytes} (sub : some.Sublist all)
    (counted : ∀ batch ∈ all, 0 < offsetCount batch) :
    (some.map offsetCount).sum ≤ (all.map offsetCount).sum := by
  refine (sub.map offsetCount).sum_le_sum fun count member => ?_
  obtain ⟨batch, isMember, rfl⟩ := List.mem_map.mp member
  exact le_of_lt (counted batch isMember)

theorem Fits.sublist {some all : List Bytes} (fits : Fits next all)
    (sub : some.Sublist all) : Fits next some := by
  obtain ⟨counted, room⟩ := fits
  have le := sum_offsetCount_le sub counted
  exact ⟨fun batch member => counted batch (sub.subset member), by omega⟩

theorem Fits.head {batch : Bytes} {rest : List Bytes} (fits : Fits next (batch :: rest)) :
    0 < offsetCount batch ∧ next + offsetCount batch < 2 ^ 63 := by
  obtain ⟨counted, room⟩ := fits
  have tail := sum_offsetCount_nonneg rest fun b member => counted b (List.mem_cons_of_mem _ member)
  rw [List.map_cons, List.sum_cons] at room
  exact ⟨counted batch List.mem_cons_self, by omega⟩

theorem Fits.tail {batch : Bytes} {rest : List Bytes} (fits : Fits next (batch :: rest)) :
    Fits (next + offsetCount batch) rest := by
  obtain ⟨counted, room⟩ := fits
  rw [List.map_cons, List.sum_cons] at room
  exact ⟨fun b member => counted b (List.mem_cons_of_mem _ member), by omega⟩

abbrev Silent (tearing : Prop) := Effects (fun _ => False) tearing

section Silence

variable {whole : Bytes → Prop} {tearing : Prop} {p p' : Partition}

theorem Silent.effects (silent : Silent tearing p p') : Effects whole tearing p p' := by
  induction silent with
  | refl => exact .refl
  | tail _ effect ih => exact ih.tail (effect.mono (fun _ impossible => impossible.elim) id)

theorem Effects.weaken (effects : Effects whole False p p') : Effects whole tearing p p' := by
  induction effects with
  | refl => exact .refl
  | tail _ effect ih => exact ih.tail (effect.mono (fun _ holds => holds) False.elim)

theorem Effect.stored_or_silent (effect : Effect whole tearing p p') :
    (∃ front active batch done after, p.log.segments = front ++ [active] ∧ whole batch ∧
      0 < offsetCount batch ∧ active.nextOffset + offsetCount batch < 2 ^ 63 ∧
      61 ≤ batch.length ∧ Wrote active (stamp batch active.nextOffset) p.world done after ∧
      p' = recordStored batch (stamp batch active.nextOffset) done { p with world := after }) ∨
    Silent tearing p p' := by
  cases effect with
  | stored segments member counted fits long wrote =>
    exact .inl ⟨_, _, _, _, _, segments, member, counted, fits, long, wrote, rfl⟩
  | idle later same => exact .inr (.single (.idle later same))
  | tore segments tore allowed => exact .inr (.single (.tore segments tore allowed))
  | synced segments later synced => exact .inr (.single (.synced segments later synced))
  | closed segments later synced => exact .inr (.single (.closed segments later synced))
  | opening segments isSealed ahead opening handles =>
    exact .inr (.single (.opening segments isSealed ahead opening handles))
  | rolled idxFd tixFd createdAt segments isSealed ahead opening added =>
    exact .inr (.single (.rolled idxFd tixFd createdAt segments isSealed ahead opening added))

theorem Effect.cfg (effect : Effect whole tearing p p') : p'.log.cfg = p.log.cfg := by
  cases effect <;> rfl

theorem Effects.cfg (effects : Effects whole tearing p p') : p'.log.cfg = p.log.cfg := by
  induction effects with
  | refl => rfl
  | tail _ effect ih => rw [effect.cfg, ih]

theorem Effect.later (effect : Effect whole tearing p p') : Later p.world p'.world := by
  cases effect with
  | idle later same => exact later
  | tore segments tore allowed =>
    obtain ⟨count, -, rfl⟩ := tore
    exact p.world.pending_advance
  | stored segments member counted fits long wrote =>
    exact Later.trans p.world.pending_advance wrote.later
  | synced segments later synced => exact later
  | closed segments later synced => exact later
  | opening segments isSealed ahead opening handles => exact opening.later
  | rolled idxFd tixFd createdAt segments isSealed ahead opening added => exact opening.later

theorem Effects.later (effects : Effects whole tearing p p') : Later p.world p'.world := by
  induction effects with
  | refl => exact Later.refl _
  | tail _ effect ih => exact ih.trans effect.later

theorem Silent.journal (silent : Silent tearing p p') : p'.journal = p.journal := by
  induction silent with
  | refl => rfl
  | tail _ effect ih =>
    rw [← ih]
    cases effect with
    | stored segments member => exact member.elim
    | _ => rfl

theorem Silent.highWatermark (silent : Silent tearing p p') :
    p'.log.highWatermark = p.log.highWatermark := by
  induction silent with
  | refl => rfl
  | tail _ effect ih =>
    rw [← ih]
    cases effect with
    | stored segments member => exact member.elim
    | closed segments later synced => simp [Log.highWatermark, Log.setActive, segments]
    | rolled idxFd tixFd createdAt segments isSealed ahead opening added =>
      simp [Log.highWatermark, segments, emptySegment, segmentOpts]
    | _ => rfl

end Silence

theorem Silent.last {tearing : Prop} {p p' : Partition} {front : List Segment} {active seg : Segment}
    (silent : Silent tearing p p') (layout : Layout p front active)
    (last : p'.log.segments.getLast? = some seg) :
    ∃ front', Layout p' front' seg ∧ seg.nextOffset = active.nextOffset := by
  obtain ⟨front', active', layout', -⟩ := silent.layout layout
  have same : active' = seg := by
    rw [layout'.last] at last
    exact Option.some.inj last
  subst same
  exact ⟨front', layout', by
    rw [← layout'.highWatermark, silent.highWatermark, layout.highWatermark]⟩

theorem yields_sys {α : Type} {p : Partition} {post : α → Partition → Prop}
    {failed : Err → Partition → Prop} (prog : SysM α) :
    Yields (sys prog) p post failed ↔
      Yields prog p.world (fun value world => post value { p with world := world })
        (fun error world => failed error { p with world := world }) :=
  yields_zoom _ _ prog

theorem Segment.seal_spec (s : Segment) (world : World) :
    Yields s.seal world
      (fun closed after => closed = { s with sealed := true } ∧ Spent 3 world after ∧
        Synced s world after)
      (fun _ after => Blocked 3 world ∧ Later world after ∧
        (after.stores = world.stores ∨ Synced s world after)) := by
  unfold Segment.seal
  rw [yields_bind]
  refine (s.sync_spec world).mono ?_ fun _ _ held => held
  rintro _ after ⟨spent, synced⟩
  exact ⟨rfl, spent, synced⟩

section Rolling

variable {tearing : Prop} {p : Partition} {front : List Segment} {active : Segment}

def Segment.rollCalls (s : Segment) : Nat := if s.nextOffset = s.baseOffset then 0 else 9

theorem rollLocked_spec (tearing : Prop) (layout : Layout p front active) :
    Yields (rollLocked active) p
      (fun seg p' => Silent tearing p p' ∧ p'.log.segments.getLast? = some seg ∧
        Spent active.rollCalls p.world p'.world ∧
        (active.nextOffset ≠ active.baseOffset → seg.sealed = false) ∧
        (active.nextOffset = active.baseOffset → seg = active))
      (fun _ p' => Silent tearing p p' ∧ Blocked active.rollCalls p.world) := by
  unfold rollLocked Segment.rollCalls
  split
  · next empty =>
      exact ⟨.refl, layout.last, Spent.zero _, fun ahead => absurd empty ahead, fun _ => rfl⟩
  · next ahead =>
      simp only [yields_bind, yields_modify, yields_get, yields_sys, yields_pure]
      refine (active.seal_spec p.world).mono ?_ ?_
      · rintro _ middle ⟨rfl, spent, synced⟩
        have layout' := layout.closed synced
        have closing : Silent tearing p _ := .single (.closed layout.segments spent.later synced)
        refine (openSegment_vacant _ middle (layout'.vacant ahead)).mono ?_ ?_
        · rintro _ after ⟨spent', opening, added, idxFd, tixFd, createdAt, rfl⟩
          exact ⟨closing.tail (.rolled idxFd tixFd createdAt layout'.segments rfl ahead opening added),
            by simp [Log.setActive], spent.trans spent', fun _ => rfl,
            fun empty => absurd empty ahead⟩
        · rintro _ after ⟨blocked, opening, handles⟩
          exact ⟨closing.tail (.opening layout'.segments rfl ahead opening handles),
            spent.blocked blocked⟩
      · rintro _ after ⟨blocked, later, same | synced⟩
        · exact ⟨.single (.idle later same), blocked.mono (by decide)⟩
        · exact ⟨.single (.synced layout.segments later synced), blocked.mono (by decide)⟩

/-- What keeps the next batch out of the log: the segment is sealed, or a call fails
among those of a roll and the write of the batch. Reading the clock cannot fail. -/
def Segment.Refuses (s : Segment) (world : World) : Prop :=
  if s.rolls world = true ∧ s.nextOffset ≠ s.baseOffset then
    ∃ tick ∈ (world.pending.drop s.clockCalls).take 10, tick.fault ≠ none
  else s.sealed = true ∨ ∃ tick ∈ (world.pending.drop s.clockCalls).take 1, tick.fault ≠ none

theorem yields_rollCheck (tearing : Prop) {α : Type} {post : α → Partition → Prop} {failed : Err → Partition → Prop}
    (layout : Layout p front active) (rename : Err → Err) (next : Segment → LogM α)
    (onwards : ∀ seg p', Silent tearing p p' → p'.log.segments.getLast? = some seg →
      ((seg.sealed = true ∨ Blocked 1 p'.world) ↔ active.Refuses p.world) →
      Yields (next seg) p' post failed)
    (stuck : ∀ error p', Silent tearing p p' → active.Refuses p.world → failed error p') :
    Yields (sys active.shouldRoll >>= fun full =>
      if full = true then mapError rename (rollLocked active) >>= next
      else pure active >>= next) p post failed := by
  rw [yields_bind, yields_sys]
  refine (active.shouldRoll_spec p.world).mono ?_ fun _ _ impossible => impossible.elim
  rintro _ checked ⟨rfl, same, pending⟩
  have idle : Silent tearing p { p with world := checked } :=
    .single (.idle (by rw [Later, pending]; exact List.drop_suffix _ _) same)
  have layout' := layout.idle same
  by_cases full : active.rolls p.world = true
  · rw [if_pos full, yields_bind, yields_mapError]
    refine (rollLocked_spec tearing layout').mono ?_ ?_
    · rintro seg p' ⟨silent, last, spent, isOpen, isSame⟩
      refine onwards seg p' (idle.trans silent) last ?_
      by_cases empty : active.nextOffset = active.baseOffset
      · rw [Segment.rollCalls, if_pos empty] at spent
        rw [Segment.Refuses, if_neg (by simp [empty]), isSame empty, Blocked, spent.pending, pending,
          List.drop_zero]
      · rw [Segment.rollCalls, if_neg empty] at spent
        rw [Segment.Refuses, if_pos ⟨full, empty⟩, isOpen empty, ← pending]
        constructor
        · rintro (impossible | blocked)
          · cases impossible
          · exact spent.blocked blocked
        · rintro ⟨tick, found, faulty⟩
          rw [show 10 = 9 + 1 from rfl, List.take_add, List.mem_append] at found
          rcases found with early | late
          · exact absurd (spent.clean tick early) faulty
          · exact .inr ⟨tick, by rw [spent.pending]; exact late, faulty⟩
    · rintro error p' ⟨silent, blocked⟩
      refine stuck _ p' (idle.trans silent) ?_
      by_cases empty : active.nextOffset = active.baseOffset
      · rw [Segment.rollCalls, if_pos empty] at blocked
        obtain ⟨tick, found, -⟩ := blocked
        simp at found
      · rw [Segment.rollCalls, if_neg empty] at blocked
        rw [Segment.Refuses, if_pos ⟨full, empty⟩, ← pending]
        exact blocked.mono (by decide)
  · rw [if_neg full, yields_bind, yields_pure]
    refine onwards active _ idle layout'.last ?_
    rw [Segment.Refuses, if_neg (fun both => full both.1), ← pending]
    rfl

end Rolling

section Storing

variable {whole : Bytes → Prop} {tearing : Prop} {p : Partition} {front : List Segment}
  {active : Segment}

theorem takes_stamp (batch : Bytes) (accepted : validateBatchForAppend batch = none)
    (isOpen : active.sealed = false) (offset : Int) : active.Takes (stamp batch offset) := by
  obtain ⟨ok, crc, attributes⟩ := validate_ok batch accepted
  refine ⟨isOpen, headerOk_stamp batch offset ok, ?_, ?_⟩
  · rw [validateCRC_stamp batch offset ok.long, crc]
  · rw [decodeHeader_stamp batch offset ok.long]
    exact attributes

theorem appendOne_spec (layout : Layout p front active) (batch : Bytes)
    (accepted : validateBatchForAppend batch = none) (allowed : tearing ∨ p.world.Calm) :
    Yields (sys (active.append (stamp batch active.nextOffset))) p
      (fun done p' => active.sealed = false ∧ ¬ Blocked 1 p.world ∧
        Wrote active (stamp batch active.nextOffset) p.world done p'.world ∧
        p' = { p with world := p'.world })
      (fun _ p' => Silent tearing p p' ∧ (active.sealed = true ∨ Blocked 1 p.world)) := by
  rw [yields_sys]
  refine (active.append_spec _ p.world layout.active_keyed).mono ?_ ?_
  · intro done after wrote
    exact ⟨wrote.unsealed, (Spent.advance wrote.answered).not_blocked, wrote, rfl⟩
  · rintro _ after (⟨refused, rfl⟩ | tore)
    · refine ⟨.refl, .inl ?_⟩
      by_contra isOpen
      exact refused (takes_stamp batch accepted (by simpa using isOpen) _)
    · obtain ⟨count, faulty, -⟩ := id tore
      refine ⟨.single (.tore layout.segments tore ?_), .inr (blocked_next (by simp [faulty]))⟩
      rcases allowed with tears | calm
      · exact .inl tears
      · rcases calm.next with none | zero
        · simp [faulty] at none
        · exact .inr zero

structure Completed (whole : Bytes → Prop) (p : Partition) (batches : List Bytes)
    (p' : Partition) : Prop where
  effects : Effects whole False p p'
  journal : p'.journal.map Stored.sent = p.journal.map Stored.sent ++ batches
  highWatermark : p'.log.highWatermark = p.log.highWatermark + (batches.map offsetCount).sum

/-- An append of `batches` that began in `p` failed in `p'`: without a trace when it was
`refused`, and otherwise with a first part of the batches stored. -/
structure Failed (whole : Bytes → Prop) (tearing refused : Prop) (p : Partition)
    (batches : List Bytes) (p' : Partition) : Prop where
  effects : Effects whole tearing p p'
  kept : ∃ kept, kept <+: batches ∧
    p'.journal.map Stored.sent = p.journal.map Stored.sent ++ kept
  reason : refused ∧ Silent tearing p p' ∨ ¬ refused ∧ p.log.highWatermark < p'.log.highWatermark

theorem Failed.silent {p p' : Partition}
    (silent : Silent tearing p p') (holds : refused) : Failed whole tearing refused p batches p' :=
  ⟨silent.effects, ⟨[], List.nil_prefix, by rw [silent.journal, List.append_nil]⟩,
    .inl ⟨holds, silent⟩⟩

section Loop

variable {p q p' : Partition} {front : List Segment} {active seg : Segment} {batch : Bytes}
  {rest : List Bytes} {done : Appended} {after : World} (layout : Layout p front active)
  (long : 61 ≤ batch.length) (counted : 0 < offsetCount batch)
  (room : active.nextOffset + offsetCount batch < 2 ^ 63) (member : whole batch)
  (wrote : Wrote active (stamp batch active.nextOffset) p.world done after)
  (silent : Silent False (recordStored batch (stamp batch active.nextOffset) done
    { p with world := after }) q)

include layout long counted room wrote silent

theorem stored_then_silent_highWatermark :
    q.log.highWatermark = p.log.highWatermark + offsetCount batch := by
  have layout' := layout.stored long counted room wrote
  rw [silent.highWatermark, layout'.highWatermark, layout.highWatermark,
    wrote.nextOffset_stamp long layout.next_positive counted room]

include member

theorem stored_then_silent_effects : Effects whole False p q := by
  have storing : Effects whole False p _ :=
    .single (.stored layout.segments member counted room long wrote)
  exact storing.trans silent.effects

theorem Completed.cons (tail : Completed whole q rest p') :
    Completed whole p (batch :: rest) p' := by
  refine ⟨(stored_then_silent_effects layout long counted room member wrote silent).trans tail.effects,
    ?_, ?_⟩
  · rw [tail.journal, silent.journal]
    simp [recordStored]
  · rw [tail.highWatermark, stored_then_silent_highWatermark layout long counted room wrote silent,
      List.map_cons, List.sum_cons]
    omega

theorem Failed.cons {refused' : Prop} {front' : List Segment} (fresh : ¬ refused')
    (layout' : Layout q front' seg) (tail : Failed whole tearing refused q rest p') :
    Failed whole tearing refused' p (batch :: rest) p' := by
  have storing := stored_then_silent_effects layout long counted room member wrote silent
  refine ⟨Relation.ReflTransGen.trans (Effects.weaken storing) tail.effects, ?_,
    .inr ⟨fresh, ?_⟩⟩
  · obtain ⟨kept, inside, journal⟩ := tail.kept
    refine ⟨batch :: kept, (List.prefix_cons_inj batch).mpr inside, ?_⟩
    rw [journal, silent.journal]
    simp [recordStored]
  · obtain ⟨_, _, layout'', le⟩ := Effects.layout tail.effects layout'
    have grown := stored_then_silent_highWatermark layout long counted room wrote silent
    rw [layout'.highWatermark] at grown
    rw [layout''.highWatermark]
    omega

end Loop

def Unsealed (p : Partition) : Prop :=
  ∀ active, p.log.segments.getLast? = some active → active.sealed = false

theorem appendLoop_spec (whole : Bytes → Prop) (tearing : Prop) (batches : List Bytes)
    (p : Partition) (front : List Segment) (active : Segment) (i : Nat) (layout : Layout p front active)
    (accepted : ∀ batch ∈ batches, validateBatchForAppend batch = none)
    (member : ∀ batch ∈ batches, whole batch) (fits : Fits active.nextOffset batches)
    (allowed : tearing ∨ p.world.Calm) :
    Yields (appendLoop active batches i) p
      (fun _ p' => Completed whole p batches p' ∧
        (batches ≠ [] → active.sealed = false ∧ ¬ Blocked 1 p.world) ∧
        ((batches = [] → active.sealed = false) → Unsealed p'))
      (fun _ p' => Failed whole tearing (active.sealed = true ∨ Blocked 1 p.world) p batches p') := by
  induction batches generalizing p front active i with
  | nil =>
    refine ⟨⟨.refl, by simp, by simp⟩, fun nonempty => absurd rfl nonempty, ?_⟩
    intro isOpen last isLast
    obtain rfl : active = last := Option.some.inj (layout.last.symm.trans isLast)
    exact isOpen rfl
  | cons batch rest ih =>
    have acceptedHere := accepted batch List.mem_cons_self
    have memberHere := member batch List.mem_cons_self
    have long := (validate_ok batch acceptedHere).1.long
    obtain ⟨counted, room⟩ := fits.head
    unfold appendLoop
    rw [yields_bind, yields_mapError]
    refine (appendOne_spec layout batch acceptedHere allowed).mono ?_ ?_
    · rintro done p₁ ⟨isOpen, unblocked, wrote, shape⟩
      rw [shape, yields_bind, yields_modify]
      have layout₂ := layout.stored long counted room wrote
      have fresh : ¬ (active.sealed = true ∨ Blocked 1 p.world) := by simp [isOpen, unblocked]
      -- The rest of the loop, from any state that a check for a roll may lead to.
      have onwards (q : Partition) (seg : Segment)
          (silent : Silent False (recordStored batch (stamp batch active.nextOffset) done
            { p with world := p₁.world }) q)
          (last : q.log.segments.getLast? = some seg) (ready : rest = [] → seg.sealed = false) :
          Yields (appendLoop seg rest (i + 1)) q
            (fun _ p' => Completed whole p (batch :: rest) p' ∧
              (batch :: rest ≠ [] → active.sealed = false ∧ ¬ Blocked 1 p.world) ∧
              ((batch :: rest = [] → active.sealed = false) → Unsealed p'))
            (fun _ p' => Failed whole tearing (active.sealed = true ∨ Blocked 1 p.world) p
              (batch :: rest) p') := by
        obtain ⟨front', layout', next⟩ := silent.last layout₂ last
        have later := Effects.later
          (stored_then_silent_effects layout long counted room memberHere wrote silent)
        refine (ih q front' seg (i + 1) layout'
          (fun b isMember => accepted b (List.mem_cons_of_mem _ isMember))
          (fun b isMember => member b (List.mem_cons_of_mem _ isMember)) ?_
          (allowed.imp_right later.calm)).mono ?_ ?_
        · rw [next, wrote.nextOffset_stamp long layout.next_positive counted room]
          exact fits.tail
        · rintro _ p' ⟨completed, -, unsealed⟩
          exact ⟨completed.cons layout long counted room memberHere wrote silent,
            fun _ => ⟨isOpen, unblocked⟩, fun _ => unsealed ready⟩
        · intro _ p' failed
          exact failed.cons layout long counted room memberHere wrote silent fresh layout'
      split
      · rw [yields_bind, yields_pure]
        exact onwards _ done.segment .refl layout₂.last fun _ => wrote.isOpen
      · next more =>
          refine yields_rollCheck False layout₂ _ (fun seg => appendLoop seg rest (i + 1))
            (fun seg q silent last _ => onwards q seg silent last fun empty => ?_) ?_
          · exact absurd (List.isEmpty_iff.mpr empty) more
          · intro _ q silent _
            exact (Failed.silent (Effects.weaken silent) trivial).cons layout long counted room
              memberHere wrote .refl fresh layout₂
    · rintro _ p' ⟨silent, why⟩
      exact Failed.silent silent why

theorem validateAll_spec (batches : List Bytes) (i : Nat) (p : Partition) :
    Yields (validateAll batches i) p
      (fun _ p' => p = p' ∧ ∀ batch ∈ batches, validateBatchForAppend batch = none)
      (fun _ p' => p = p' ∧ ∃ batch ∈ batches, validateBatchForAppend batch ≠ none) := by
  induction batches generalizing i with
  | nil => exact ⟨rfl, by simp⟩
  | cons batch rest ih =>
    unfold validateAll
    split
    · next err rejected => exact ⟨rfl, batch, List.mem_cons_self, by simp [rejected]⟩
    · next accepted =>
        refine (ih (i + 1)).mono ?_ ?_
        · rintro _ p' ⟨same, all⟩
          exact ⟨same, List.forall_mem_cons.mpr ⟨accepted, all⟩⟩
        · rintro _ p' ⟨same, found, isMember, rejected⟩
          exact ⟨same, found, List.mem_cons_of_mem _ isMember, rejected⟩

def Refused (p : Partition) (paused : Bool) (batches : List Bytes) : Prop :=
  paused = true ∨ batches = [] ∨ (∃ batch ∈ batches, validateBatchForAppend batch ≠ none) ∨
    ∀ active, p.log.segments.getLast? = some active → active.Refuses p.world

theorem refused_of_unchecked {p : Partition} {paused : Bool} {batches : List Bytes}
    (unchecked : ¬ (paused = false ∧ ∀ batch ∈ batches, validateBatchForAppend batch = none)) :
    Refused p paused batches := by
  rcases not_and_or.mp unchecked with isPaused | rejected
  · exact .inl (by simpa using isPaused)
  · exact .inr (.inr (.inl (by simpa using rejected)))

def TailSynced (p : Partition) : Prop :=
  ∀ active file, p.log.segments.getLast? = some active →
    (p.world.stores .log).lookup active.logFile.key = some file → file.synced = file.data

theorem syncLast_spec (tearing : Prop) (layout : Layout p front active) :
    Yields syncLast p
      (fun _ p' => Silent tearing p p' ∧ p'.log = p.log ∧ TailSynced p')
      (fun _ p' => Silent tearing p p') := by
  unfold syncLast
  rw [yields_bind, yields_get, layout.last]
  rw [yields_mapError, yields_sys]
  refine (active.sync_spec p.world).mono ?_ ?_
  · rintro _ after ⟨spent, synced⟩
    refine ⟨.single (.synced layout.segments spent.later synced), rfl, ?_⟩
    intro last file isLast found
    obtain rfl : active = last := Option.some.inj (layout.last.symm.trans isLast)
    rw [synced.log, Store.lookup_sync, if_pos rfl] at found
    obtain ⟨old, -, rfl⟩ := Option.map_eq_some_iff.mp found
    rfl
  · rintro _ after ⟨-, later, same | synced⟩
    · exact .single (.idle later same)
    · exact .single (.synced layout.segments later synced)

theorem Completed.silent {p q : Partition}
    (completed : Completed whole p batches q) (silent : Silent False q r) :
    Completed whole p batches r :=
  ⟨completed.effects.trans silent.effects, by rw [silent.journal, completed.journal],
    by rw [silent.highWatermark, completed.highWatermark]⟩

theorem Completed.failed {p q : Partition}
    (completed : Completed whole p batches q) (silent : Silent False q r)
    (fresh : ¬ refused) (counted : ∀ batch ∈ batches, 0 < offsetCount batch)
    (nonempty : batches ≠ []) : Failed whole tearing refused p batches r := by
  have completed' := completed.silent silent
  refine ⟨Effects.weaken completed'.effects, ⟨batches, List.prefix_rfl, completed'.journal⟩,
    .inr ⟨fresh, ?_⟩⟩
  cases batches with
  | nil => exact absurd rfl nonempty
  | cons batch rest =>
    have first := counted batch List.mem_cons_self
    have others := sum_offsetCount_nonneg rest
      fun b isMember => counted b (List.mem_cons_of_mem _ isMember)
    rw [completed'.highWatermark, List.map_cons, List.sum_cons]
    omega

theorem Completed.after {p q : Partition} (silent : Silent False p q)
    (completed : Completed whole q batches r) : Completed whole p batches r :=
  ⟨Relation.ReflTransGen.trans silent.effects completed.effects,
    by rw [completed.journal, silent.journal],
    by rw [completed.highWatermark, silent.highWatermark]⟩

theorem Failed.after {refused' : Prop} {p q : Partition}
    (same : refused' ↔ refused) (silent : Silent tearing p q)
    (failed : Failed whole tearing refused' q batches r) : Failed whole tearing refused p batches r :=
  ⟨Relation.ReflTransGen.trans silent.effects failed.effects,
    by rw [← silent.journal]; exact failed.kept,
    by
      rw [← same, ← silent.highWatermark]
      exact failed.reason.imp_left fun ⟨holds, silent'⟩ => ⟨holds, silent.trans silent'⟩⟩

theorem append_spec (whole : Bytes → Prop) (tearing : Prop) (layout : Layout p front active)
    (paused : Bool) (batches : List Bytes) (member : ∀ batch ∈ batches, whole batch)
    (fits : (∀ batch ∈ batches, validateBatchForAppend batch = none) →
      Fits p.log.highWatermark batches)
    (allowed : tearing ∨ p.world.Calm) :
    Yields (append paused batches) p
      (fun first p' => Completed whole p batches p' ∧ first = p.log.highWatermark ∧
        ¬ Refused p paused batches ∧ Unsealed p' ∧
        (p.log.cfg.fsyncMode = .always → TailSynced p'))
      (fun _ p' => Failed whole tearing (Refused p paused batches) p batches p') := by
  unfold append
  dsimp only
  split
  · next isPaused => exact Failed.silent .refl (.inl isPaused)
  · next running =>
      split
      · next empty =>
          exact Failed.silent .refl (.inr (.inl (List.isEmpty_iff.mp empty)))
      · next nonempty =>
          rw [yields_bind, yields_get, layout.last]
          refine yields_rollCheck False layout _ _ ?_ ?_
          · intro seg q silent last refuses
            have rejected : Refused p paused batches ↔
                (∃ batch ∈ batches, validateBatchForAppend batch ≠ none) ∨
                  (seg.sealed = true ∨ Blocked 1 q.world) := by
              rw [refuses]
              simp only [Refused, running, layout.last, Option.some.injEq, forall_eq',
                List.isEmpty_iff] at nonempty ⊢
              simp [nonempty]
            obtain ⟨front', layout', next⟩ := silent.last layout last
            rw [yields_bind]
            refine (validateAll_spec batches 0 q).mono ?_ ?_
            · rintro _ _ ⟨rfl, accepted⟩
              have fits' := fits accepted
              rw [layout.highWatermark, ← next] at fits'
              have stays : Refused p paused batches ↔ seg.sealed = true ∨ Blocked 1 q.world := by
                rw [rejected, or_iff_right]
                rintro ⟨batch, isMember, refused⟩
                exact refused (accepted batch isMember)
              rw [yields_bind]
              refine (appendLoop_spec whole tearing batches q front' seg 0 layout' accepted member fits'
                (allowed.imp_right silent.later.calm)).mono ?_ ?_
              · rintro _ r ⟨completed, clear, unsealed⟩
                have nonempty' : batches ≠ [] := fun empty => nonempty (by simp [empty])
                obtain ⟨isOpen, unblocked⟩ := clear nonempty'
                have fresh : ¬ Refused p paused batches := by simp [stays, isOpen, unblocked]
                have all := completed.after silent
                have open' := unsealed fun empty => absurd empty nonempty'
                have first : seg.nextOffset = p.log.highWatermark := by
                  rw [next, layout.highWatermark]
                rw [yields_bind, yields_get, Effects.cfg all.effects]
                split
                · obtain ⟨_, _, layout'', -⟩ := Effects.layout all.effects layout
                  rw [yields_bind]
                  refine (syncLast_spec False layout'').mono ?_ ?_
                  · rintro _ final ⟨syncing, same, synced⟩
                    exact ⟨all.silent syncing, first, fresh, by rw [Unsealed, same]; exact open',
                      fun _ => synced⟩
                  · intro _ final syncing
                    exact all.failed syncing fresh fits'.1 nonempty'
                · next other => exact ⟨all, first, fresh, open', fun always => absurd always other⟩
              · intro _ r failed
                exact failed.after stays.symm (Effects.weaken silent)
            · rintro _ _ ⟨rfl, found⟩
              exact Failed.silent (Effects.weaken silent) (rejected.mpr (.inl found))
          · intro _ q silent refuses
            refine Failed.silent (Effects.weaken silent) (.inr (.inr (.inr ?_)))
            intro last isLast
            obtain rfl : active = last := Option.some.inj (layout.last.symm.trans isLast)
            exact refuses

/-- A refused request leaves nothing behind, whatever its batches claim. -/
theorem append_refused (tearing : Prop) (layout : Layout p front active) (paused : Bool)
    (batches : List Bytes) (allowed : tearing ∨ p.world.Calm) (refused : Refused p paused batches) :
    Yields (append paused batches) p (fun _ _ => False) (fun _ p' => Silent tearing p p') := by
  unfold append
  dsimp only
  split
  · exact Relation.ReflTransGen.refl
  · next running =>
      split
      · exact Relation.ReflTransGen.refl
      · next nonempty =>
          rw [yields_bind, yields_get, layout.last]
          refine yields_rollCheck tearing layout _ _ ?_ fun _ _ silent _ => silent
          intro seg q silent last refuses
          obtain ⟨front', layout', -⟩ := silent.last layout last
          rw [yields_bind]
          refine (validateAll_spec batches 0 q).mono ?_ ?_
          · rintro _ _ ⟨rfl, accepted⟩
            have stuck : seg.sealed = true ∨ Blocked 1 q.world := by
              rcases refused with isPaused | empty | ⟨batch, isMember, rejected⟩ | blocked
              · exact absurd isPaused running
              · exact absurd (List.isEmpty_iff.mpr empty) nonempty
              · exact absurd (accepted batch isMember) rejected
              · exact refuses.mpr (blocked active layout.last)
            cases batches with
            | nil => exact absurd rfl nonempty
            | cons batch rest =>
              unfold appendLoop
              rw [yields_bind, yields_bind, yields_mapError]
              refine (appendOne_spec layout' batch (accepted batch List.mem_cons_self)
                (allowed.imp_right silent.later.calm)).mono ?_ ?_
              · rintro done _ ⟨isOpen, unblocked, -⟩
                rcases stuck with isSealed | blocked
                · rw [isOpen] at isSealed
                  cases isSealed
                · exact absurd blocked unblocked
              · rintro _ r ⟨silent', -⟩
                exact silent.trans silent'
          · rintro _ _ ⟨rfl, -⟩
            exact silent

end Storing

end KafkaWire.Storage
