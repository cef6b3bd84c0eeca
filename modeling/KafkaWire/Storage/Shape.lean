import KafkaWire.Storage.AppendEffects

/-! The shape that a log keeps as long as no call fails: sealed segments and then one that is not,
none of them larger than the limit and one batch. -/

namespace KafkaWire.Storage

open Bytes Files Programs

structure Shaped (p : Partition) : Prop where
  sealed : ∀ s ∈ p.log.segments.dropLast, s.sealed = true
  unsealed : Unsealed p
  limits : ∀ s ∈ p.log.segments, s.maxBytes = p.log.cfg.segmentBytes
  sized : ∀ s ∈ p.log.segments, (s.logSize : Int) < p.log.cfg.segmentBytes + maxBatchSize
  started : ∀ s, p.log.segments.getLast? = some s → s.logSize ≠ 0 → s.nextOffset ≠ s.baseOffset

theorem Shaped.congr {p p' : Partition} (shaped : Shaped p) (same : p'.log = p.log) : Shaped p' := by
  refine ⟨?_, ?_, ?_, ?_, ?_⟩
  · rw [same]
    exact shaped.sealed
  · rw [Unsealed, same]
    exact shaped.unsealed
  · rw [same]
    exact shaped.limits
  · rw [same]
    exact shaped.sized
  · rw [same]
    exact shaped.started

theorem Shaped.of_segments {p p' : Partition} {front : List Segment} {active : Segment}
    (segments : p'.log.segments = front ++ [active]) (cfg : p'.log.cfg = p.log.cfg)
    (sealed : ∀ s ∈ front, s.sealed = true) (isOpen : active.sealed = false)
    (limits : ∀ s ∈ front ++ [active], s.maxBytes = p.log.cfg.segmentBytes)
    (sized : ∀ s ∈ front ++ [active], (s.logSize : Int) < p.log.cfg.segmentBytes + maxBatchSize)
    (started : active.logSize ≠ 0 → active.nextOffset ≠ active.baseOffset) : Shaped p' := by
  have last (s : Segment) (isLast : p'.log.segments.getLast? = some s) : active = s := by
    rw [segments, List.getLast?_concat] at isLast
    exact Option.some.inj isLast
  refine ⟨?_, ?_, ?_, ?_, ?_⟩
  · rw [segments, List.dropLast_concat]
    exact sealed
  · intro s isLast
    rw [← last s isLast]
    exact isOpen
  · rw [segments, cfg]
    exact limits
  · rw [segments, cfg]
    exact sized
  · intro s isLast
    rw [← last s isLast]
    exact started

section Appending

variable {p : Partition} {front : List Segment} {active : Segment}

theorem validate_length (batch : Bytes) (accepted : validateBatchForAppend batch = none) :
    batch.length ≤ maxBatchSize := by
  simp only [validateBatchForAppend] at accepted
  split at accepted
  · cases accepted
  · split at accepted
    · cases accepted
    · next small => exact not_lt.mp small

theorem Shaped.front_sealed (shaped : Shaped p) (layout : Layout p front active) :
    ∀ s ∈ front, s.sealed = true := by
  have sealed := shaped.sealed
  rw [layout.segments, List.dropLast_concat] at sealed
  exact sealed

theorem rollLocked_shaped (layout : Layout p front active) (quiet : p.world.Quiet)
    (shaped : Shaped p) (limit : 0 < p.log.cfg.segmentBytes)
    (ahead : active.nextOffset ≠ active.baseOffset) :
    Yields (rollLocked active) p
      (fun seg p' => Silent False p p' ∧ p'.log.segments.getLast? = some seg ∧ Shaped p' ∧
        seg.logSize = 0)
      (fun _ _ => False) := by
  have limits := shaped.limits
  have sized := shaped.sized
  rw [layout.segments] at limits sized
  unfold rollLocked
  rw [if_neg ahead]
  simp only [yields_bind, yields_modify, yields_get, yields_sys, yields_pure]
  refine (active.seal_spec p.world).mono ?_ fun _ _ failed => quiet.not_blocked 3 failed.1
  rintro _ middle ⟨rfl, spent, synced⟩
  have layout' := layout.closed synced
  have closing : Silent False p _ := .single (.closed layout.segments spent.later synced)
  refine (openSegment_vacant _ middle (layout'.vacant ahead)).mono ?_
    fun _ _ failed => (spent.later.quiet quiet).not_blocked 6 failed.1
  rintro _ after ⟨-, opening, added, idxFd, tixFd, createdAt, rfl⟩
  have segments := congrArg (· ++ [emptySegment (segmentOpts p.log.cfg active.nextOffset)
    (middle.stores .log).nextFd idxFd tixFd createdAt])
    (setActive_segments p.log front active { active with sealed := true } layout.segments)
  refine ⟨closing.tail (.rolled idxFd tixFd createdAt layout'.segments rfl ahead opening added),
    by simp [Log.setActive], Shaped.of_segments (p := p) segments rfl ?_ rfl ?_ ?_ ?_, rfl⟩
  · refine List.forall_mem_append.mpr ⟨shaped.front_sealed layout, ?_⟩
    simp
  · refine List.forall_mem_append.mpr ⟨List.forall_mem_append.mpr ⟨?_, ?_⟩, ?_⟩
    · exact fun s member => limits s (List.mem_append_left _ member)
    · simpa using limits active (by simp)
    · simp [emptySegment, segmentOpts]
  · refine List.forall_mem_append.mpr ⟨List.forall_mem_append.mpr ⟨?_, ?_⟩, ?_⟩
    · exact fun s member => sized s (List.mem_append_left _ member)
    · simpa using sized active (by simp)
    · simp only [List.mem_singleton, forall_eq, emptySegment]
      omega
  · exact fun filled => absurd rfl filled

theorem rollCheck_shaped {α : Type} {post : α → Partition → Prop} {failed : Err → Partition → Prop}
    (layout : Layout p front active) (quiet : p.world.Quiet) (shaped : Shaped p)
    (limit : 0 < p.log.cfg.segmentBytes) (rename : Err → Err) (next : Segment → LogM α)
    (onwards : ∀ seg p', Silent False p p' → p'.log.segments.getLast? = some seg → Shaped p' →
      (seg.logSize : Int) < p.log.cfg.segmentBytes → Yields (next seg) p' post failed) :
    Yields (sys active.shouldRoll >>= fun full =>
      if full = true then mapError rename (rollLocked active) >>= next
      else pure active >>= next) p post failed := by
  rw [yields_bind, yields_sys]
  refine (active.shouldRoll_spec p.world).mono ?_ fun _ _ impossible => impossible.elim
  rintro _ checked ⟨rfl, same, pending⟩
  have later : Later p.world checked := by
    rw [Later, pending]
    exact List.drop_suffix _ _
  have idle : Silent False p { p with world := checked } := .single (.idle later same)
  have layout' := layout.idle same
  have shaped' : Shaped { p with world := checked } := shaped.congr rfl
  have limits : active.maxBytes = p.log.cfg.segmentBytes :=
    shaped.limits active (by simp [layout.segments])
  by_cases full : active.rolls p.world = true
  · rw [if_pos full, yields_bind, yields_mapError]
    have filled : active.logSize ≠ 0 := (decide_eq_true_iff.mp full).1
    refine (rollLocked_shaped layout' (later.quiet quiet) shaped' limit
      (shaped.started active layout.last filled)).mono ?_ fun _ _ impossible => impossible.elim
    rintro seg p' ⟨silent, last, shaped'', empty⟩
    exact onwards seg p' (idle.trans silent) last shaped'' (by omega)
  · rw [if_neg full, yields_bind, yields_pure]
    refine onwards active _ idle layout'.last shaped' ?_
    by_contra large
    refine full (decide_eq_true_iff.mpr ⟨?_, .inl ⟨?_, ?_⟩⟩) <;> omega

theorem Shaped.stored (shaped : Shaped p) (layout : Layout p front active) {batch : Bytes}
    {done : Appended} {after : World} (accepted : validateBatchForAppend batch = none)
    (counted : 0 < offsetCount batch) (room : active.nextOffset + offsetCount batch < 2 ^ 63)
    (small : (active.logSize : Int) < p.log.cfg.segmentBytes)
    (wrote : Wrote active (stamp batch active.nextOffset) p.world done after) :
    Shaped (recordStored batch (stamp batch active.nextOffset) done { p with world := after }) := by
  have long := (validate_ok batch accepted).1.long
  have short := validate_length batch accepted
  have limits := shaped.limits
  have sized := shaped.sized
  rw [layout.segments] at limits sized
  have upward := layout.upward
  have shape := wrote.segment.shape
  refine Shaped.of_segments (p := p) (setActive_segments _ _ _ _ layout.segments) rfl
    (shaped.front_sealed layout) wrote.isOpen ?_ ?_ fun _ => ?_
  · refine List.forall_mem_append.mpr ⟨fun s member => limits s (List.mem_append_left _ member), ?_⟩
    rw [List.forall_mem_singleton, shape]
    exact limits active (by simp)
  · refine List.forall_mem_append.mpr ⟨fun s member => sized s (List.mem_append_left _ member), ?_⟩
    rw [List.forall_mem_singleton, wrote.logSize, stamp_length batch _ long]
    omega
  · rw [wrote.nextOffset_stamp long layout.next_positive counted room, wrote.baseOffset]
    omega

theorem appendLoop_shaped (batches : List Bytes) (p : Partition) (front : List Segment)
    (active : Segment) (i : Nat) (layout : Layout p front active) (quiet : p.world.Quiet)
    (shaped : Shaped p) (limit : 0 < p.log.cfg.segmentBytes)
    (small : (active.logSize : Int) < p.log.cfg.segmentBytes)
    (accepted : ∀ batch ∈ batches, validateBatchForAppend batch = none)
    (fits : Fits active.nextOffset batches) :
    Yields (appendLoop active batches i) p (fun _ p' => Shaped p') (fun _ _ => False) := by
  induction batches generalizing p front active i with
  | nil => exact shaped
  | cons batch rest ih =>
    have acceptedHere := accepted batch List.mem_cons_self
    have long := (validate_ok batch acceptedHere).1.long
    obtain ⟨counted, room⟩ := fits.head
    unfold appendLoop
    rw [yields_bind, yields_mapError]
    have allowed : True ∨ p.world.Calm := .inl trivial
    refine (appendOne_spec layout batch acceptedHere allowed).mono ?_ ?_
    · rintro done p₁ ⟨-, -, wrote, shape⟩
      rw [shape, yields_bind, yields_modify]
      have layout₂ := layout.stored long counted room wrote
      have shaped₂ := shaped.stored layout acceptedHere counted room small wrote
      have quiet₂ : p₁.world.Quiet := (Later.trans p.world.pending_advance wrote.later).quiet quiet
      -- The rest of the loop, from any state that a check for a roll may lead to.
      have onwards (q : Partition) (seg : Segment)
          (silent : Silent False (recordStored batch (stamp batch active.nextOffset) done
            { p with world := p₁.world }) q)
          (last : q.log.segments.getLast? = some seg) (shaped' : Shaped q)
          (small' : rest ≠ [] → (seg.logSize : Int) < p.log.cfg.segmentBytes) :
          Yields (appendLoop seg rest (i + 1)) q (fun _ p' => Shaped p') (fun _ _ => False) := by
        obtain ⟨front', layout', next⟩ := silent.last layout₂ last
        have cfg : q.log.cfg = p.log.cfg := (Effects.cfg silent).trans rfl
        cases rest with
        | nil => exact shaped'
        | cons second others =>
          refine ih q front' seg (i + 1) layout' ((Effects.later silent).quiet quiet₂) shaped'
            (by rw [cfg]; exact limit) (by rw [cfg]; exact small' (by simp))
            (fun b isMember => accepted b (List.mem_cons_of_mem _ isMember)) ?_
          rw [next, wrote.nextOffset_stamp long layout.next_positive counted room]
          exact fits.tail
      split
      · next done' =>
          rw [yields_bind, yields_pure]
          refine onwards _ done.segment .refl layout₂.last shaped₂ fun more => ?_
          exact absurd (List.isEmpty_iff.mp done') more
      · exact rollCheck_shaped layout₂ quiet₂ shaped₂ limit _
          (fun seg => appendLoop seg rest (i + 1))
          fun seg q silent last shaped' small' => onwards q seg silent last shaped' fun _ => small'
    · rintro _ p' ⟨-, isSealed | blocked⟩
      · rw [shaped.unsealed active layout.last] at isSealed
        cases isSealed
      · exact quiet.not_blocked 1 blocked

theorem append_shaped (layout : Layout p front active) (quiet : p.world.Quiet) (shaped : Shaped p)
    (limit : 0 < p.log.cfg.segmentBytes) (paused : Bool) (batches : List Bytes)
    (fits : paused = false → (∀ batch ∈ batches, validateBatchForAppend batch = none) →
      Fits p.log.highWatermark batches) :
    Yields (append paused batches) p (fun _ p' => Shaped p') (fun _ p' => Shaped p') := by
  unfold append
  dsimp only
  split
  · exact shaped
  · next running =>
    split
    · exact shaped
    · rw [yields_bind, yields_get, layout.last]
      refine rollCheck_shaped layout quiet shaped limit _ _ fun seg q silent last shaped' small => ?_
      obtain ⟨front', layout', next⟩ := silent.last layout last
      have cfg : q.log.cfg = p.log.cfg := Effects.cfg silent
      rw [yields_bind]
      refine (validateAll_spec batches 0 q).mono ?_ ?_
      · rintro _ _ ⟨rfl, accepted⟩
        have fits' := fits (Bool.eq_false_iff.mpr running) accepted
        rw [layout.highWatermark, ← next] at fits'
        rw [yields_bind]
        refine (appendLoop_shaped batches q front' seg 0 layout' ((Effects.later silent).quiet quiet)
          shaped' (by rw [cfg]; exact limit) (by rw [cfg]; exact small) accepted fits').mono ?_
          fun _ _ impossible => impossible.elim
        intro _ r final
        rw [yields_bind, yields_get]
        split
        · rw [yields_bind]
          unfold syncLast
          rw [yields_bind, yields_get]
          split
          · rw [yields_mapError, yields_sys]
            exact (yields_ran _ _).mono (fun _ _ _ => final.congr rfl) fun _ _ _ => final.congr rfl
          · exact final
        · exact final
      · rintro _ _ ⟨rfl, -⟩
        exact shaped'

end Appending

end KafkaWire.Storage
