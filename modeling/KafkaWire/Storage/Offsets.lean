import KafkaWire.Storage.Fresh

/-! The offsets a log hands out. They are consecutive exactly as long as every batch claims
at least one offset and the sum of the claims stays within 63 bits. -/

namespace KafkaWire.Storage

open Bytes Files Programs

/-- The ranges of the stored batches follow one another, each moves the high watermark up,
and no two segments share a base offset. -/
structure Consecutive (p : Partition) : Prop where
  nonempty : ∀ entry ∈ p.journal, entry.firstOffset ≤ entry.lastOffset
  adjacent : p.journal.IsChain fun entry next => next.firstOffset = entry.lastOffset + 1
  rising : (0 :: p.journal.map Stored.highWatermark).IsChain (· < ·)
  bases : (p.log.segments.map Segment.baseOffset).Nodup

/-- The journal began at offset `start`, and the batches in it lie side by side up to the high
watermark. -/
structure Tracked (start : Int) (p : Partition) : Prop where
  first : ∀ entry ∈ p.journal.head?, entry.firstOffset = start
  nonempty : ∀ entry ∈ p.journal, entry.firstOffset ≤ entry.lastOffset
  adjacent : p.journal.IsChain fun entry next => next.firstOffset = entry.lastOffset + 1
  rising : (start :: p.journal.map Stored.highWatermark).IsChain (· < ·)
  ending : (start :: p.journal.map Stored.highWatermark).getLast? = some p.log.highWatermark
  last : ∀ entry ∈ p.journal.getLast?, entry.lastOffset + 1 = p.log.highWatermark

section Steps

variable {whole : Bytes → Prop} {tearing : Prop} {p p' : Partition} {front : List Segment}
  {active : Segment} {start : Int}

theorem tracked_nil (log : Log) (world : World) : Tracked log.highWatermark ⟨log, world, []⟩ :=
  ⟨by simp, by simp, by simp, by simp, by simp, by simp⟩

theorem Tracked.silent (tracked : Tracked start p) (silent : Silent tearing p p') :
    Tracked start p' := by
  obtain ⟨first, nonempty, adjacent, rising, ending, last⟩ := tracked
  rw [← silent.journal] at first nonempty adjacent rising ending last
  rw [← silent.highWatermark] at ending last
  exact ⟨first, nonempty, adjacent, rising, ending, last⟩

theorem Tracked.stored (tracked : Tracked start p) (layout : Layout p front active) {batch : Bytes}
    {done : Appended} {after : World} (long : 61 ≤ batch.length) (counted : 0 < offsetCount batch)
    (fits : active.nextOffset + offsetCount batch < 2 ^ 63)
    (wrote : Wrote active (stamp batch active.nextOffset) p.world done after) :
    Tracked start
      (recordStored batch (stamp batch active.nextOffset) done { p with world := after }) := by
  obtain ⟨base, lastOffset, -⟩ :=
    stamp_offsets batch active.nextOffset long layout.next_positive counted fits
  have next := wrote.nextOffset_stamp long layout.next_positive counted fits
  have high := (layout.stored long counted fits wrote).highWatermark
  rw [next] at high
  have first : done.firstOffset = active.nextOffset := wrote.firstOffset.trans base
  have last : done.lastOffset = active.nextOffset + offsetCount batch - 1 :=
    wrote.lastOffset.trans lastOffset
  have before := layout.highWatermark
  refine ⟨?_, ?_, ?_, ?_, ?_, ?_⟩
  · intro entry isFirst
    cases shape : p.journal with
    | nil =>
      have here : start = p.log.highWatermark := by simpa [shape] using tracked.ending
      simp only [recordStored, shape, List.nil_append, List.head?_cons, Option.mem_def,
        Option.some.injEq] at isFirst
      rw [← isFirst, here, before]
      exact first
    | cons head rest =>
      refine tracked.first entry ?_
      simpa [recordStored, shape] using isFirst
  · intro entry member
    rcases List.mem_append.mp member with old | new
    · exact tracked.nonempty entry old
    · rw [List.mem_singleton.mp new]
      show done.firstOffset ≤ done.lastOffset
      omega
  · refine List.isChain_append.mpr ⟨tracked.adjacent, by simp, ?_⟩
    intro entry isLast new isNew
    simp only [List.head?_cons, Option.mem_def, Option.some.injEq] at isNew
    rw [← isNew]
    show done.firstOffset = entry.lastOffset + 1
    rw [tracked.last entry isLast, first, before]
  · show (start :: (p.journal ++ [_]).map Stored.highWatermark).IsChain (· < ·)
    rw [List.map_append, ← List.cons_append]
    refine List.isChain_append.mpr ⟨tracked.rising, by simp, ?_⟩
    intro entry isLast new isNew
    rw [tracked.ending] at isLast
    simp only [List.map_singleton, List.head?_cons, Option.mem_def, Option.some.injEq]
      at isLast isNew
    rw [← isLast, ← isNew, before, next]
    omega
  · show (start :: (p.journal ++ [_]).map Stored.highWatermark).getLast? = _
    rw [high, List.map_append, ← List.cons_append, List.getLast?_append]
    simp [next]
  · intro entry isLast
    rw [high]
    simp only [recordStored, List.getLast?_append, List.getLast?_singleton, Option.some_or,
      Option.mem_def, Option.some.injEq] at isLast
    rw [← isLast]
    show done.lastOffset + 1 = _
    omega

theorem Effects.tracked (effects : Effects whole tearing p p') (layout : Layout p front active)
    (tracked : Tracked start p) : Tracked start p' := by
  induction effects with
  | refl => exact tracked
  | tail steps effect ih =>
    rcases effect.stored_or_silent with
      ⟨front', active', batch, done, after, segments, -, counted, fits, long, wrote, rfl⟩ | silent
    · obtain ⟨_, _, layout', -⟩ := Effects.layout steps layout
      obtain ⟨rfl, rfl⟩ := segments_unique layout'.segments segments
      exact ih.stored layout' long counted fits wrote
    · exact ih.silent silent

theorem Tracked.consecutive (tracked : Tracked 0 p) (layout : Layout p front active) :
    Consecutive p :=
  ⟨tracked.nonempty, tracked.adjacent, tracked.rising, layout.bases_nodup⟩

end Steps

def Stored.Broken (entry : Stored) : Prop :=
  entry.lastOffset < entry.firstOffset ∨ entry.highWatermark < 0

theorem Consecutive.not_broken {p : Partition} (consecutive : Consecutive p) :
    ∀ entry ∈ p.journal, ¬ entry.Broken := by
  rintro entry member (backwards | negative)
  · have forwards := consecutive.nonempty entry member
    omega
  · have above := List.pairwise_cons.mp (List.isChain_iff_pairwise.mp consecutive.rising)
    have positive := above.1 entry.highWatermark (List.mem_map_of_mem member)
    omega

section Journal

variable {p : Partition}

theorem sys_journal {α : Type} (prog : SysM α) :
    Yields (sys prog) p (fun _ p' => p'.journal = p.journal) (fun _ p' => p'.journal = p.journal) := by
  rw [yields_sys]
  unfold Yields
  cases prog p.world <;> rfl

theorem rollLocked_journal (old : Segment) :
    Yields (rollLocked old) p (fun _ p' => p'.journal = p.journal)
      (fun _ p' => p'.journal = p.journal) := by
  unfold rollLocked
  split
  · rfl
  · simp only [yields_bind, yields_modify, yields_get, yields_pure]
    refine (sys_journal old.seal).mono ?_ fun _ _ same => same
    intro closed p' same
    refine (sys_journal (openSegment _)).mono ?_ ?_
    · intro seg p'' same'
      exact same'.trans same
    · intro _ p'' same'
      exact same'.trans same

theorem appendLoop_first (batch : Bytes) (rest : List Bytes) (active : Segment) (i : Nat)
    (p : Partition)
    (grows : ∀ seg j q, Yields (appendLoop seg rest j) q (fun _ p' => q.journal <+: p'.journal)
      (fun _ p' => q.journal <+: p'.journal)) :
    Yields (appendLoop active (batch :: rest) i) p
      (fun _ p' => ∃ done p₁, sys (active.append (stamp batch active.nextOffset)) p = .ok done p₁ ∧
        (recordStored batch (stamp batch active.nextOffset) done p₁).journal <+: p'.journal)
      (fun _ p' => p.journal <+: p'.journal) := by
  unfold appendLoop
  rw [yields_bind, yields_mapError]
  have kept := sys_journal (p := p) (active.append (stamp batch active.nextOffset))
  refine (yields_ran _ _).mono ?_ fun _ _ ran => kept.of_error ran ▸ List.prefix_rfl
  intro done p₁ ran
  have same := kept.of_ok ran
  rw [yields_bind, yields_modify]
  have grown : p.journal <+: (recordStored batch (stamp batch active.nextOffset) done p₁).journal := by
    rw [← same]
    exact List.prefix_append _ _
  have onwards (seg : Segment) (q : Partition)
      (kept : q.journal = (recordStored batch (stamp batch active.nextOffset) done p₁).journal) :
      Yields (appendLoop seg rest (i + 1)) q
        (fun _ p' => ∃ done p₁, sys (active.append (stamp batch active.nextOffset)) p = .ok done p₁ ∧
          (recordStored batch (stamp batch active.nextOffset) done p₁).journal <+: p'.journal)
        (fun _ p' => p.journal <+: p'.journal) :=
    (grows seg (i + 1) q).mono (fun _ _ more => ⟨done, p₁, ran, kept ▸ more⟩)
      (fun _ _ more => grown.trans (kept ▸ more))
  dsimp only
  split
  · exact onwards done.segment _ rfl
  · rw [yields_bind]
    refine (sys_journal _).mono ?_ fun _ _ kept => kept ▸ grown
    intro full q kept
    split
    · rw [yields_bind, yields_mapError]
      refine (rollLocked_journal done.segment).mono ?_ ?_
      · intro seg r kept'
        exact onwards seg r (kept'.trans kept)
      · intro _ r kept'
        rw [kept', kept]
        exact grown
    · exact onwards done.segment q kept

theorem appendLoop_journal (batches : List Bytes) (active : Segment) (i : Nat) (p : Partition) :
    Yields (appendLoop active batches i) p (fun _ p' => p.journal <+: p'.journal)
      (fun _ p' => p.journal <+: p'.journal) := by
  induction batches generalizing active i p with
  | nil => exact List.prefix_rfl
  | cons batch rest ih =>
    refine (appendLoop_first batch rest active i p ih).mono ?_ fun _ _ more => more
    rintro _ p' ⟨done, p₁, ran, more⟩
    refine List.IsPrefix.trans ?_ more
    rw [← (sys_journal _).of_ok ran]
    exact List.prefix_append _ _

theorem append_journal (paused : Bool) (batches : List Bytes) :
    Yields (append paused batches) p (fun _ p' => p.journal <+: p'.journal)
      (fun _ p' => p.journal <+: p'.journal) := by
  unfold append
  dsimp only
  split
  · exact List.prefix_rfl
  · split
    · exact List.prefix_rfl
    · rw [yields_bind, yields_get]
      split
      · exact List.prefix_rfl
      · next active isLast =>
          have onwards (seg : Segment) (q : Partition) (kept : q.journal = p.journal) :
              Yields (validateAll batches 0 >>= fun _ => appendLoop seg batches 0 >>= fun _ =>
                get >>= fun r => if r.log.cfg.fsyncMode = .always then
                  syncLast >>= fun _ => pure seg.nextOffset else pure seg.nextOffset) q
                (fun _ p' => p.journal <+: p'.journal) (fun _ p' => p.journal <+: p'.journal) := by
            rw [yields_bind]
            refine (validateAll_spec batches 0 q).mono ?_ ?_
            · rintro _ _ ⟨rfl, -⟩
              rw [yields_bind, ← kept]
              refine (appendLoop_journal batches seg 0 q).mono ?_ fun _ _ more => more
              intro _ r more
              rw [yields_bind, yields_get]
              split
              · rw [yields_bind]
                unfold syncLast
                rw [yields_bind, yields_get]
                split
                · rw [yields_mapError]
                  exact (sys_journal _).mono (fun _ _ same => by rw [yields_pure, same]; exact more)
                    (fun _ _ same => by rw [same]; exact more)
                · exact more
              · exact more
            · rintro _ _ ⟨rfl, -⟩
              rw [kept]
          rw [yields_bind]
          refine (sys_journal _).mono ?_ fun _ _ same => same ▸ List.prefix_rfl
          intro full q same
          split
          · rw [yields_bind, yields_mapError]
            refine (rollLocked_journal active).mono ?_ ?_
            · intro seg r same'
              exact onwards seg r (same'.trans same)
            · intro _ r same'
              rw [same', same]
          · exact onwards active q same

theorem appendAll_journal (requests : List (List Bytes)) (p : Partition) :
    Yields (appendAll requests) p (fun _ p' => p.journal <+: p'.journal) (fun _ _ => True) := by
  induction requests generalizing p with
  | nil => exact List.prefix_rfl
  | cons request rest ih =>
    unfold appendAll
    rw [yields_bind]
    refine (append_journal false request).mono ?_ fun _ _ _ => trivial
    intro _ q more
    exact (ih q).mono (fun _ _ more' => more.trans more') fun _ _ _ => trivial

end Journal

section Breaking

variable {p : Partition} {front : List Segment} {active : Segment}

theorem stored_broken (layout : Layout p front active) (batch : Bytes) {done : Appended}
    {after : World} (long : 61 ≤ batch.length)
    (wrote : Wrote active (stamp batch active.nextOffset) p.world done after)
    (unfit : ¬ (0 < offsetCount batch ∧ active.nextOffset + offsetCount batch < 2 ^ 63)) :
    Stored.Broken ⟨batch, stamp batch active.nextOffset, done.firstOffset, done.lastOffset,
      done.segment.nextOffset⟩ := by
  have low := layout.next_positive
  have high := layout.bounded
  have first : done.firstOffset = active.nextOffset := by
    rw [wrote.firstOffset, baseOffset_stamp batch _ long, int64_of_range _ (by omega) high]
  have last : done.lastOffset = int64 (active.nextOffset + (decodeHeader batch).lastOffsetDelta) := by
    rw [wrote.lastOffset, lastOffset_stamp batch _ long, int64_of_range _ (by omega) high]
  have next : done.segment.nextOffset = int64 (done.lastOffset + 1) := by
    rw [wrote.nextOffset, wrote.lastOffset]
  obtain ⟨deltaLow, deltaHigh⟩ := lastOffsetDelta_bounds batch
  unfold Stored.Broken
  dsimp only
  unfold offsetCount at unfit
  by_cases negative : (decodeHeader batch).lastOffsetDelta < 0
  · left
    rw [first, last, int64_of_range _ (by omega) (by omega)]
    omega
  · by_cases wraps : 2 ^ 63 ≤ active.nextOffset + (decodeHeader batch).lastOffsetDelta
    · left
      rw [first, last, int64_overflow _ wraps (by omega)]
      omega
    · right
      rw [next, last, int64_of_range (active.nextOffset + _) (by omega) (by omega),
        int64_overflow _ (by omega) (by omega)]
      omega

theorem appendLoop_broken (batches : List Bytes) (p : Partition) (front : List Segment)
    (active : Segment) (i : Nat) (layout : Layout p front active)
    (accepted : ∀ batch ∈ batches, validateBatchForAppend batch = none)
    (unfit : ¬ Fits active.nextOffset batches) :
    Yields (appendLoop active batches i) p (fun _ p' => ∃ entry ∈ p'.journal, entry.Broken)
      (fun _ _ => True) := by
  induction batches generalizing p front active i with
  | nil => exact absurd ⟨by simp, by simpa using layout.bounded⟩ unfit
  | cons batch rest ih =>
    have acceptedHere := accepted batch List.mem_cons_self
    have long := (validate_ok batch acceptedHere).1.long
    have one := appendOne_spec layout batch acceptedHere (.inl trivial)
    by_cases fits : 0 < offsetCount batch ∧ active.nextOffset + offsetCount batch < 2 ^ 63
    · unfold appendLoop
      rw [yields_bind, yields_mapError]
      refine one.mono ?_ fun _ _ _ => trivial
      rintro done p₁ ⟨-, -, wrote, shape⟩
      rw [shape, yields_bind, yields_modify]
      have layout₂ := layout.stored long fits.1 fits.2 wrote
      have onwards (seg : Segment) (q : Partition)
          (silent : Silent True (recordStored batch (stamp batch active.nextOffset) done
            { p with world := p₁.world }) q)
          (last : q.log.segments.getLast? = some seg) :
          Yields (appendLoop seg rest (i + 1)) q (fun _ p' => ∃ entry ∈ p'.journal, entry.Broken)
            (fun _ _ => True) := by
        obtain ⟨front', layout', next⟩ := silent.last layout₂ last
        refine ih q front' seg (i + 1) layout'
          (fun b isMember => accepted b (List.mem_cons_of_mem _ isMember)) ?_
        rw [next, wrote.nextOffset_stamp long layout.next_positive fits.1 fits.2]
        rintro ⟨counted, room⟩
        refine unfit ⟨List.forall_mem_cons.mpr ⟨fits.1, counted⟩, ?_⟩
        rw [List.map_cons, List.sum_cons]
        omega
      dsimp only
      split
      · exact onwards done.segment _ .refl layout₂.last
      · exact yields_rollCheck True layout₂ _ (fun seg => appendLoop seg rest (i + 1))
          (fun seg q silent last _ => onwards seg q silent last) fun _ _ _ _ => trivial
    · refine (appendLoop_first batch rest active i p (appendLoop_journal rest)).mono ?_
        fun _ _ _ => trivial
      rintro _ p' ⟨done, p₁, ran, more⟩
      obtain ⟨-, -, wrote, -⟩ := one.of_ok ran
      exact ⟨_, more.subset (List.mem_append_right _ (List.mem_singleton_self _)),
        stored_broken layout batch long wrote fits⟩

theorem syncLast_journal (p : Partition) :
    Yields syncLast p (fun _ p' => p'.journal = p.journal) (fun _ p' => p'.journal = p.journal) := by
  unfold syncLast
  rw [yields_bind, yields_get]
  split
  · rw [yields_mapError]
    exact sys_journal _
  · rfl

theorem append_broken (layout : Layout p front active) (paused : Bool) (batches : List Bytes)
    (unfit : ¬ Fits p.log.highWatermark batches) :
    Yields (append paused batches) p (fun _ p' => ∃ entry ∈ p'.journal, entry.Broken)
      (fun _ _ => True) := by
  unfold append
  dsimp only
  split
  · trivial
  · split
    · trivial
    · rw [yields_bind, yields_get, layout.last]
      refine yields_rollCheck True layout _ _ ?_ fun _ _ _ _ => trivial
      intro seg q silent last _
      obtain ⟨front', layout', next⟩ := silent.last layout last
      rw [yields_bind]
      refine (validateAll_spec batches 0 q).mono ?_ fun _ _ _ => trivial
      rintro _ _ ⟨rfl, accepted⟩
      rw [layout.highWatermark, ← next] at unfit
      rw [yields_bind]
      refine (appendLoop_broken batches q front' seg 0 layout' accepted unfit).mono ?_
        fun _ _ _ => trivial
      rintro _ r ⟨entry, member, broken⟩
      rw [yields_bind, yields_get]
      split
      · rw [yields_bind]
        refine (syncLast_journal r).mono ?_ fun _ _ _ => trivial
        intro _ final same
        exact ⟨entry, same ▸ member, broken⟩
      · exact ⟨entry, member, broken⟩

end Breaking

theorem appendAll_consecutive_iff (requests : List (List Bytes)) (p : Partition)
    (front : List Segment) (active : Segment) (layout : Layout p front active)
    (tracked : Tracked 0 p) :
    Yields (appendAll requests) p
      (fun _ final => Consecutive final ↔ Fits p.log.highWatermark requests.flatten)
      (fun _ _ => True) := by
  induction requests generalizing p front active with
  | nil =>
    refine iff_of_true (tracked.consecutive layout) ⟨by simp, ?_⟩
    rw [layout.highWatermark]
    simpa using layout.bounded
  | cons request rest ih =>
    unfold appendAll
    rw [yields_bind, List.flatten_cons, Fits.append_iff]
    by_cases fits : Fits p.log.highWatermark request
    · refine (append_spec (fun _ => True) True layout false request (fun _ _ => trivial)
        (fun _ => fits) (.inl trivial)).mono ?_ fun _ _ _ => trivial
      rintro _ q ⟨completed, -⟩
      obtain ⟨front', active', layout', -⟩ := Effects.layout completed.effects layout
      have tracked' := Effects.tracked completed.effects layout tracked
      rw [← completed.highWatermark]
      simpa only [fits, true_and] using ih q front' active' layout' tracked'
    · refine (append_broken layout false request fits).mono ?_ fun _ _ _ => trivial
      rintro _ q ⟨entry, member, broken⟩
      refine (appendAll_journal rest q).mono ?_ fun _ _ _ => trivial
      intro _ final more
      refine iff_of_false ?_ fun both => fits both.1
      intro consecutive
      exact consecutive.not_broken entry (more.subset member) broken

theorem Fresh.tracked {cfg : Config} {world after : World} {log : Log}
    (fresh : Fresh cfg world log after) : Tracked 0 ⟨log, after, []⟩ := by
  obtain ⟨active, layout, next⟩ := fresh.layout []
  have high : log.highWatermark = 0 := layout.highWatermark.trans next
  rw [← high]
  exact tracked_nil log after

/-- Appends that all succeed hand out consecutive offsets exactly when every batch claims at
least one offset and all of them together fewer than the signed 64-bit range holds. -/
theorem offsets_consecutive_iff (cfg : Config) (world : World) (requests : List (List Bytes))
    (final : Partition) (bare : world.Bare)
    (ran : partitionRun cfg world requests = some final) :
    Consecutive final ↔
      (∀ batch ∈ requests.flatten, 0 ≤ (decodeHeader batch).lastOffsetDelta) ∧
        (requests.flatten.map offsetCount).sum < 2 ^ 63 := by
  obtain ⟨log, opened, opening, appending⟩ := partitionRun_some ran
  obtain ⟨-, fresh⟩ := (openLog_bare cfg world bare).of_ok opening
  obtain ⟨active, layout, next⟩ := fresh.layout []
  rw [(appendAll_consecutive_iff requests _ [] active layout fresh.tracked).of_ok appending,
    layout.highWatermark, next, Fits, zero_add]
  refine and_congr_left fun _ => forall₂_congr fun batch _ => ?_
  unfold offsetCount
  omega

theorem offsets_consecutive_single :
    ∃ final, partitionRun ⟨61, 0, 4096, .none⟩ World.empty [[minimalBatch 0], [minimalBatch 4]] =
      some final ∧ Consecutive final := by
  have runs : (partitionRun ⟨61, 0, 4096, .none⟩ World.empty
      [[minimalBatch 0], [minimalBatch 4]]).isSome = true := by decide +kernel
  obtain ⟨final, ran⟩ := Option.isSome_iff_exists.mp runs
  exact ⟨final, ran,
    (offsets_consecutive_iff _ _ _ final World.bare_empty ran).mpr (by decide +kernel)⟩

/-- A batch that claims minus one offsets takes the log back to offset 0, so that the next
roll opens the file of segment 0 again. -/
theorem offsets_not_consecutive :
    ∃ final, partitionRun ⟨61, 0, 4096, .none⟩ World.empty
        [[minimalBatch 0], [minimalBatch (-2)], [minimalBatch 0]] = some final ∧
      final.journal.map (fun entry => (entry.firstOffset, entry.lastOffset, entry.highWatermark)) =
        [(0, 0, 1), (1, -1, 0), (1, 1, 2)] ∧
      final.log.segments.map Segment.baseOffset = [0, 1, 0] ∧ ¬ Consecutive final := by
  have outcome : (partitionRun ⟨61, 0, 4096, .none⟩ World.empty
      [[minimalBatch 0], [minimalBatch (-2)], [minimalBatch 0]]).map (fun final =>
        (final.journal.map fun entry => (entry.firstOffset, entry.lastOffset, entry.highWatermark),
          final.log.segments.map Segment.baseOffset)) =
      some ([(0, 0, 1), (1, -1, 0), (1, 1, 2)], [0, 1, 0]) := by decide +kernel
  obtain ⟨final, ran, seen⟩ := Option.map_eq_some_iff.mp outcome
  obtain ⟨journal, bases⟩ := Prod.mk.inj seen
  refine ⟨final, ran, journal, bases, ?_⟩
  intro consecutive
  have distinct := consecutive.bases
  rw [bases] at distinct
  exact absurd distinct (by decide)

end KafkaWire.Storage
