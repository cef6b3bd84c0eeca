import KafkaWire.Storage.Segment

/-! What the segment programs do to the directory, for every answer the operating system
may give. Successes are stated with the number of calls they used up, failures with the
number of calls among which one was answered with a fault. -/

namespace KafkaWire.Storage

open Bytes Files Programs

variable (suffix : Suffix) (s : Segment)

variable {count : Nat} {before after middle world : World} {base : Int}

structure Spent (count : Nat) (before after : World) : Prop where
  pending : after.pending = before.pending.drop count
  clean : ∀ tick ∈ before.pending.take count, tick.fault = none

def Blocked (count : Nat) (before : World) : Prop :=
  ∃ tick ∈ before.pending.take count, tick.fault ≠ none

theorem Spent.later (spent : Spent count before after) : Later before after := by
  rw [Later, spent.pending]
  exact List.drop_suffix count before.pending

theorem Spent.zero (world : World) : Spent 0 world world := ⟨by simp, by simp⟩

theorem Spent.trans {first second : Nat}
    (front : Spent first before middle) (back : Spent second middle after) :
    Spent (first + second) before after := by
  refine ⟨by rw [back.pending, front.pending, List.drop_drop], ?_⟩
  intro tick member
  rw [List.take_add, List.mem_append, ← front.pending] at member
  rcases member with early | late
  · exact front.clean tick early
  · exact back.clean tick late

theorem Spent.blocked {first second : Nat}
    (front : Spent first before middle) (blocked : Blocked second middle) :
    Blocked (first + second) before := by
  obtain ⟨tick, member, faulty⟩ := blocked
  refine ⟨tick, ?_, faulty⟩
  rw [List.take_add, List.mem_append, ← front.pending]
  exact .inr member

theorem Spent.not_blocked (spent : Spent count before after) : ¬ Blocked count before := by
  rintro ⟨tick, member, faulty⟩
  exact faulty (spent.clean tick member)

theorem Blocked.mono {few many : Nat} (blocked : Blocked few world)
    (le : few ≤ many) : Blocked many world := by
  obtain ⟨tick, member, faulty⟩ := blocked
  exact ⟨tick, (List.take_subset_take_left world.pending le) member, faulty⟩

theorem World.Quiet.not_blocked (quiet : world.Quiet) (count : Nat) : ¬ Blocked count world := by
  rintro ⟨tick, member, faulty⟩
  exact faulty (quiet tick (List.mem_of_mem_take member))

theorem Spent.advance (answered : world.next.fault = none) : Spent 1 world world.advance := by
  unfold World.next at answered
  split at answered
  · next empty => exact ⟨by simp [World.advance, empty], by simp [empty]⟩
  · next tick rest shape => exact ⟨by simp [World.advance, shape], by simpa [shape] using answered⟩

theorem blocked_next (faulty : world.next.fault ≠ none) : Blocked 1 world := by
  unfold World.next at faulty
  split at faulty
  · exact absurd rfl faulty
  · next tick rest shape => exact ⟨tick, by simp [shape], faulty⟩

theorem Spent.withStore (spent : Spent count before after)
    (suffix : Suffix) (store : Store Int) : Spent count before (after.withStore suffix store) :=
  ⟨spent.pending, spent.clean⟩

structure Local (base : Int) (before after : World) : Prop where
  later : Later before after
  other : ∀ suffix key, key ≠ base →
    (after.stores suffix).lookup key = (before.stores suffix).lookup key

theorem Local.refl (base : Int) (world : World) : Local base world world :=
  ⟨Later.refl world, fun _ _ _ => rfl⟩

theorem Local.trans {first second third : World} (front : Local base first second)
    (back : Local base second third) : Local base first third := by
  refine ⟨front.later.trans back.later, ?_⟩
  intro suffix key apart
  rw [back.other suffix key apart, front.other suffix key apart]

theorem syscall_spec {α : Type} (act : Int → Store Int → α × Store Int) (world : World) :
    Yields (syscall suffix act) world
      (fun value after => Spent 1 world after ∧ ∃ now,
        value = (act now (world.stores suffix)).1 ∧
        after = world.advance.withStore suffix (act now (world.stores suffix)).2)
      (fun _ after => Blocked 1 world ∧ Later world after ∧ after.stores = world.stores) := by
  apply yields_syscall
  · intro faulty
    exact ⟨blocked_next faulty, world.pending_advance, world.stores_advance⟩
  · intro answered
    exact ⟨(Spent.advance answered).withStore _ _, _, rfl, rfl⟩

def Sampled (before after : Index) (relOffset position : Int) : Prop :=
  after.file = before.file ∧
    (after.entries = before.entries ∨
      (0 ≤ relOffset ∧ relOffset ≤ 0xFFFFFFFF ∧ 0 ≤ position ∧ position ≤ 0xFFFFFFFF ∧
        after.entries = before.entries ++ [⟨relOffset.toNat, position.toNat⟩]))

theorem writeFile_local (handle : Handle Int) (bytes : Bytes) (world : World)
    (other : suffix ≠ .log) :
    Yields (writeFile suffix handle bytes) world
      (fun _ after => Local handle.key world after ∧ after.stores .log = world.stores .log)
      (fun _ after => Local handle.key world after ∧ after.stores .log = world.stores .log) := by
  have written (kept : Bytes) (now : Int) :
      let after := world.advance.withStore suffix ((world.stores suffix).write handle kept now)
      Local handle.key world after ∧ after.stores .log = world.stores .log := by
    refine ⟨⟨world.pending_advance, ?_⟩, by simp [other.symm]⟩
    intro suffix' key apart
    by_cases same : suffix' = suffix
    · subst same
      simp [apart]
    · simp [same]
  exact yields_writeFile suffix handle bytes (fun count _ => written (bytes.take count) _)
    (fun _ => written bytes _)

theorem Index.maybeAppend_spec (i : Index) (relOffset position : Int) (world : World) :
    Yields (i.maybeAppend relOffset position) world
      (fun after final => Sampled i after relOffset position ∧ Local i.file.key world final ∧
        final.stores .log = world.stores .log)
      (fun _ final => Local i.file.key world final ∧ final.stores .log = world.stores .log) := by
  have idle : Local i.file.key world world ∧ world.stores .log = world.stores .log :=
    ⟨Local.refl _ _, rfl⟩
  unfold Index.maybeAppend
  split
  · exact ⟨⟨rfl, .inl rfl⟩, idle⟩
  · dsimp only
    split
    · exact idle
    · split
      · exact idle
      · rw [yields_bind, yields_mapError]
        refine (writeFile_local .index i.file _ world (by decide)).mono ?_ fun _ _ held => held
        intro _ final held
        exact ⟨⟨rfl, .inr ⟨by omega, by omega, by omega, by omega, rfl⟩⟩, held⟩

theorem TimeIndex.maybeAppend_spec (t : TimeIndex) (ts relOffset position : Int) (world : World) :
    Yields (t.maybeAppend ts relOffset position) world
      (fun after final => after.file = t.file ∧ Local t.file.key world final ∧
        final.stores .log = world.stores .log)
      (fun _ final => Local t.file.key world final ∧ final.stores .log = world.stores .log) := by
  have idle : Local t.file.key world world ∧ world.stores .log = world.stores .log :=
    ⟨Local.refl _ _, rfl⟩
  unfold TimeIndex.maybeAppend
  split
  · exact ⟨rfl, idle⟩
  · dsimp only
    split
    · exact idle
    · rw [yields_bind, yields_mapError]
      refine (writeFile_local .timeIndex t.file _ world (by decide)).mono ?_ fun _ _ held => held
      intro _ final held
      exact ⟨rfl, held⟩

structure Segment.Keyed (s : Segment) : Prop where
  log : s.logFile.key = s.baseOffset
  index : s.idx.file.key = s.baseOffset
  timeIndex : s.tix.file.key = s.baseOffset

structure Indexed (before after : Segment) (relOffset : Int) (position : Nat) : Prop where
  shape : after = { before with idx := after.idx, tix := after.tix }
  idx : Sampled before.idx after.idx relOffset position
  tix : after.tix.file = before.tix.file

theorem Segment.indexBatch_spec (h : BatchHeader) (position : Nat) (world : World)
    (keyed : s.Keyed) :
    Yields (s.indexBatch h position) world
      (fun after final => Indexed s after (int64 (h.baseOffset - s.baseOffset)) position ∧
        Local s.baseOffset world final ∧ final.stores .log = world.stores .log)
      (fun _ _ => False) := by
  unfold Segment.indexBatch
  simp only [yields_bind, yields_orElse, yields_pure]
  have second (idx : Index) (middle : World)
      (sampled : Sampled s.idx idx (int64 (h.baseOffset - s.baseOffset)) position)
      (front : Local s.idx.file.key world middle ∧ middle.stores .log = world.stores .log) :
      Yields (s.tix.maybeAppend h.maxTimestamp (int64 (h.baseOffset - s.baseOffset)) position)
        middle
        (fun tix final => Indexed s { s with idx := idx, tix := tix }
            (int64 (h.baseOffset - s.baseOffset)) position ∧
          Local s.baseOffset world final ∧ final.stores .log = world.stores .log)
        (fun _ final => Indexed s { s with idx := idx, tix := s.tix }
            (int64 (h.baseOffset - s.baseOffset)) position ∧
          Local s.baseOffset world final ∧ final.stores .log = world.stores .log) := by
    rw [keyed.index] at front
    refine (TimeIndex.maybeAppend_spec s.tix _ _ _ middle).mono ?_ ?_
    · rintro tix final ⟨file, back, logs⟩
      rw [keyed.timeIndex] at back
      exact ⟨⟨rfl, sampled, file⟩, front.1.trans back, logs.trans front.2⟩
    · rintro _ final ⟨back, logs⟩
      rw [keyed.timeIndex] at back
      exact ⟨⟨rfl, sampled, rfl⟩, front.1.trans back, logs.trans front.2⟩
  refine (Index.maybeAppend_spec s.idx _ _ world).mono ?_ ?_
  · rintro idx middle ⟨sampled, held⟩
    exact second idx middle sampled held
  · intro _ middle held
    exact second s.idx middle ⟨rfl, .inl rfl⟩ held

def Segment.past (s : Segment) (batch : Bytes) : Segment :=
  { s with
    logSize := s.logSize + batch.length
    nextOffset := int64 ((decodeHeader batch).lastOffset + 1) }

structure Wrote (s : Segment) (batch : Bytes) (before : World) (done : Appended) (after : World) :
    Prop where
  answered : before.next.fault = none
  later : Later before.advance after
  unsealed : s.sealed = false
  header : HeaderOk batch
  crc : validateCRC batch = none
  log : ∃ now, after.stores .log = (before.stores .log).write s.logFile batch now
  other : ∀ suffix key, key ≠ s.baseOffset →
    (after.stores suffix).lookup key = (before.stores suffix).lookup key
  segment : Indexed (s.past batch) done.segment
    (int64 ((decodeHeader batch).baseOffset - s.baseOffset)) s.logSize
  firstOffset : done.firstOffset = (decodeHeader batch).baseOffset
  lastOffset : done.lastOffset = (decodeHeader batch).lastOffset

def Tore (s : Segment) (batch : Bytes) (before after : World) : Prop :=
  ∃ count, before.next.fault = some count ∧
    after = before.advance.withStore .log
      ((before.stores .log).write s.logFile (batch.take count) before.next.now)

def Segment.Takes (s : Segment) (batch : Bytes) : Prop :=
  s.sealed = false ∧ HeaderOk batch ∧ validateCRC batch = none ∧
    validateBatchAttributes (decodeHeader batch).attributes = none

theorem Segment.append_spec (batch : Bytes) (world : World) (keyed : s.Keyed) :
    Yields (s.append batch) world
      (fun done after => Wrote s batch world done after)
      (fun _ after => ¬ s.Takes batch ∧ after = world ∨ Tore s batch world after) := by
  unfold Segment.append
  dsimp only
  split
  · next isSealed => exact .inl ⟨fun takes => by simp [takes.1] at isSealed, rfl⟩
  · next isOpen =>
      split
      · next err rejected =>
          refine .inl ⟨fun takes => ?_, rfl⟩
          rw [takes.2.1.parse] at rejected
          cases rejected
      · next h parsed =>
          obtain ⟨ok, rfl⟩ := (parse_ok_iff batch h).mp parsed
          split
          · next err crc => exact .inl ⟨fun takes => by simp [takes.2.2.1] at crc, rfl⟩
          · next crc =>
              split
              · next err attributes =>
                  exact .inl ⟨fun takes => by simp [takes.2.2.2] at attributes, rfl⟩
              · rw [yields_bind, yields_mapError]
                apply yields_writeFile
                · intro count faulty
                  exact .inr ⟨count, faulty, rfl⟩
                · intro answered
                  rw [yields_bind]
                  refine (Segment.indexBatch_spec (s.past batch) _ _ _
                    ⟨keyed.log, keyed.index, keyed.timeIndex⟩).mono ?_
                    fun _ _ impossible => impossible.elim
                  rintro indexed after ⟨segment, moved, logs⟩
                  refine ⟨answered, moved.later, by simpa using isOpen, ok, crc, ⟨_, by simpa using logs⟩,
                    ?_, segment, rfl, rfl⟩
                  intro suffix key apart
                  rw [moved.other suffix key apart]
                  by_cases same : suffix = .log
                  · subst same
                    simp [keyed.log, apart]
                  · simp [same]

structure Synced (s : Segment) (before after : World) : Prop where
  log : after.stores .log = (before.stores .log).sync s.logFile
  flushed : ∀ suffix key, (after.stores suffix).lookup key = (before.stores suffix).lookup key ∨
    (after.stores suffix).lookup key = ((before.stores suffix).lookup key).map File.flush

theorem Synced.contents {s : Segment} (synced : Synced s before after)
    (suffix : Suffix) (key : Int) : ((after.stores suffix).lookup key).map File.data =
      ((before.stores suffix).lookup key).map File.data := by
  rcases synced.flushed suffix key with same | flushed
  · rw [same]
  · rw [flushed, Option.map_map]
    rfl

theorem lookup_sync_or (store : Store Int) (handle : Handle Int) (key : Int) :
    (store.sync handle).lookup key = store.lookup key ∨
      (store.sync handle).lookup key = (store.lookup key).map File.flush := by
  rw [Store.lookup_sync]
  split
  · next same => exact .inr (by rw [same])
  · exact .inl rfl

theorem Synced.syncFile {s : Segment} (synced : Synced s before middle)
    (suffix : Suffix) (handle : Handle Int) (other : suffix ≠ .log)
    (shape : after.stores = (middle.advance.withStore suffix
      ((middle.stores suffix).sync handle)).stores) : Synced s before after := by
  constructor
  · rw [shape, World.stores_withStore, if_neg other.symm, World.stores_advance, synced.log]
  · intro suffix' key
    rw [shape, World.stores_withStore, World.stores_advance]
    split
    · next same =>
        subst same
        rcases lookup_sync_or (middle.stores suffix') handle key with still | flushed
        · rw [still]
          exact synced.flushed suffix' key
        · rw [flushed]
          rcases synced.flushed suffix' key with still' | flushed'
          · exact .inr (by rw [still'])
          · exact .inr (by rw [flushed', Option.map_map]; rfl)
    · exact synced.flushed suffix' key

theorem Segment.sync_spec (world : World) :
    Yields s.sync world
      (fun _ after => Spent 3 world after ∧ Synced s world after)
      (fun _ after => Blocked 3 world ∧ Later world after ∧
        (after.stores = world.stores ∨ Synced s world after)) := by
  unfold Segment.sync Storage.syncFile
  simp only [yields_bind]
  refine (syscall_spec .log _ world).mono ?_ ?_
  · rintro _ first ⟨spent, now, -, rfl⟩
    have synced : Synced s world
        (world.advance.withStore .log ((world.stores .log).sync s.logFile)) := by
      constructor
      · simp
      · intro suffix key
        rw [World.stores_withStore, World.stores_advance]
        split
        · next same =>
            subst same
            exact lookup_sync_or _ _ _
        · exact .inl rfl
    refine (syscall_spec .index _ _).mono ?_ ?_
    · rintro _ second ⟨spent', now', -, rfl⟩
      have synced' := synced.syncFile .index s.idx.file (by decide) rfl
      refine (syscall_spec .timeIndex _ _).mono ?_ ?_
      · rintro _ third ⟨spent'', now'', -, rfl⟩
        exact ⟨(spent.trans spent').trans spent'',
          synced'.syncFile .timeIndex s.tix.file (by decide) rfl⟩
      · rintro _ third ⟨blocked, later, same⟩
        refine ⟨((spent.trans spent').blocked blocked), (spent.trans spent').later.trans later,
          .inr ?_⟩
        exact ⟨by rw [same]; exact synced'.log, fun suffix key => by
          rw [same]; exact synced'.flushed suffix key⟩
    · rintro _ second ⟨blocked, later, same⟩
      refine ⟨(spent.blocked blocked).mono (by decide), spent.later.trans later, .inr ?_⟩
      exact ⟨by rw [same]; exact synced.log, fun suffix key => by
        rw [same]; exact synced.flushed suffix key⟩
  · rintro _ first ⟨blocked, later, same⟩
    exact ⟨blocked.mono (by decide), later, .inl same⟩

def Vacant (base : Int) (world : World) : Prop :=
  ∀ suffix file, (world.stores suffix).lookup base = some file → file.data = [] ∧ file.synced = []

theorem Vacant.data (vacant : Vacant base world) (suffix : Suffix) :
    (world.stores suffix).data base = [] := by
  unfold Store.data
  cases found : (world.stores suffix).lookup base with
  | none => rfl
  | some file => exact (vacant suffix file found).1

structure Opening (base : Int) (before after : World) : Prop extends Local base before after where
  vacant : Vacant base after

theorem Opening.trans {first second third : World} (front : Opening base first second)
    (back : Opening base second third) : Opening base first third :=
  ⟨front.toLocal.trans back.toLocal, back.vacant⟩

theorem Opening.congr {final : World} (opening : Opening base before after)
    (later : Later after final) (same : final.stores = after.stores) : Opening base before final :=
  ⟨⟨opening.later.trans later, fun suffix key apart => by rw [same, opening.other suffix key apart]⟩,
    fun suffix => by rw [same]; exact opening.vacant suffix⟩

theorem Opening.refl (vacant : Vacant base world) :
    Opening base world world := ⟨Local.refl base world, vacant⟩

theorem Opening.openFile (vacant : Vacant base world) (suffix : Suffix) (now : Int) :
    Opening base world
      (world.advance.withStore suffix ((world.stores suffix).openFile base now).2) := by
  refine ⟨⟨world.pending_advance, ?_⟩, ?_⟩
  · intro suffix' key apart
    by_cases same : suffix' = suffix
    · subst same
      simp [apart]
    · simp [same]
  · intro suffix' file found
    by_cases same : suffix' = suffix
    · subst same
      rw [World.stores_withStore, if_pos rfl, Store.lookup_openFile, if_pos rfl] at found
      cases known : (world.stores suffix').lookup base with
      | none =>
        rw [known] at found
        cases found
        exact ⟨rfl, rfl⟩
      | some old =>
        rw [known] at found
        cases found
        exact vacant suffix' _ known
    · rw [World.stores_withStore, if_neg same, World.stores_advance] at found
      exact vacant suffix' file found

theorem withStore_self (world : World) (suffix : Suffix) :
    (world.advance.withStore suffix (world.stores suffix)).stores = world.stores := by
  funext other
  rw [World.stores_withStore]
  split
  · next same => rw [same]
  · rw [World.stores_advance]

theorem openFile_spec (base : Int) (world : World) (vacant : Vacant base world) :
    Yields (openFile suffix base) world
      (fun handle after => Spent 1 world after ∧ handle = ⟨(world.stores suffix).nextFd, base⟩ ∧
        Opening base world after ∧ ∃ now,
        after = world.advance.withStore suffix ((world.stores suffix).openFile base now).2)
      (fun _ after => Blocked 1 world ∧ Later world after ∧ after.stores = world.stores) := by
  refine (syscall_spec suffix _ world).mono ?_ fun _ _ held => held
  rintro handle after ⟨spent, now, rfl, rfl⟩
  exact ⟨spent, rfl, Opening.openFile vacant suffix now, now, rfl⟩

theorem statFile_spec (handle : Handle Int) (world : World) :
    Yields (statFile suffix handle) world
      (fun stat after => Spent 1 world after ∧
        stat.1 = ((world.stores suffix).data handle.key).length ∧ after.stores = world.stores)
      (fun _ after => Blocked 1 world ∧ Later world after ∧ after.stores = world.stores) := by
  refine (syscall_spec suffix _ world).mono ?_ fun _ _ held => held
  rintro stat after ⟨spent, now, value, shape⟩
  unfold Store.data
  cases found : (world.stores suffix).lookup handle.key <;> rw [found] at value shape <;>
    exact ⟨spent, congrArg Prod.fst value, by rw [shape, withStore_self]⟩

theorem openVacant_spec {α : Type} (base : Int) (world : World)
    (rename : Err → Err) (load : Handle Int → Nat × Int → SysM α) (made : Handle Int → α)
    (other : suffix ≠ .log) (vacant : Vacant base world)
    (empty : ∀ handle stat, stat.1 = 0 → load handle stat = pure (made handle)) :
    Yields (mapError rename (openFile suffix base) >>= fun handle =>
        statFile suffix handle >>= load handle) world
      (fun value after => Spent 2 world after ∧ Opening base world after ∧
        after.stores .log = world.stores .log ∧ ∃ fd, value = made ⟨fd, base⟩)
      (fun _ after => Blocked 2 world ∧ Opening base world after ∧
        after.stores .log = world.stores .log) := by
  simp only [yields_bind, yields_mapError]
  refine (openFile_spec suffix base world vacant).mono ?_ ?_
  · rintro handle middle ⟨spent, rfl, opening, now, shape⟩
    have logs : middle.stores .log = world.stores .log := by simp [shape, other.symm]
    refine (statFile_spec suffix _ middle).mono ?_ ?_
    · rintro stat after ⟨spent', size, same⟩
      rw [empty _ stat (by rw [size]; exact congrArg List.length (opening.vacant.data suffix))]
      exact ⟨spent.trans spent', opening.congr spent'.later same, by rw [same, logs], _, rfl⟩
    · rintro _ after ⟨blocked, later, same⟩
      exact ⟨spent.blocked blocked, opening.congr later same, by rw [same, logs]⟩
  · rintro _ after ⟨blocked, later, same⟩
    exact ⟨blocked.mono (by decide), (Opening.refl vacant).congr later same, by rw [same]⟩

theorem openIndex_vacant (base interval : Int) (world : World) (vacant : Vacant base world) :
    Yields (openIndex base interval) world
      (fun i after => Spent 2 world after ∧ Opening base world after ∧
        after.stores .log = world.stores .log ∧ ∃ fd, i = ⟨⟨fd, base⟩, [], 0, interval⟩)
      (fun _ after => Blocked 2 world ∧ Opening base world after ∧
        after.stores .log = world.stores .log) := by
  unfold openIndex loadIndex
  apply openVacant_spec .index base world _ _ (fun handle => (⟨handle, [], 0, interval⟩ : Index))
    (by decide) vacant
  rintro handle ⟨size, mtime⟩ rfl
  rfl

theorem openTimeIndex_vacant (base interval : Int) (world : World) (vacant : Vacant base world) :
    Yields (openTimeIndex base interval) world
      (fun t after => Spent 2 world after ∧ Opening base world after ∧
        after.stores .log = world.stores .log ∧ ∃ fd, t = ⟨⟨fd, base⟩, [], 0, 0, interval⟩)
      (fun _ after => Blocked 2 world ∧ Opening base world after ∧
        after.stores .log = world.stores .log) := by
  unfold openTimeIndex loadTimeIndex
  apply openVacant_spec .timeIndex base world _ _
    (fun handle => (⟨handle, [], 0, 0, interval⟩ : TimeIndex)) (by decide) vacant
  rintro handle ⟨size, mtime⟩ rfl
  rfl

def emptySegment (opts : SegmentOpts) (logFd idxFd tixFd : Nat) (createdAt : Int) : Segment where
  baseOffset := opts.baseOffset
  logFile := ⟨logFd, opts.baseOffset⟩
  logSize := 0
  createdAt := createdAt
  idx := ⟨⟨idxFd, opts.baseOffset⟩, [], 0, opts.indexInterval⟩
  tix := ⟨⟨tixFd, opts.baseOffset⟩, [], 0, 0, opts.indexInterval⟩
  nextOffset := opts.baseOffset
  maxBytes := opts.maxBytes
  maxAge := opts.maxAge
  sealed := false

def HandleAdded (base : Int) (before after : World) : Prop :=
  ∃ now, after.stores .log = ((before.stores .log).openFile base now).2

theorem openSegment_vacant (opts : SegmentOpts) (world : World)
    (vacant : Vacant opts.baseOffset world) :
    Yields (openSegment opts) world
      (fun seg after => Spent 6 world after ∧ Opening opts.baseOffset world after ∧
        HandleAdded opts.baseOffset world after ∧ ∃ idxFd tixFd createdAt,
        seg = emptySegment opts (world.stores .log).nextFd idxFd tixFd createdAt)
      (fun _ after => Blocked 6 world ∧ Opening opts.baseOffset world after ∧
        (after.stores .log = world.stores .log ∨ HandleAdded opts.baseOffset world after)) := by
  unfold openSegment
  simp only [yields_bind, yields_mapError]
  refine (openFile_spec .log opts.baseOffset world vacant).mono ?_ ?_
  · rintro handle first ⟨spent, rfl, opening, added⟩
    have added' : HandleAdded opts.baseOffset world first := by
      obtain ⟨now, shape⟩ := added
      exact ⟨now, by simp [shape]⟩
    refine (openIndex_vacant _ _ first opening.vacant).mono ?_ ?_
    · rintro _ second ⟨spent', opening', logs, idxFd, rfl⟩
      have opening₂ := opening.trans opening'
      refine (openTimeIndex_vacant _ _ second opening₂.vacant).mono ?_ ?_
      · rintro _ third ⟨spent'', opening'', logs', tixFd, rfl⟩
        have opening₃ := opening₂.trans opening''
        have spent₃ := (spent.trans spent').trans spent''
        have added₃ : HandleAdded opts.baseOffset world third := by
          rwa [HandleAdded, logs', logs]
        refine (statFile_spec .log _ third).mono ?_ ?_
        · rintro ⟨size, mtime⟩ after ⟨spent₄, rfl, same⟩
          rw [show ((third.stores .log).data opts.baseOffset).length = 0 from
            congrArg List.length (opening₃.vacant.data .log)]
          exact ⟨spent₃.trans spent₄, opening₃.congr spent₄.later same,
            by rwa [HandleAdded, same], idxFd, tixFd, mtime, rfl⟩
        · rintro _ after ⟨blocked, later, same⟩
          exact ⟨spent₃.blocked blocked, opening₃.congr later same,
            .inr (by rwa [HandleAdded, same])⟩
      · rintro _ third ⟨blocked, opening'', logs'⟩
        exact ⟨((spent.trans spent').blocked blocked).mono (by decide), opening₂.trans opening'',
          .inr (by rwa [HandleAdded, logs', logs])⟩
    · rintro _ second ⟨blocked, opening', logs⟩
      exact ⟨(spent.blocked blocked).mono (by decide), opening.trans opening',
        .inr (by rwa [HandleAdded, logs])⟩
  · rintro _ first ⟨blocked, later, same⟩
    exact ⟨blocked.mono (by decide), (Opening.refl vacant).congr later same, .inl (by rw [same])⟩

def Segment.rolls (s : Segment) (world : World) : Bool :=
  decide (s.logSize ≠ 0 ∧ ((s.maxBytes > 0 ∧ (s.logSize : Int) ≥ s.maxBytes) ∨
    (s.maxAge > 0 ∧ elapsed world.next.now s.createdAt ≥ s.maxAge)))

def Segment.clockCalls (s : Segment) : Nat :=
  if s.logSize = 0 ∨ (s.maxBytes > 0 ∧ (s.logSize : Int) ≥ s.maxBytes) ∨ s.maxAge ≤ 0 then 0 else 1

theorem World.advance_pending (world : World) : world.advance.pending = world.pending.drop 1 := by
  unfold World.advance
  split
  · next empty => simp [empty]
  · next tick rest shape => simp [shape]

theorem Segment.shouldRoll_spec (world : World) :
    Yields s.shouldRoll world
      (fun full after => full = s.rolls world ∧ after.stores = world.stores ∧
        after.pending = world.pending.drop s.clockCalls)
      (fun _ _ => False) := by
  unfold Segment.shouldRoll Segment.rolls Segment.clockCalls
  by_cases empty : s.logSize = 0
  · simp [empty, yields_pure]
  · by_cases large : s.maxBytes > 0 ∧ (s.logSize : Int) ≥ s.maxBytes
    · simp [empty, large, yields_pure]
    · by_cases aging : s.maxAge > 0
      · have some : ¬ s.maxAge ≤ 0 := by omega
        simp only [if_neg empty, if_neg large, if_pos aging, yields_bind, yields_tick, yields_pure]
        exact ⟨by simp [empty, large, aging], world.stores_advance,
          by simp [empty, large, some, World.advance_pending]⟩
      · have none : s.maxAge ≤ 0 := by omega
        simp [empty, large, aging, none, yields_pure]

end KafkaWire.Storage
