import KafkaWire.Storage.Marks
import KafkaWire.Storage.Reading

/-! Opening one segment whose files are already there. Recovery keeps the whole batches with a
good checksum at the front of the log file, whatever the file and its indexes contain. -/

namespace KafkaWire.Storage

open Bytes Files Programs

theorem local_withStore {base : Int} {world after : World} (suffix : Suffix) (store : Store Int)
    (later : Later world after) (same : after.stores = (world.withStore suffix store).stores)
    (other : ∀ key, key ≠ base → store.lookup key = (world.stores suffix).lookup key) :
    Local base world after := by
  refine ⟨later, ?_⟩
  intro suffix' key apart
  rw [same, World.stores_withStore]
  split
  · next isSame =>
      subst isSame
      exact other key apart
  · rfl

theorem Later.noisy {before after : World} (later : Later before after) (noisy : ¬ after.Quiet) :
    ¬ before.Quiet := fun quiet => noisy (later.quiet quiet)

section Calls

variable (world : World)

theorem syscall_any {α : Type} (suffix : Suffix) (act : Int → Store Int → α × Store Int) :
    Yields (syscall suffix act) world
      (fun value after => Later world after ∧ ∃ now, value = (act now (world.stores suffix)).1 ∧
        after.stores = (world.withStore suffix (act now (world.stores suffix)).2).stores)
      (fun _ _ => ¬ world.Quiet) := by
  refine (syscall_spec suffix act world).mono ?_ fun _ _ failed quiet => quiet.not_blocked 1 failed.1
  rintro value after ⟨spent, now, same, rfl⟩
  refine ⟨spent.later, now, same, ?_⟩
  rw [World.withStore, World.withStore, World.stores_advance]

theorem readAt_any (suffix : Suffix) (handle : Handle Int) (position length : Nat) :
    Yields (readAt suffix handle position length) world
      (fun bytes after => Later world after ∧ after.stores = world.stores ∧
        bytes = (((world.stores suffix).data handle.key).drop position).take length)
      (fun _ after => Later world after ∧ after.stores = world.stores ∧ ¬ world.Quiet) := by
  refine (syscall_spec suffix _ world).mono ?_ ?_
  · rintro bytes after ⟨spent, now, rfl, rfl⟩
    exact ⟨spent.later, withStore_self world suffix, rfl⟩
  · rintro _ after ⟨blocked, later, same⟩
    exact ⟨later, same, fun quiet => quiet.not_blocked 1 blocked⟩

end Calls

/-- `prog` touches at most the index files of segment `base` and returns a value as in `result`;
it fails only if a call does. -/
def Harmless {α : Type} (base : Int) (prog : SysM α) (result : α → Prop) : Prop :=
  ∀ world : World,
    Yields prog world
      (fun value after => result value ∧ Local base world after ∧
        after.stores .log = world.stores .log)
      (fun _ _ => ¬ world.Quiet)

section Harmless

variable {α β : Type} {base : Int}

theorem Harmless.pure {result : α → Prop} {value : α} (holds : result value) :
    Harmless base (pure value) result :=
  fun world => ⟨holds, Local.refl base world, rfl⟩

theorem Harmless.bind {prog : SysM α} {next : α → SysM β} {middle : α → Prop} {result : β → Prop}
    (first : Harmless base prog middle)
    (second : ∀ value, middle value → Harmless base (next value) result) :
    Harmless base (prog >>= next) result := by
  intro world
  rw [yields_bind]
  refine (first world).mono ?_ fun _ _ noisy => noisy
  rintro value after ⟨holds, front, logs⟩
  refine (second value holds after).mono ?_ fun _ _ noisy => front.later.noisy noisy
  rintro value' after' ⟨holds', back, logs'⟩
  exact ⟨holds', front.trans back, logs'.trans logs⟩

theorem Harmless.mapError {prog : SysM α} {result : α → Prop} (rename : Err → Err)
    (harmless : Harmless base prog result) : Harmless base (Programs.mapError rename prog) result := by
  intro world
  rw [yields_mapError]
  exact harmless world

theorem Harmless.syscall (suffix : Suffix) (act : Int → Store Int → α × Store Int)
    (index : suffix ≠ .log)
    (other : ∀ now (store : Store Int) key, key ≠ base →
      (act now store).2.lookup key = store.lookup key) :
    Harmless base (Storage.syscall suffix act) fun value => ∃ now store, value = (act now store).1 := by
  intro world
  refine (syscall_any world suffix act).mono ?_ fun _ _ noisy => noisy
  rintro value after ⟨later, now, rfl, same⟩
  refine ⟨⟨now, _, rfl⟩, local_withStore suffix _ later same (other now _), ?_⟩
  rw [same, World.stores_withStore, if_neg index.symm]

theorem harmless_truncateFile (suffix : Suffix) (handle : Handle Int) (size : Nat)
    (index : suffix ≠ .log) (own : handle.key = base) :
    Harmless base (truncateFile suffix handle size) fun _ => True := by
  intro world
  refine (Harmless.syscall suffix _ index ?_ world).mono
    (fun _ _ held => ⟨trivial, held.2⟩) fun _ _ noisy => noisy
  intro now store key apart
  simp [own, apart]

theorem Index.reset_harmless (i : Index) (own : i.file.key = base) :
    Harmless base i.reset fun i' => i'.file = i.file ∧ i'.entries = [] := by
  refine (harmless_truncateFile .index i.file 0 (by decide) own).bind fun _ _ => ?_
  refine (Harmless.syscall .index _ (by decide) fun _ _ _ _ => rfl).bind fun _ _ => ?_
  exact Harmless.pure ⟨rfl, rfl⟩

theorem TimeIndex.reset_harmless (t : TimeIndex) (own : t.file.key = base) :
    Harmless base t.reset fun t' => t'.file = t.file := by
  refine (harmless_truncateFile .timeIndex t.file 0 (by decide) own).bind fun _ _ => ?_
  refine (Harmless.syscall .timeIndex _ (by decide) fun _ _ _ _ => rfl).bind fun _ _ => ?_
  exact Harmless.pure rfl

theorem harmless_statFile (suffix : Suffix) (handle : Handle Int) (index : suffix ≠ .log) :
    Harmless base (statFile suffix handle) fun _ => True := by
  intro world
  refine (Harmless.syscall suffix _ index ?_ world).mono
    (fun _ _ held => ⟨trivial, held.2⟩) fun _ _ noisy => noisy
  intro now store key apart
  split <;> rfl

theorem openIndex_harmless (interval : Int) :
    Harmless base (openIndex base interval) fun i => i.file.key = base := by
  refine ((Harmless.syscall .index _ (by decide) ?_).mapError _).bind ?_
  · intro now store key apart
    simp [apart]
  rintro _ ⟨now, store, rfl⟩
  refine (harmless_statFile .index _ (by decide)).bind fun stat _ => ?_
  dsimp only
  -- A partial entry at the end is cut off first; from there on the two cases are the same.
  split
  on_goal 1 => refine ((harmless_truncateFile .index _ _ (by decide) rfl).mapError _).bind fun _ _ => ?_
  all_goals
    split
    · exact Harmless.pure rfl
    · refine ((Harmless.syscall .index _ (by decide) fun _ _ _ _ => rfl).mapError _).bind
        fun buf _ => ?_
      split <;> exact Harmless.pure rfl

theorem openTimeIndex_harmless (interval : Int) :
    Harmless base (openTimeIndex base interval) fun t => t.file.key = base := by
  refine ((Harmless.syscall .timeIndex _ (by decide) ?_).mapError _).bind ?_
  · intro now store key apart
    simp [apart]
  rintro _ ⟨now, store, rfl⟩
  refine (harmless_statFile .timeIndex _ (by decide)).bind fun stat _ => ?_
  dsimp only
  split
  on_goal 1 =>
    refine ((harmless_truncateFile .timeIndex _ _ (by decide) rfl).mapError _).bind fun _ _ => ?_
  all_goals
    split
    · exact Harmless.pure rfl
    · refine ((Harmless.syscall .timeIndex _ (by decide) fun _ _ _ _ => rfl).mapError _).bind
        fun buf _ => ?_
      split <;> exact Harmless.pure rfl

theorem openIndex_entries (interval : Int) (world : World) :
    Yields (openIndex base interval) world (fun i _ => i.entries = [] ↔
      ((world.stores .index).data base).length < indexEntrySize) (fun _ _ => True) := by
  unfold openIndex loadIndex
  rw [yields_bind, yields_mapError]
  refine (syscall_any world .index _).mono ?_ fun _ _ _ => trivial
  rintro _ first ⟨-, now, rfl, same⟩
  rw [yields_bind]
  refine (statFile_spec .index _ first).mono ?_ fun _ _ _ => trivial
  rintro ⟨size, mtime⟩ second ⟨-, length, -⟩
  have kept : (first.stores .index).data base = (world.stores .index).data base := by
    rw [same, World.stores_withStore, if_pos rfl]
    unfold Store.data
    rw [Store.lookup_openFile, if_pos rfl]
    cases (world.stores .index).lookup base <;> rfl
  have few : ((world.stores .index).data base).length < indexEntrySize ↔ size < indexEntrySize := by
    rw [show size = _ from length, Store.openFile_handle, kept]
  have rounded : size - size % indexEntrySize = 0 ↔ size < indexEntrySize := by
    unfold indexEntrySize
    omega
  simp only [few, ← rounded]
  split
  on_goal 1 =>
    rw [yields_bind, yields_mapError]
    refine (syscall_any _ .index _).mono (fun _ _ _ => ?_) fun _ _ _ => trivial
  all_goals
    split
    · next none => exact iff_of_true rfl none
    · next some =>
      rw [yields_bind, yields_mapError]
      refine (syscall_any _ .index _).mono (fun buf _ _ => ?_) fun _ _ _ => trivial
      obtain ⟨count, more⟩ : ∃ count, (size - size % indexEntrySize) / indexEntrySize = count + 1 :=
        Nat.exists_eq_succ_of_ne_zero (by unfold indexEntrySize at *; omega)
      rw [more]
      split <;> exact iff_of_false (List.cons_ne_nil _ _) some

end Harmless

def crcOk (batch : Bytes) : Bool := decide (validateCRC batch = none)

def frontBatch (buf : Bytes) : Option (BatchHeader × Nat) :=
  match batchFormat.size buf with
  | none => none
  | some size =>
    if size ≤ buf.length ∧ crcOk (buf.take size) = true then some (decodeHeader buf, size)
    else none

/-- Where a call fails, the batch may be missed. -/
theorem Segment.recoverBatch_spec (s : Segment) (position : Nat) (world : World)
    (size : ((world.stores .log).data s.logFile.key).length = s.logSize) :
    Yields (s.recoverBatch position) world
      (fun found after => Later world after ∧ after.stores = world.stores ∧
        (found = frontBatch (((world.stores .log).data s.logFile.key).drop position) ∨
          found = none ∧ ¬ world.Quiet))
      (fun _ _ => ¬ world.Quiet) := by
  generalize shape : (world.stores .log).data s.logFile.key = data at size ⊢
  have announced := announcedSize_header (data.drop position)
  have room : (data.drop position).length = s.logSize - position := by
    rw [List.length_drop, size]
  unfold Segment.recoverBatch v2HeaderSize
  rw [yields_bind, yields_mapError]
  refine (readAt_any world .log s.logFile position 61).mono ?_ fun _ _ failed => failed.2.2
  rintro _ first ⟨later, same, rfl⟩
  rw [shape]
  dsimp only
  split
  · next short =>
      have none : batchFormat.size (data.drop position) = none := by
        apply Framing.size_short
        show _ < 61
        rw [List.length_take] at short
        omega
      exact ⟨later, same, .inl (by simp [frontBatch, none])⟩
  · next long =>
      rw [List.length_take] at long
      split
      · next h err parsed =>
          have none : batchFormat.size (data.drop position) = none := by
            show announcedSize _ = _
            rw [← announced, announcedSize, parsed]
          exact ⟨later, same, .inl (by simp [frontBatch, none])⟩
      · next h parsed =>
          have header := ((parse_ok_iff _ h).mp parsed).2
          rw [decodeHeader_take _ _ (Nat.le_refl _)] at header
          have sized : batchFormat.size (data.drop position) = some h.totalSize.toNat := by
            show announcedSize _ = _
            rw [← announced, announcedSize, parsed]
          rw [frontBatch, sized, ← header]
          dsimp only
          by_cases overrun : position + h.totalSize.toNat > s.logSize
          · rw [if_pos overrun, if_neg (by omega)]
            exact ⟨later, same, .inl rfl⟩
          · rw [if_neg overrun, yields_bind, yields_orElse]
            have inside : h.totalSize.toNat ≤ (data.drop position).length := by omega
            have positive : 0 < h.totalSize.toNat :=
              Nat.lt_of_lt_of_le (by decide : 0 < 61) (batchFormat.size_ge _ _ sized)
            refine (readAt_any first .log s.logFile position _).mono ?_ ?_
            · rintro _ second ⟨later', same', rfl⟩
              rw [same, shape, List.length_take, Nat.min_eq_left inside, if_neg (Nat.lt_irrefl _)]
              split
              · next err bad =>
                  rw [if_neg (by simp [crcOk, bad])]
                  exact ⟨later.trans later', same'.trans same, .inl rfl⟩
              · next good =>
                  rw [if_pos ⟨inside, by simp [crcOk, good]⟩]
                  exact ⟨later.trans later', same'.trans same, .inl rfl⟩
            · rintro _ second ⟨later', same', noisy⟩
              rw [if_pos (by simpa using positive)]
              exact ⟨later.trans later', same'.trans same, .inr ⟨rfl, later.noisy noisy⟩⟩

theorem peel_none (buf : Bytes) (fuel : Nat) (none : frontBatch buf = none) :
    Framing.peel batchFormat crcOk fuel buf = [] := by
  cases fuel with
  | zero => rfl
  | succ fuel =>
    unfold frontBatch at none
    rw [Framing.peel]
    cases sized : batchFormat.size buf with
    | none => rfl
    | some size =>
      rw [sized] at none
      dsimp only at none ⊢
      split at none
      · cases none
      · next refused => rw [if_neg refused]

theorem peel_some (buf : Bytes) (fuel : Nat) (h : BatchHeader) (size : Nat)
    (found : frontBatch buf = some (h, size)) :
    Framing.peel batchFormat crcOk (fuel + 1) buf =
        buf.take size :: Framing.peel batchFormat crcOk fuel (buf.drop size) ∧
      h = decodeHeader (buf.take size) ∧ size ≤ buf.length := by
  unfold frontBatch at found
  rw [Framing.peel]
  cases sized : batchFormat.size buf with
  | none =>
    rw [sized] at found
    cases found
  | some n =>
    rw [sized] at found
    dsimp only at found ⊢
    split at found
    · next accepted =>
        cases found
        have long : 61 ≤ size := batchFormat.size_ge buf size sized
        exact ⟨if_pos accepted, (decodeHeader_take buf size long).symm, accepted.1⟩
    · cases found

def survivors (data : Bytes) : List Bytes := Framing.peel batchFormat crcOk data.length data

def endOffset (base : Int) (batches : List Bytes) : Int :=
  batches.foldl (fun _ batch => int64 ((decodeHeader batch).lastOffset + 1)) base

theorem survivors_frames (data : Bytes) :
    ∀ batch ∈ survivors data, IsBatch batch ∧ crcOk batch = true :=
  Framing.peel_frames batchFormat crcOk data.length data

theorem survivors_flatten (batches : List Bytes)
    (valid : ∀ batch ∈ batches, IsBatch batch ∧ crcOk batch = true) :
    survivors batches.flatten = batches :=
  Framing.peel_flatten batchFormat crcOk batches _ valid
    (Framing.length_le_flatten batchFormat batches fun batch member => (valid batch member).1)

/-- A second recovery finds nothing more to cut off. -/
theorem survivors_survivors (data : Bytes) : survivors (survivors data).flatten = survivors data :=
  survivors_flatten _ (survivors_frames data)

/-- A cut through a file of good batches costs the batch it goes through and those behind. -/
theorem survivors_take (batches : List Bytes) (cut : Nat)
    (valid : ∀ batch ∈ batches, IsBatch batch ∧ crcOk batch = true) :
    survivors (batches.flatten.take cut) = Framing.fitting batches cut := by
  refine Framing.peel_take batchFormat crcOk batches cut _ valid ?_
  have inside := Framing.fitting_prefix batches cut
  have whole := Framing.length_le_flatten batchFormat (Framing.fitting batches cut)
    fun batch member => (valid batch (inside.subset member)).1
  have short := Framing.fitting_length_le batches cut
  have within := inside.flatten.length_le
  rw [List.length_take]
  omega

structure Rescanned (s : Segment) (found : List Bytes) (s' : Segment) : Prop where
  shape : s' = { s with idx := s'.idx, tix := s'.tix, nextOffset := endOffset s.nextOffset found }
  idx : s'.idx.file = s.idx.file
  tix : s'.tix.file = s.tix.file

/-- The scan keeps a first part of the batches that are there, all of them when no call fails, and
the index has some of those. -/
theorem Segment.recoverLoop_spec (fuel : Nat) (s : Segment) (position : Nat) (world : World)
    (data : Bytes) (before : List Bytes) (keyed : s.Keyed)
    (bytes : (world.stores .log).data s.baseOffset = data) (size : data.length = s.logSize)
    (reached : position = before.flatten.length)
    (samples : Samples s.baseOffset s.idx.entries before) :
    Yields (Segment.recoverLoop fuel s position) world
      (fun result after => Local s.baseOffset world after ∧
        after.stores .log = world.stores .log ∧ ∃ kept,
        kept <+: Framing.peel batchFormat crcOk fuel (data.drop position) ∧
        (world.Quiet → kept = Framing.peel batchFormat crcOk fuel (data.drop position)) ∧
        Rescanned s kept result.1 ∧ result.2 = position + kept.flatten.length ∧
        Samples s.baseOffset result.1.idx.entries (before ++ kept))
      (fun _ _ => ¬ world.Quiet) := by
  induction fuel generalizing s position world before with
  | zero =>
    refine ⟨Local.refl _ _, rfl, [], List.nil_prefix, fun _ => rfl, ⟨rfl, rfl, rfl⟩, rfl, ?_⟩
    rw [List.append_nil]
    exact samples
  | succ fuel ih =>
    unfold Segment.recoverLoop
    split
    · next inside =>
        rw [yields_bind]
        have here : (world.stores .log).data s.logFile.key = data := by rw [keyed.log, bytes]
        refine (s.recoverBatch_spec position world (by rw [here, size])).mono ?_
          fun _ _ noisy => noisy
        rintro found first ⟨later, same, shape⟩
        rw [here] at shape
        have idle : Local s.baseOffset world first :=
          ⟨later, fun _ _ _ => by rw [same]⟩
        cases found with
        | none =>
          refine ⟨idle, by rw [same], [], List.nil_prefix, fun quiet => ?_, ⟨rfl, rfl, rfl⟩, rfl,
            by rw [List.append_nil]; exact samples⟩
          rcases shape with nothing | ⟨-, noisy⟩
          · exact (peel_none _ _ nothing.symm).symm
          · exact absurd quiet noisy
        | some entry =>
          obtain ⟨h, batchSize⟩ := entry
          have isFront := shape.resolve_right fun missed => by cases missed.1
          obtain ⟨peeled, rfl, whole⟩ := peel_some _ fuel h batchSize isFront.symm
          rw [peeled]
          dsimp only
          rw [yields_bind]
          refine (s.indexBatch_spec _ position first keyed).mono ?_
            fun _ _ impossible => impossible.elim
          rintro indexed second ⟨⟨sampled, idx, tix⟩, onlyHere, logs⟩
          obtain ⟨i, t, rfl⟩ : ∃ i t, indexed = { s with idx := i, tix := t } :=
            ⟨_, _, sampled⟩
          have keyed' : Segment.Keyed { s with idx := i, tix := t } :=
            ⟨keyed.log, (congrArg Handle.key idx.1).trans keyed.index,
              (congrArg Handle.key tix).trans keyed.timeIndex⟩
          have length : ((data.drop position).take batchSize).length = batchSize := by
            rw [List.length_take, Nat.min_eq_left whole]
          refine (ih { s with
            idx := i
            tix := t
            nextOffset :=
              int64 ((decodeHeader ((data.drop position).take batchSize)).lastOffset + 1) }
            (position + batchSize) second (before ++ [(data.drop position).take batchSize])
            ⟨keyed'.log, keyed'.index, keyed'.timeIndex⟩ (by rw [logs, same]; exact bytes)
            size ?_ (idx.samples samples reached)).mono ?_
            fun _ _ noisy => (later.trans onlyHere.later).noisy noisy
          · rw [List.flatten_append, List.flatten_singleton, List.length_append, length, reached]
          rintro ⟨s', stop⟩ after ⟨onlyHere', logs', kept, front, all, ⟨shape', idx', tix'⟩,
            reached', samples'⟩
          rw [← List.drop_drop] at front all
          refine ⟨(idle.trans onlyHere).trans onlyHere', by rw [logs', logs, same],
            (data.drop position).take batchSize :: kept, ?_, ?_,
            ⟨shape', idx'.trans idx.1, tix'.trans tix⟩, ?_, ?_⟩
          · exact (List.prefix_cons_inj _).mpr front
          · intro quiet
            rw [all ((later.trans onlyHere.later).quiet quiet)]
          · rw [reached', List.flatten_cons, List.length_append, length]
            omega
          · rw [← List.singleton_append, ← List.append_assoc]
            exact samples'
    · next atEnd =>
        have nothing : frontBatch (data.drop position) = none := by
          rw [List.drop_eq_nil_of_le (by omega)]
          rfl
        rw [peel_none _ _ nothing]
        refine ⟨Local.refl _ _, rfl, [], List.prefix_rfl, fun _ => rfl, ⟨rfl, rfl, rfl⟩, rfl, ?_⟩
        rw [List.append_nil]
        exact samples

structure Positioned (store : Store Int) (base : Int) (fd : Nat) (data : Bytes) : Prop where
  contents : (store.lookup base).map File.data = some data
  offset : store.offset fd = data.length

theorem Positioned.data {store : Store Int} {base : Int} {fd : Nat} {data : Bytes}
    (positioned : Positioned store base fd data) : store.data base = data := by
  obtain ⟨file, found, rfl⟩ := Option.map_eq_some_iff.mp positioned.contents
  rw [Store.data, found]

theorem Positioned.write {store : Store Int} {handle : Handle Int} {data : Bytes}
    (positioned : Positioned store handle.key handle.fd data) (bytes : Bytes) (now : Int) :
    Positioned (store.write handle bytes now) handle.key handle.fd (data ++ bytes) := by
  obtain ⟨file, found, rfl⟩ := Option.map_eq_some_iff.mp positioned.contents
  refine ⟨?_, ?_⟩
  · rw [Store.lookup_write, if_pos rfl, found, Option.map_some, Option.map_some, positioned.offset,
      Store.overwrite_end]
  · rw [Store.offset_write, if_pos rfl, positioned.offset, List.length_append]

/-- What recovery leaves of a log file with the contents `data`: its first batches, and behind
them nothing. -/
theorem Segment.recover_spec (s : Segment) (data : Bytes) (world : World) (keyed : s.Keyed)
    (fresh : s.nextOffset = s.baseOffset) (size : s.logSize = data.length)
    (contents : ((world.stores .log).lookup s.baseOffset).map File.data = some data)
    (offset : (world.stores .log).offset s.logFile.fd = 0) :
    Yields s.recover world
      (fun s' after => Local s.baseOffset world after ∧
        (after.stores .log).nextFd = (world.stores .log).nextFd ∧ ∃ kept,
        kept <+: survivors data ∧ (world.Quiet → kept = survivors data) ∧
        Rescanned { s with logSize := kept.flatten.length } kept s' ∧
        Positioned (after.stores .log) s.baseOffset s.logFile.fd kept.flatten ∧
        (kept.flatten = data →
          (after.stores .log).lookup s.baseOffset = (world.stores .log).lookup s.baseOffset) ∧
        (s.idx.entries = [] ∨ data ≠ [] ↔ Samples s.baseOffset s'.idx.entries kept))
      (fun _ _ => ¬ world.Quiet) := by
  have bytes : (world.stores .log).data s.baseOffset = data := by
    obtain ⟨file, found, rfl⟩ := Option.map_eq_some_iff.mp contents
    rw [Store.data, found]
  unfold Segment.recover
  split
  · next empty =>
      obtain rfl : data = [] := List.length_eq_zero_iff.mp (by omega)
      refine ⟨Local.refl _ _, rfl, [], List.nil_prefix, fun _ => rfl, ⟨?_, rfl, rfl⟩,
        ⟨contents, offset⟩, fun _ => rfl, ?_⟩
      · show _ = _
        rw [show ([] : List Bytes).flatten.length = s.logSize from empty.symm]
        exact congrArg (fun next => { s with nextOffset := next }) fresh.symm
      · simp [Samples, marks]
  · next nonempty =>
    have filled : data ≠ [] := fun none => nonempty (by rw [size, none]; rfl)
    rw [yields_bind, yields_mapError]
    refine (s.idx.reset_harmless keyed.index world).mono ?_ fun _ _ noisy => noisy
    rintro idx first ⟨⟨idxFile, cleared⟩, here₁, logs₁⟩
    rw [yields_bind, yields_mapError]
    refine (s.tix.reset_harmless keyed.timeIndex first).mono ?_
      fun _ _ noisy => here₁.later.noisy noisy
    rintro tix second ⟨tixFile, here₂, logs₂⟩
    have keyed' : Segment.Keyed { s with idx := idx, tix := tix } :=
      ⟨keyed.log, by rw [idxFile, keyed.index], by rw [tixFile, keyed.timeIndex]⟩
    have begun := here₁.trans here₂
    rw [yields_bind]
    refine (Segment.recoverLoop_spec s.logSize _ 0 second data [] keyed'
      (by rw [logs₂, logs₁]; exact bytes) size.symm rfl
      (by rw [cleared]; exact Samples.nil _ _)).mono ?_ fun _ _ noisy => begun.later.noisy noisy
    rintro ⟨scanned, position⟩ third ⟨here₃, logs₃, kept, front, full, ⟨shape, idxFile', tixFile'⟩,
      reached, samples⟩
    have here := begun.trans here₃
    have logs : third.stores .log = world.stores .log := by rw [logs₃, logs₂, logs₁]
    have scan : Framing.peel batchFormat crcOk s.logSize (data.drop 0) = survivors data := by
      rw [List.drop_zero, size]
      rfl
    rw [scan] at front full
    replace full : world.Quiet → kept = survivors data := fun quiet => full (begun.later.quiet quiet)
    rw [Nat.zero_add] at reached
    dsimp only at shape reached idxFile' tixFile' samples
    have inside : kept.flatten <+: data :=
      front.flatten.trans (Framing.peel_prefix batchFormat crcOk _ data)
    have handle : scanned.logFile = s.logFile := by rw [shape]
    have logSize : scanned.logSize = s.logSize := by rw [shape]
    have rescanned : Rescanned { s with logSize := kept.flatten.length } kept
        { scanned with logSize := position } := by
      refine ⟨?_, idxFile'.trans idxFile, tixFile'.trans tixFile⟩
      rw [shape, reached]
    dsimp only
    rw [handle, logSize]
    split
    · next torn =>
        rw [handle] at rescanned
        rw [yields_bind, yields_mapError]
        refine (syscall_any third .log _).mono ?_ fun _ _ noisy => here.later.noisy noisy
        rintro _ fourth ⟨later₄, now, -, same₄⟩
        have here₄ : Local s.baseOffset third fourth := by
          refine local_withStore .log _ later₄ same₄ fun key apart => ?_
          rw [Store.lookup_truncate, keyed.log, if_neg apart]
        rw [yields_bind]
        refine (syscall_any fourth .log _).mono ?_
          fun _ _ noisy => (here.trans here₄).later.noisy noisy
        rintro _ fifth ⟨later₅, now', -, same₅⟩
        have store : fifth.stores .log =
            ((world.stores .log).truncate s.logFile position now).seek s.logFile position := by
          rw [same₅, World.stores_withStore, if_pos rfl, same₄, World.stores_withStore, if_pos rfl,
            logs]
        have here₅ : Local s.baseOffset fourth fifth :=
          local_withStore .log _ later₅ same₅ fun _ _ => rfl
        have cut : data.take position = kept.flatten := by
          rw [reached]
          exact (List.prefix_iff_eq_take.mp inside).symm
        refine ⟨(here.trans here₄).trans here₅, ?_, kept, front, full, rescanned, ⟨?_, ?_⟩,
          fun all => ?_, iff_of_true (.inr filled) samples⟩
        · rw [store, Store.nextFd_seek, Store.nextFd_truncate]
        · obtain ⟨file, found, rfl⟩ := Option.map_eq_some_iff.mp contents
          rw [store, Store.lookup_seek, Store.lookup_truncate, keyed.log, if_pos rfl, found,
            Option.map_some, Option.map_some, cut]
        · rw [store, Store.offset_seek, if_pos rfl, reached]
        · rw [reached, all] at torn
          omega
    · next complete =>
        have all : kept.flatten = data := inside.eq_of_length_le (by omega)
        have whole : position = scanned.logSize := by
          rw [reached, all, logSize, size]
        rw [yields_bind]
        refine (syscall_any third .log _).mono ?_ fun _ _ noisy => here.later.noisy noisy
        rintro _ fourth ⟨later₄, now, -, same₄⟩
        have store : fourth.stores .log = (world.stores .log).seek s.logFile s.logSize := by
          rw [same₄, World.stores_withStore, if_pos rfl, logs]
        rw [whole] at rescanned
        refine ⟨here.trans (local_withStore .log _ later₄ same₄ fun _ _ => rfl), ?_, kept, front, full,
          rescanned, ⟨?_, ?_⟩, fun _ => by rw [store, Store.lookup_seek], iff_of_true (.inr filled) samples⟩
        · rw [store, Store.nextFd_seek]
        · rw [store, Store.lookup_seek, all]
          exact contents
        · rw [store, Store.offset_seek, if_pos rfl, all, size]

end KafkaWire.Storage
