import KafkaWire.Broker.Fetch
import KafkaWire.Storage.Retained

/-! Fetches between the appends and the retention sweeps of a partition. A fetch reads the high
watermark, the log start and the batches one after the other, and holds the log's lock for each of
them alone. -/

namespace KafkaWire.Broker

open Bytes Programs Storage Tiering Related

structure FetchAsk where
  fetchOffset : Int
  maxBytes : Int
  deriving DecidableEq, Repr

inductive ReadStage
  | asked
  | marked (hwm : Int)
  | started (hwm logStart : Int)
  | missed (hwm logStart : Int)
  | returned (result : FetchResult)
  | panicked
  deriving DecidableEq, Repr

def ReadStage.reading : ReadStage → Bool
  | .marked _ | .started _ _ | .missed _ _ => true
  | _ => false

structure ArchivedSegment where
  baseOffset : Int
  nextOffset : Int
  data : Bytes
  deriving DecidableEq, Repr

def ArchivedSegment.has (a : ArchivedSegment) (offset : Int) : Bool :=
  a.baseOffset ≤ offset && offset < a.nextOffset

structure SharedLog where
  log : LiveLog
  archive : List ArchivedSegment
  calls : List (FetchAsk × ReadStage)

namespace FetchAsk

variable (ask : FetchAsk)

def outOfRange (hwm logStart : Int) : ReadStage :=
  .returned ⟨[], 0, hwm, logStart, some (.storage .offsetOutOfRange)⟩

def read (log : LiveLog) (hwm logStart : Int) : ReadStage :=
  match LiveLog.fetchAt ask.fetchOffset ask.maxBytes log with
  | .ok (bytes, firstOffset) _ => .returned ⟨bytes, firstOffset, hwm, logStart, none⟩
  | .error .panic _ => .panicked
  | .error (.err err) _ =>
    if err = .offsetOutOfRange then .missed hwm logStart
    else .returned ⟨[], 0, hwm, logStart, some (.storage err)⟩

/-- `restored` tells whether the segment could be downloaded and its file read. -/
def readArchive (archive : List ArchivedSegment) (restored : Bool) (hwm logStart : Int) : ReadStage :=
  match archive.find? fun a => a.has ask.fetchOffset with
  | none => outOfRange hwm logStart
  | some a =>
    if restored then
      match readArchived a.data ask.fetchOffset ask.maxBytes with
      | .ok (bytes, firstOffset) => .returned ⟨bytes, firstOffset, hwm, logStart, none⟩
      | .error .panic => .panicked
      | .error _ => outOfRange hwm logStart
    else outOfRange hwm logStart

def advance (s : SharedLog) (restored : Bool) : ReadStage → ReadStage
  | .asked => .marked s.log.partition.log.highWatermark
  | .marked hwm => .started hwm s.log.partition.log.logStart
  | .started hwm logStart => ask.read s.log hwm logStart
  | .missed hwm logStart => ask.readArchive s.archive restored hwm logStart
  | stage => stage

end FetchAsk

/-- The requests, sweeps, uploads and fetches on a log, and what the operating system answers. -/
inductive SharedEvent
  | append (paused : Bool) (batches : List Bytes) (ticks : List Tick)
  | deleteSegmentsBefore (cutoff : Int) (ticks : List Tick)
  | archived (base : Int)
  | called (ask : FetchAsk)
  | advanced (idx : Nat) (restored : Bool)

namespace SharedLog

def finalLog {α : Type} : EStateM.Result Fault LiveLog α → LiveLog
  | .ok _ l => l
  | .error _ l => l

def sealedCopy (l : LiveLog) (base : Int) : Option ArchivedSegment :=
  (l.segments.dropLast.find? fun seg => seg.baseOffset = base).map fun seg =>
    ⟨seg.baseOffset, seg.nextOffset, (l.partition.world.stores .log).data seg.baseOffset⟩

def step (s : SharedLog) : SharedEvent → SharedLog
  | .append paused batches ticks =>
    { s with log := finalLog (live (Storage.append paused batches) (LogsState.facing s.log ticks)) }
  | .deleteSegmentsBefore cutoff ticks =>
    { s with log := finalLog (LiveLog.deleteSegmentsBefore cutoff (LogsState.facing s.log ticks)) }
  | .archived base => { s with archive := s.archive ++ (sealedCopy s.log base).toList }
  | .called ask => { s with calls := s.calls ++ [(ask, .asked)] }
  | .advanced idx restored =>
    match s.calls[idx]? with
    | some (ask, stage) => { s with calls := s.calls.set idx (ask, ask.advance s restored stage) }
    | none => s

/-- No append comes between the two reads of a fetch. Its batches are well formed and have room,
no write stops half-way, and the files of a deleted segment can be removed. -/
def Apart (s : SharedLog) : SharedEvent → Prop
  | .append paused batches ticks =>
    (∀ call ∈ s.calls, call.2.reading = false) ∧ (∀ batch ∈ batches, IsBatch batch) ∧
      Fits s.log.partition.log.highWatermark (checkedBatches paused batches) ∧
      ∀ tick ∈ ticks, tick.fault = none ∨ tick.fault = some 0
  | .deleteSegmentsBefore _ ticks => ∀ tick ∈ ticks, tick.fault = none
  | _ => True

instance (s : SharedLog) : (event : SharedEvent) → Decidable (s.Apart event)
  | .append _ _ _ => inferInstanceAs (Decidable (_ ∧ _ ∧ _ ∧ _))
  | .deleteSegmentsBefore _ ticks => inferInstanceAs (Decidable (∀ tick ∈ ticks, tick.fault = none))
  | .archived _ | .called _ | .advanced _ _ => isTrue trivial

end SharedLog

/-- A batch that is below the high watermark, and at or above the log start or in the archive. -/
def Covered (archive : List ArchivedSegment) (hwm logStart : Int) (batch : Bytes) : Prop :=
  ∃ base, StoredAt base batch ∧ base + offsetCount batch ≤ hwm ∧
    (logStart ≤ base ∨ ∃ a ∈ archive, a.baseOffset ≤ base ∧ base + offsetCount batch ≤ a.nextOffset ∧
      batch <:+: a.data)

def FetchResult.Within (archive : List ArchivedSegment) (result : FetchResult) : Prop :=
  ∃ batches : List Bytes, result.bytes = batches.flatten ∧
    ∀ batch ∈ batches, Covered archive result.highWatermark result.logStart batch

theorem Covered.mono {archive archive' : List ArchivedSegment} {hwm logStart : Int} {batch : Bytes}
    (covered : Covered archive hwm logStart batch) (more : archive ⊆ archive') :
    Covered archive' hwm logStart batch := by
  obtain ⟨base, stored, below, local' | ⟨a, member, held⟩⟩ := covered
  · exact ⟨base, stored, below, .inl local'⟩
  · exact ⟨base, stored, below, .inr ⟨a, more member, held⟩⟩

theorem FetchResult.Within.mono {archive archive' : List ArchivedSegment} {result : FetchResult}
    (within : result.Within archive) (more : archive ⊆ archive') : result.Within archive' := by
  obtain ⟨batches, same, covered⟩ := within
  exact ⟨batches, same, fun batch member => (covered batch member).mono more⟩

theorem readArchived_whole {batches : List Bytes} {base next : Int} (tiles : Tiles base batches next)
    (positive : 0 ≤ base) {offset maxBytes first : Int} {bytes : Bytes} (low : base ≤ offset)
    (high : offset < next)
    (fetched : readArchived batches.flatten offset maxBytes = .ok (bytes, first)) :
    Whole batches bytes := by
  obtain ⟨front, batch, rest, -, shape, found, -⟩ := fromOffset_cons tiles low high
  have valid : ∀ b ∈ batch :: rest, IsBatch b := fun b member =>
    tiles.isBatch b (by rw [shape]; exact List.mem_append_right _ member)
  have whole := valid batch List.mem_cons_self
  have scanned := scanLoop_eq offset [] batches base next batches.flatten.length
    (List.replicate v2HeaderSize 0) tiles positive low high
    (Framing.length_le_flatten batchFormat batches tiles.isBatch) (by simp [v2HeaderSize])
  rw [found, List.nil_append] at scanned
  have place : batches.flatten.length - (batch :: rest).flatten.length = front.flatten.length := by
    rw [shape, List.flatten_append, List.length_append, Nat.add_sub_cancel]
  have reaches : batches.flatten.drop front.flatten.length = (batch :: rest).flatten := by
    rw [shape, List.flatten_append, List.drop_left]
  rw [place] at scanned
  rw [readArchived, show scanLoop batches.flatten offset batches.flatten.length
    (List.replicate v2HeaderSize 0) 0 = _ from scanned] at fetched
  dsimp only at fetched
  rw [readFrom] at fetched
  dsimp only at fetched
  generalize (if int64 (front.flatten.length + maxBytes) > (batches.flatten.length : Int) then
    (batches.flatten.length : Int) - front.flatten.length else maxBytes) = want at fetched
  split at fetched
  · cases fetched
  · rw [reaches] at fetched
    split at fetched
    · rw [readFirstBatch] at fetched
      split at fetched
      · cases fetched
      · next hdr parsed =>
          rw [List.flatten_cons] at parsed
          split at fetched
          · cases fetched
          · cases fetched
            refine ⟨[batch], ⟨front, rest, by rw [shape]; simp⟩, ?_⟩
            rw [reaches, whole.parsed_front parsed, Int.toNat_natCast, List.flatten_cons,
              List.take_left, List.flatten_singleton]
    · cases fetched
      rw [shape]
      exact Whole.trimmed valid _

def ArchivedSegment.Sound (hwm : Int) (a : ArchivedSegment) : Prop :=
  ∃ batches : List Bytes, a.data = batches.flatten ∧ Tiles a.baseOffset batches a.nextOffset ∧
    0 ≤ a.baseOffset ∧ a.nextOffset ≤ hwm

namespace SharedLog

theorem fetchAt_open {l : LiveLog} (handles : l.headClosed = false) (fetchOffset maxBytes : Int) :
    Yields (LiveLog.fetchAt fetchOffset maxBytes) l
      (fun result _ =>
        Storage.fetchAt l.partition.log l.partition.world fetchOffset maxBytes = .ok result)
      (fun fault _ =>
        Storage.fetchAt l.partition.log l.partition.world fetchOffset maxBytes = .error fault) := by
  simp only [LiveLog.fetchAt, yields_bind, yields_get]
  rw [if_neg (by simp [handles])]
  split
  · next result fetched => exact fetched
  · next fault failed => exact failed

theorem read_eq (ask : FetchAsk) (l : LiveLog) (handles : l.headClosed = false) (hwm logStart : Int) :
    ask.read l hwm logStart =
      match Storage.fetchAt l.partition.log l.partition.world ask.fetchOffset ask.maxBytes with
      | .ok (bytes, firstOffset) => .returned ⟨bytes, firstOffset, hwm, logStart, none⟩
      | .error .panic => .panicked
      | .error (.err err) =>
        if err = .offsetOutOfRange then .missed hwm logStart
        else .returned ⟨[], 0, hwm, logStart, some (.storage err)⟩ := by
  rw [FetchAsk.read]
  have spec := fetchAt_open handles ask.fetchOffset ask.maxBytes
  rcases ran : LiveLog.fetchAt ask.fetchOffset ask.maxBytes l with ⟨result, l'⟩ | ⟨fault, l'⟩
  · rw [spec.of_ok ran]
  · rw [spec.of_error ran]
    cases fault <;> rfl

/-- The copies that the steps read are what the archive restores: the entry with the offset is one
that the requester may read, and its file, if it can be restored and read, has the bytes of the
copy. -/
def Restores (a : Archive) (topic : String) (partition : Int) (ask : FetchAsk) (tenant : String)
    (outcome : RestoreOutcome) (copies : List ArchivedSegment) (restored : Bool) : Prop :=
  match archivedAt a.manifest topic partition ask.fetchOffset with
  | none => copies.find? (fun c => c.has ask.fetchOffset) = none
  | some e =>
    let restore := a.restore topic partition e.baseOffset outcome.attempts
    let file := (openRestored restore.2.1 e outcome).1
    (tenant = "" ∨ e.tenantID = tenant) ∧ restore.1 ≠ some .panic ∧
      ∃ copy, copies.find? (fun c => c.has ask.fetchOffset) = some copy ∧
        (∀ data ∈ file, data = copy.data) ∧
        restored = (restore.1.isNone && file.isSome && outcome.readable)

def archiveStage (hwm logStart : Int) : Except ArchiveErr (Bytes × Int) → ReadStage
  | .ok (bytes, firstOffset) => .returned ⟨bytes, firstOffset, hwm, logStart, none⟩
  | .error .panic => .panicked
  | .error .unauthorizedTopic => .returned ⟨[], 0, hwm, logStart, some .unauthorizedTopic⟩
  | .error _ => FetchAsk.outOfRange hwm logStart

theorem readArchive_eq {a : Archive} {topic : String} {partition : Int} {ask : FetchAsk}
    {tenant : String} {outcome : RestoreOutcome} {copies : List ArchivedSegment} {restored : Bool}
    (restores : Restores a topic partition ask tenant outcome copies restored) (hwm logStart : Int) :
    ask.readArchive copies restored hwm logStart = archiveStage hwm logStart
      (fetchFromArchive a topic partition ask.fetchOffset ask.maxBytes tenant outcome).1 := by
  unfold Restores at restores
  rw [FetchAsk.readArchive, fetchFromArchive]
  cases found : archivedAt a.manifest topic partition ask.fetchOffset with
  | none =>
    rw [found] at restores
    dsimp only at restores ⊢
    rw [restores]
    rfl
  | some e =>
    rw [found] at restores
    obtain ⟨own, calm, copy, there, bytes, rfl⟩ := restores
    have allowed : ¬ (tenant ≠ "" ∧ e.tenantID ≠ tenant) := fun other => own.elim other.1 other.2
    rw [there]
    dsimp only
    rw [if_neg allowed]
    generalize a.restore topic partition e.baseOffset outcome.attempts = restore at calm bytes ⊢
    obtain ⟨_ | err, a', rest⟩ := restore
    · dsimp only at bytes ⊢
      generalize openRestored a' e outcome = opened at bytes ⊢
      obtain ⟨_ | data, a''⟩ := opened
      · rfl
      · rw [← bytes data rfl]
        cases outcome.readable with
        | false => rfl
        | true =>
          have own : readArchived data ask.fetchOffset ask.maxBytes ≠ .error .unauthorizedTopic :=
            readArchived_untenanted
          dsimp only [Option.isNone_none, Option.isSome_some, Bool.and_self, if_true]
          generalize readArchived data ask.fetchOffset ask.maxBytes = read at own ⊢
          obtain err | ⟨bytes, first⟩ := read
          · cases err <;> first | rfl | exact absurd rfl own
          · rfl
    · cases err <;> first | rfl | exact absurd rfl calm

/-- The steps of a fetch that nothing comes between are those of `fetchInternal`. -/
theorem undisturbed_eq_fetchLog (topic : String) (partition : Int) (l : LogHandle) (ask : FetchAsk)
    (tenant : String) (b : BrokerState) (copies : List ArchivedSegment) (restored : Bool)
    (bare : b.archive = none → copies = []) (restores : ∀ a, b.archive = some a →
      Restores a topic partition ask tenant (b.script.headD {}).restore copies restored) :
    let log : LiveLog := ⟨⟨l.log, (b.dirs l.dir).contents l.generation, []⟩, false⟩
    let s := Machine.exec step ⟨log, copies, [(ask, .asked)]⟩
      (List.replicate 4 (.advanced 0 restored))
    Yields (fetchLog topic partition l ask.fetchOffset ask.maxBytes tenant) b
      (fun result _ => s.calls = [(ask, .returned result)])
      (fun err _ => err = .panic ∧ s.calls = [(ask, .panicked)]) := by
  intro log s
  have stages : s.calls = [(ask, ask.advance ⟨log, copies, []⟩ restored
      (ask.read log l.log.highWatermark l.log.logStart))] := rfl
  rw [stages, read_eq ask log rfl]
  simp only [fetchLog, yields_bind, yields_files]
  rcases fetchAt l.log ((b.dirs l.dir).contents l.generation) ask.fetchOffset ask.maxBytes with
    (_ | err) | ⟨bytes, first⟩
  · exact ⟨rfl, rfl⟩
  · by_cases below : err = .offsetOutOfRange
    · simp only [below, if_true, fetchArchived, yields_bind, yields_get]
      rcases here : b.archive with _ | a
      · simp only [Option.isNone_none, if_true, bare here]
        rfl
      · have read := readArchive_eq (restores a here) l.log.highWatermark l.log.logStart
        simp only [Option.isNone_some, Bool.false_eq_true, if_false, yields_bind, yields_answer]
        rw [yields_onArchive (b := { b with script := b.script.tail }) here]
        simp only [FetchAsk.advance, read]
        rcases (fetchFromArchive a topic partition ask.fetchOffset ask.maxBytes tenant
          (b.script.headD {}).restore).1 with err | ⟨bytes, first⟩
        · cases err <;> first | rfl | exact ⟨rfl, rfl⟩
        · rfl
    · simp only [if_neg below]
      rfl
  · rfl

theorem archived_eq_fetchLog :
    let cfg : Storage.Config := ⟨61, 0, 4096, .none⟩
    let l : LogHandle :=
      ⟨0, ⟨cfg, [emptySegment (segmentOpts cfg 5) 0 0 0 0], 5⟩, 0, ⟨false, []⟩, 0⟩
    let p : Partition := ⟨l.log, World.empty, []⟩
    let s := Machine.exec step ⟨⟨p, false⟩, [⟨0, 5, minimalBatch 4⟩], [(⟨0, 99⟩, .asked)]⟩
      (List.replicate 4 (.advanced 0 true))
    s.calls = [(⟨0, 99⟩, .returned ⟨minimalBatch 4, 0, 5, 5, none⟩)] ∧
      Yields (fetchLog "t" 0 l 0 99 "") (archivedBroker p ⟨[{}], false, true, 0⟩)
        (fun result _ => s.calls = [(⟨0, 99⟩, .returned result)])
        (fun err _ => err = .panic ∧ s.calls = [(⟨0, 99⟩, .panicked)]) := by
  refine ⟨by decide +kernel, undisturbed_eq_fetchLog "t" 0 _ ⟨0, 99⟩ "" _ _ true (by rintro ⟨⟩) ?_⟩
  rintro a ⟨⟩
  have found : archivedAt archivedState.archive.manifest "t" 0 0 =
      some (archivedEntry (minimalBatch 4) 5) := by decide +kernel
  simp only [Restores, found, true_or, true_and]
  exact ⟨by decide +kernel, _, rfl, by decide +kernel, by decide +kernel⟩

def StageOk (s : SharedLog) : ReadStage → Prop
  | .marked hwm => hwm = s.log.partition.log.highWatermark
  | .started hwm logStart =>
    hwm = s.log.partition.log.highWatermark ∧ logStart ≤ s.log.partition.log.logStart
  | .missed hwm _ => hwm = s.log.partition.log.highWatermark
  | .returned result => result.err = none → result.Within s.archive
  | _ => True

structure Coherent (s : SharedLog) : Prop where
  handles : s.log.headClosed = false
  retained : Retained s.log.partition
  archive : ∀ a ∈ s.archive, a.Sound s.log.partition.log.highWatermark
  calls : ∀ call ∈ s.calls, s.StageOk call.2

variable {s : SharedLog}

theorem read_ok (coherent : Coherent s) (ask : FetchAsk) {logStart : Int}
    (before : logStart ≤ s.log.partition.log.logStart) :
    s.StageOk (ask.read s.log s.log.partition.log.highWatermark logStart) := by
  rw [read_eq ask s.log coherent.handles]
  split
  · next bytes first fetched =>
      intro _
      obtain ⟨kept, same, inside⟩ := coherent.retained.fetchAt_inside fetched
      refine ⟨kept, same, fun batch member => ?_⟩
      obtain ⟨base, stored, low, high⟩ := inside batch member
      exact ⟨base, stored, high, .inl (le_trans before low)⟩
  · trivial
  · split
    · rfl
    · exact nofun

theorem readArchive_ok (coherent : Coherent s) (ask : FetchAsk) (restored : Bool) (logStart : Int) :
    s.StageOk (ask.readArchive s.archive restored s.log.partition.log.highWatermark logStart) := by
  rw [FetchAsk.readArchive]
  split
  · exact nofun
  · next a found =>
      split
      · split
        · next bytes first fetched =>
            intro _
            obtain ⟨batches, data, tiles, positive, below⟩ :=
              coherent.archive a (List.mem_of_find?_eq_some found)
            have covers := List.find?_some found
            rw [ArchivedSegment.has, Bool.and_eq_true, decide_eq_true_eq, decide_eq_true_eq] at covers
            rw [data] at fetched
            obtain ⟨kept, inside, same⟩ :=
              readArchived_whole tiles positive covers.1 covers.2 fetched
            refine ⟨kept, same, fun batch member => ?_⟩
            obtain ⟨base, low, high, stored⟩ := tiles.mem batch (inside.subset member)
            refine ⟨base, stored, le_trans high below,
              .inr ⟨a, List.mem_of_find?_eq_some found, low, high, ?_⟩⟩
            rw [data]
            obtain ⟨front, back, shape⟩ := List.append_of_mem (inside.subset member)
            exact ⟨front.flatten, back.flatten, by rw [shape]; simp⟩
        · trivial
        · exact nofun
      · exact nofun

theorem advance_ok (coherent : Coherent s) (ask : FetchAsk) (restored : Bool) {stage : ReadStage}
    (ok : s.StageOk stage) : s.StageOk (ask.advance s restored stage) := by
  cases stage with
  | asked => rfl
  | marked hwm => exact ⟨ok, le_refl _⟩
  | started hwm logStart =>
    obtain ⟨rfl, before⟩ := ok
    exact read_ok coherent ask before
  | missed hwm logStart =>
    obtain rfl : hwm = _ := ok
    exact readArchive_ok coherent ask restored logStart
  | returned result => exact ok
  | panicked => exact ok

theorem StageOk.mono {s' : SharedLog} {stage : ReadStage} (ok : s.StageOk stage)
    (more : s.archive ⊆ s'.archive)
    (reading : stage.reading = true →
      s'.log.partition.log.highWatermark = s.log.partition.log.highWatermark ∧
        s.log.partition.log.logStart ≤ s'.log.partition.log.logStart) : s'.StageOk stage := by
  cases stage with
  | asked => trivial
  | marked hwm => exact ok.trans (reading rfl).1.symm
  | started hwm logStart => exact ⟨ok.1.trans (reading rfl).1.symm, le_trans ok.2 (reading rfl).2⟩
  | missed hwm logStart => exact ok.trans (reading rfl).1.symm
  | returned result => exact fun done => (ok done).mono more
  | panicked => trivial

theorem append_coherent (coherent : Coherent s) {paused : Bool} {batches : List Bytes}
    {ticks : List Tick} (apart : s.Apart (.append paused batches ticks)) :
    Coherent (s.step (.append paused batches ticks)) := by
  obtain ⟨settled, valid, fits, calm⟩ := apart
  have retained := coherent.retained.facing ticks
  obtain ⟨front, active, old, new, intact⟩ := retained.intact
  have effects : ∀ p', Effects IsBatch False (s.log.partition.facing ticks) p' →
      Coherent { s with log := { LogsState.facing s.log ticks with partition := p' } } := by
    intro p' effects
    obtain ⟨front', active', layout', upward⟩ := Effects.layout effects intact.readable.layout
    have grown : s.log.partition.log.highWatermark ≤ p'.log.highWatermark := by
      rw [layout'.highWatermark]
      exact intact.readable.layout.highWatermark ▸ upward
    refine ⟨coherent.handles, Effects.retained effects retained, ?_, ?_⟩
    · intro a member
      obtain ⟨held, data, tiles, positive, below⟩ := coherent.archive a member
      exact ⟨held, data, tiles, positive, le_trans below grown⟩
    · intro call member
      refine (coherent.calls call member).mono (fun _ inside => inside) fun reading => ?_
      rw [settled call member] at reading
      cases reading
  have spec := append_effects intact.readable.layout calm paused batches
    (fun batch member => valid batch (checkedBatches_subset member)) fits
  rw [step]
  rcases ran : Storage.append paused batches (s.log.partition.facing ticks) with ⟨_, p'⟩ | ⟨_, p'⟩
  · simp only [live, LogsState.facing, ran]
    exact effects p' (spec.of_ok ran)
  · simp only [live, LogsState.facing, ran]
    exact effects p' (spec.of_error ran)

theorem delete_coherent (coherent : Coherent s) {cutoff : Int} {ticks : List Tick}
    (quiet : ∀ tick ∈ ticks, tick.fault = none) :
    Coherent (s.step (.deleteSegmentsBefore cutoff ticks)) := by
  have retained := coherent.retained.facing ticks
  have spec := deleteSegmentsBefore_advances cutoff (LogsState.facing s.log ticks) coherent.handles
    quiet retained
  obtain ⟨count, l', ran, handles, advances⟩ := spec.succeeds
  have same : l'.partition.log.highWatermark = s.log.partition.log.highWatermark :=
    advances.highWatermark
  rw [step, ran]
  refine ⟨handles, advances.retained, ?_, ?_⟩
  · intro a member
    show a.Sound l'.partition.log.highWatermark
    rw [same]
    exact coherent.archive a member
  · intro call member
    exact (coherent.calls call member).mono (fun _ inside => inside) fun _ =>
      ⟨same, advances.logStart⟩

theorem sealedCopy_sound {l : LiveLog} (retained : Retained l.partition) {base : Int}
    {a : ArchivedSegment} (copied : sealedCopy l base = some a) :
    a.Sound l.partition.log.highWatermark := by
  obtain ⟨front, active, old, new, intact⟩ := retained.intact
  have layout := intact.readable.layout
  obtain ⟨seg, found, rfl⟩ := Option.map_eq_some_iff.mp copied
  have member := List.mem_of_find?_eq_some found
  rw [LiveLog.segments, layout.segments, List.dropLast_concat] at member
  obtain ⟨before, after, shape⟩ := List.append_of_mem member
  obtain ⟨early, group, late, -, -, ⟨holds, complete⟩, -⟩ :=
    forall₂_split before (after ++ [active]) seg (old ++ [new]) (by
      have complete := intact.complete
      rwa [shape, List.append_assoc, List.cons_append] at complete)
  refine ⟨group, complete, holds.tiles, layout.positive seg (List.mem_append_left _ member), ?_⟩
  rw [layout.highWatermark]
  exact le_trans (layout.before_active seg member) layout.upward

theorem step_coherent (coherent : Coherent s) {event : SharedEvent} (apart : s.Apart event) :
    Coherent (s.step event) := by
  cases event with
  | append paused batches ticks => exact append_coherent coherent apart
  | deleteSegmentsBefore cutoff ticks => exact delete_coherent coherent apart
  | archived base =>
    refine ⟨coherent.handles, coherent.retained, ?_, ?_⟩
    · intro a member
      rcases List.mem_append.mp member with known | copied
      · exact coherent.archive a known
      · exact sealedCopy_sound coherent.retained (Option.mem_toList.mp copied)
    · intro call member
      exact (coherent.calls call member).mono (List.subset_append_left _ _)
        fun _ => ⟨rfl, le_refl _⟩
  | called ask =>
    refine ⟨coherent.handles, coherent.retained, coherent.archive, ?_⟩
    intro call member
    rcases List.mem_append.mp member with known | new
    · exact coherent.calls call known
    · rw [List.mem_singleton.mp new]
      trivial
  | advanced idx restored =>
    rw [step]
    split
    · next ask stage here =>
        refine ⟨coherent.handles, coherent.retained, coherent.archive, ?_⟩
        intro call member
        rcases List.mem_or_eq_of_mem_set member with known | rfl
        · exact coherent.calls call known
        · exact advance_ok coherent ask restored
            (coherent.calls _ (List.mem_of_getElem? here))
    · exact coherent

end SharedLog

/-- In every run in which no append falls between the reads of a fetch, the batches of a result are
below its high watermark, and at or above its log start or in the archive. -/
theorem fetched_batches_within (l : LiveLog) (opened : l.headClosed = false)
    (retained : Retained l.partition) (events : List SharedEvent)
    (guarded : Machine.Guarded SharedLog.step SharedLog.Apart ⟨l, [], []⟩ events)
    (ask : FetchAsk) (result : FetchResult)
    (returned : (ask, .returned result) ∈ (Machine.exec SharedLog.step ⟨l, [], []⟩ events).calls)
    (succeeded : result.err = none) :
    result.Within (Machine.exec SharedLog.step ⟨l, [], []⟩ events).archive := by
  have coherent := guarded.invariant (fun _ s => SharedLog.Coherent s) ⟨l, [], []⟩
    ⟨opened, retained, by simp, by simp⟩
    fun _ _ _ before apart => SharedLog.step_coherent before apart
  exact coherent.calls _ returned succeeded

private def freshLog : LiveLog :=
  match openLog ⟨61, 0, 4096, .none⟩ World.empty with
  | .ok log world => ⟨⟨log, world, []⟩, false⟩
  | .error _ world => ⟨⟨⟨⟨61, 0, 4096, .none⟩, [], 0⟩, world, []⟩, false⟩

private theorem freshLog_opened :
    freshLog.headClosed = false ∧ freshLog.partition.log.segments ≠ [] := by
  decide +kernel

private theorem freshLog_retained : Retained freshLog.partition := by
  rcases ran : openLog ⟨61, 0, 4096, .none⟩ World.empty with ⟨log, world⟩ | ⟨err, world⟩
  · simp only [freshLog, ran]
    exact ((openLog_bare _ _ World.bare_empty).of_ok ran).2.recorded.retained
  · have opened := freshLog_opened.2
    simp only [freshLog, ran] at opened
    exact absurd rfl opened

/-- Two requests, an upload and a sweep, and then a fetch of a batch in the archive and one of a
batch in the log. -/
private def sweptRun : List SharedEvent :=
  [.append false [minimalBatch 0] [], .append false [minimalBatch 4] [], .archived 0,
    .deleteSegmentsBefore 1 [], .called ⟨0, 1000⟩, .called ⟨1, 1000⟩] ++
  (List.replicate 4 [.advanced 0 true, .advanced 1 true]).flatten

theorem swept_batches_within :
    let s := Machine.exec SharedLog.step ⟨freshLog, [], []⟩ sweptRun
    ∃ first second, s.calls = [(⟨0, 1000⟩, .returned first), (⟨1, 1000⟩, .returned second)] ∧
      first.bytes = stamp (minimalBatch 0) 0 ∧ second.bytes = stamp (minimalBatch 4) 1 ∧
      first.logStart = 1 ∧ first.Within s.archive ∧ second.Within s.archive := by
  intro s
  have calls : s.calls = [(⟨0, 1000⟩, .returned ⟨stamp (minimalBatch 0) 0, 0, 6, 1, none⟩),
      (⟨1, 1000⟩, .returned ⟨stamp (minimalBatch 4) 1, 1, 6, 1, none⟩)] := by decide +kernel
  have guarded : Machine.Guarded SharedLog.step SharedLog.Apart ⟨freshLog, [], []⟩ sweptRun := by
    decide +kernel
  have within := fetched_batches_within freshLog freshLog_opened.1 freshLog_retained sweptRun guarded
  refine ⟨_, _, calls, rfl, rfl, rfl, ?_, ?_⟩
  · exact within ⟨0, 1000⟩ _ (by rw [calls]; simp) rfl
  · exact within ⟨1, 1000⟩ _ (by rw [calls]; simp) rfl

theorem FetchResult.Within.first_below {archive : List ArchivedSegment} {result : FetchResult}
    (within : result.Within archive) (some : result.bytes ≠ []) :
    (decodeHeader result.bytes).baseOffset < result.highWatermark := by
  obtain ⟨batches, same, covered⟩ := within
  cases batches with
  | nil => exact absurd same some
  | cons batch rest =>
    obtain ⟨base, stored, below, -⟩ := covered batch List.mem_cons_self
    have header : decodeHeader result.bytes = decodeHeader batch := by
      rw [← decodeHeader_take _ batch.length stored.whole.length_ge, same, List.flatten_cons,
        List.take_left]
    rw [header, stored.baseOffset]
    exact lt_of_lt_of_le (lt_add_of_pos_right base stored.counted) below

/-- A batch that is appended once the high watermark has been read is returned with it. -/
private def overtakenFetch : List SharedEvent :=
  [.called ⟨0, 1000⟩, .advanced 0 true, .append false [minimalBatch 0] [], .advanced 0 true,
    .advanced 0 true]

theorem appended_batch_passes_watermark :
    let s := Machine.exec SharedLog.step ⟨freshLog, [], []⟩ overtakenFetch
    ∃ result, s.calls = [(⟨0, 1000⟩, .returned result)] ∧ result.err = none ∧
      result.bytes = stamp (minimalBatch 0) 0 ∧ result.highWatermark = 0 ∧
      ¬ result.Within s.archive := by
  intro s
  have calls : s.calls = [(⟨0, 1000⟩, .returned ⟨stamp (minimalBatch 0) 0, 0, 0, 0, none⟩)] := by
    decide +kernel
  refine ⟨_, calls, rfl, rfl, rfl, fun within => ?_⟩
  exact absurd (within.first_below (by decide +kernel)) (by decide +kernel)

end KafkaWire.Broker
