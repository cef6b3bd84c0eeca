import KafkaWire.Broker.Fetch
import KafkaWire.Broker.TopicEffects

/-! `FetchAuthorized` between the operations of other principals. The call checks the topic that
one lookup finds and reads the topic that a second lookup finds. -/

namespace KafkaWire.Broker

open Paths (Path Plain)
open Programs Storage Tiering

structure FetchCall where
  topic : String
  partition : Int
  fetchOffset : Int
  maxBytes : Int
  principalTenant : String
  deriving DecidableEq, Repr

/-- Where returned bytes were read: in a log of a topic with this owner, or in a restored file,
with the tenants of all segments that have been downloaded to its path. -/
inductive Origin
  | log (owner : String)
  | archived (tenants : List String)
  deriving DecidableEq, Repr

def Origin.BelongsTo (tenant : String) : Origin → Prop
  | .log owner => owner = tenant
  | .archived tenants => tenants ≠ [] ∧ ∀ other ∈ tenants, other = tenant

inductive FetchStage
  | started
  | checked
  | looked (l : LogHandle)
  | marked (l : LogHandle) (hwm logStart : Int)
  | missed (hwm logStart : Int)
  | gated (e : SegmentEntry) (hwm logStart : Int)
  | restored (e : SegmentEntry) (hwm logStart : Int)
  | returned (result : FetchResult) (origin : Option Origin)
  | panicked

def FetchStage.isChecked : FetchStage → Bool
  | .checked => true
  | _ => false

structure FetchRace where
  broker : BrokerState
  downloads : List SegmentEntry
  calls : List (FetchCall × FetchStage)

def registered (b : BrokerState) (id : Nat) : Option (Topic × LogHandle) :=
  b.topics.entries.findSome? fun entry =>
    (entry.2.partitions.find? fun l => l.id = id).map fun l => (entry.2, l)

/-- The log behind a pointer. Once its topic is deleted it is closed and has no segments. -/
def logNow (b : BrokerState) (l : LogHandle) : Log :=
  match registered b l.id with
  | some (_, l') => l'.log
  | none => { l.log with segments := [] }

namespace FetchCall

variable (c : FetchCall)

def outOfRange (hwm logStart : Int) : FetchStage :=
  .returned ⟨[], 0, hwm, logStart, some (.storage .offsetOutOfRange)⟩ none

def path (a : Archive) (e : SegmentEntry) : Path :=
  a.cache.pathTenant e.tenantID e.topic e.partition e.baseOffset

def check (b : BrokerState) : FetchStage :=
  match b.topics.lookup c.topic with
  | none => .returned (.failed .unknownTopic) none
  | some t =>
    match verifyTopicTenant t c.principalTenant with
    | .error err => .returned (.failed err) none
    | .ok () => .checked

def look (b : BrokerState) : FetchStage :=
  match b.topics.lookup c.topic with
  | none => .returned (.failed .unknownTopic) none
  | some t =>
    match t.partition c.partition with
    | none => .returned (.failed .unknownPartition) none
    | some l => .looked l

def read (b : BrokerState) (l : LogHandle) (hwm logStart : Int) : FetchStage :=
  match fetchAt (logNow b l) ((b.dirs l.dir).contents l.generation) c.fetchOffset c.maxBytes with
  | .ok (bytes, firstOffset) =>
    .returned ⟨bytes, firstOffset, hwm, logStart, none⟩
      ((registered b l.id).map fun entry => .log entry.1.cfg.ownerTenantID)
  | .error .panic => .panicked
  | .error (.err err) =>
    if err = .offsetOutOfRange ∧ b.archive.isSome then .missed hwm logStart
    else .returned ⟨[], 0, hwm, logStart, some (.storage err)⟩ none

def gate (a : Archive) (hwm logStart : Int) : FetchStage :=
  match archivedAt a.manifest c.topic c.partition c.fetchOffset with
  | none => outOfRange hwm logStart
  | some e =>
    if c.principalTenant ≠ "" ∧ e.tenantID ≠ c.principalTenant then
      .returned ⟨[], 0, hwm, logStart, some .unauthorizedTopic⟩ none
    else .gated e hwm logStart

def restore (a : Archive) (e : SegmentEntry) (hwm logStart : Int) (outcome : RestoreOutcome) :
    FetchStage :=
  match (a.restore c.topic c.partition e.baseOffset outcome.attempts).1 with
  | some .panic => .panicked
  | some _ => outOfRange hwm logStart
  | none => .restored e hwm logStart

def readRestored (a : Archive) (downloads : List SegmentEntry) (e : SegmentEntry)
    (hwm logStart : Int) (outcome : RestoreOutcome) : FetchStage :=
  match (openRestored a e outcome).1 with
  | none => outOfRange hwm logStart
  | some data =>
    if outcome.readable then
      match readArchived data c.fetchOffset c.maxBytes with
      | .ok (bytes, firstOffset) =>
        .returned ⟨bytes, firstOffset, hwm, logStart, none⟩ (some (.archived
          ((downloads.filter fun d => path a d = path a e).map SegmentEntry.tenantID)))
      | .error .panic => .panicked
      | .error .unauthorizedTopic =>
        .returned ⟨[], 0, hwm, logStart, some .unauthorizedTopic⟩ none
      | .error _ => outOfRange hwm logStart
    else outOfRange hwm logStart

end FetchCall

/-- What other principals and the background tasks do, and the steps of the calls. An operation on
a topic takes one event for each time it holds a lock; what the manifest, a log or a file becomes
in between is left open. -/
inductive RaceEvent
  | created (name : String) (cfg : TopicConfig) (answers : List Answer)
  | deleted (name : String) (answers : List Answer)
  | persisted (answers : List Answer)
  | removed (name : String)
  | appended (name : String) (idx : Nat) (batches : List Bytes) (answers : List Answer)
  | logChanged (name : String) (idx : Nat) (log : Log)
  | filesChanged (path : Path) (generation : Nat) (world : World)
  | manifestChanged (m : Manifest)
  | downloaded (e : SegmentEntry) (attempt : Attempt)
  | evicted (path : Path)
  | called (c : FetchCall)
  | advanced (idx : Nat) (outcome : RestoreOutcome)

def appendOn (name : String) (idx : Nat) (batches : List Bytes) : BrokerM Int := do
  match ← getTopic name with
  | none => throw .unknownTopic
  | some t =>
    match t.partitions[idx]? with
    | none => throw .unknownPartition
    | some l => appendTo name idx l batches

def onBrokerArchive (act : Archive → Archive) (b : BrokerState) : BrokerState :=
  { b with archive := b.archive.map act }

namespace FetchRace

def onBroker (change : BrokerState → BrokerState) (s : FetchRace) : FetchRace :=
  { s with broker := change s.broker }

def nextStage (s : FetchRace) (c : FetchCall) (outcome : RestoreOutcome) : FetchStage → FetchStage
  | .started => c.check s.broker
  | .checked => c.look s.broker
  | .looked l => .marked l (logNow s.broker l).highWatermark (logNow s.broker l).logStart
  | .marked l hwm logStart => c.read s.broker l hwm logStart
  | .missed hwm logStart =>
    match s.broker.archive with
    | none => .missed hwm logStart
    | some a => c.gate a hwm logStart
  | .gated e hwm logStart =>
    match s.broker.archive with
    | none => .gated e hwm logStart
    | some a => c.restore a e hwm logStart outcome
  | .restored e hwm logStart =>
    match s.broker.archive with
    | none => .restored e hwm logStart
    | some a => c.readRestored a s.downloads e hwm logStart outcome
  | stage => stage

def nextArchive (c : FetchCall) (outcome : RestoreOutcome) (stage : FetchStage) (a : Archive) :
    Archive :=
  match stage with
  | .gated e _ _ => (a.restore c.topic c.partition e.baseOffset outcome.attempts).2.1
  | .restored e _ _ => (openRestored a e outcome).2
  | _ => a

def nextDownload (s : FetchRace) (c : FetchCall) : FetchStage → List SegmentEntry
  | .gated e _ _ =>
    (s.broker.archive.bind fun a => a.manifest.lookup c.topic c.partition e.baseOffset).toList
  | _ => []

def advance (s : FetchRace) (idx : Nat) (outcome : RestoreOutcome) : FetchRace :=
  match s.calls[idx]? with
  | none => s
  | some (c, stage) =>
    { broker := onBrokerArchive (nextArchive c outcome stage) s.broker
      downloads := s.nextDownload c stage ++ s.downloads
      calls := s.calls.set idx (c, s.nextStage c outcome stage) }

def step (s : FetchRace) : RaceEvent → FetchRace
  | .created name cfg answers => s.onBroker (after answers (registryCreate name cfg))
  | .deleted name answers => s.onBroker (after answers (registryDelete name))
  | .persisted answers => s.onBroker (after answers persistTopics)
  | .removed name => s.onBroker fun b => after [] (removeAll (topicDir b.cfg name)) b
  | .appended name idx batches answers => s.onBroker (after answers (appendOn name idx batches))
  | .logChanged name idx log => s.onBroker (after [] (setLog name idx log))
  | .filesChanged path generation world => s.onBroker fun b =>
    { b with
      dirs := Function.update b.dirs path
        { b.dirs path with contents := Function.update (b.dirs path).contents generation world } }
  | .manifestChanged m => s.onBroker (onBrokerArchive fun a => { a with manifest := m })
  | .downloaded e attempt =>
    { s.onBroker (onBrokerArchive fun a => (a.downloadOnce e attempt).2) with
      downloads := e :: s.downloads }
  | .evicted path => s.onBroker (onBrokerArchive fun a =>
    { a with cache := { a.cache with files := a.cache.files.erase path } })
  | .called c => { s with calls := s.calls ++ [(c, .started)] }
  | .advanced idx outcome => s.advance idx outcome

end FetchRace

def Storable (e : SegmentEntry) : Prop :=
  validateName "topic" e.topic = .ok () ∧ (e.tenantID = "" ∨ Plain e.tenantID)

instance (e : SegmentEntry) : Decidable (Storable e) :=
  inferInstanceAs (Decidable (_ ∧ _))

def FetchRace.Fitting (s : FetchRace) : RaceEvent → Prop
  | .deleted name _ => ∀ call ∈ s.calls, call.2.isChecked = true → call.1.topic ≠ name
  | .manifestChanged m => ∀ e ∈ m.completed, Storable e
  | .downloaded e _ => Storable e
  | _ => True

instance (s : FetchRace) : (event : RaceEvent) → Decidable (s.Fitting event)
  | .deleted _ _ => inferInstanceAs (Decidable (∀ call ∈ s.calls, _))
  | .manifestChanged m => inferInstanceAs (Decidable (∀ e ∈ m.completed, Storable e))
  | .downloaded e _ => inferInstanceAs (Decidable (Storable e))
  | .created _ _ _ | .persisted _ | .removed _ | .appended _ _ _ _ | .logChanged _ _ _
  | .filesChanged _ _ _ | .evicted _ | .called _ | .advanced _ _ => inferInstanceAs (Decidable True)

end KafkaWire.Broker
