import KafkaWire.Broker.FetchRace
import KafkaWire.Lib.Publish

/-! Creations and deletions of topics that run at the same time. Each time a call holds the
registry's lock, and each call of the file system beside it, is a step of its own; so are the
snapshot, the write and the rename in which `topics.json` is saved. -/

namespace KafkaWire.Broker

open Publish (Shared Contents WriteOutcome)
open Storage

/-- `ensure` is `EnsureTopicForTenant`; from Produce, which looks the topic up once before, `appends`
is set. What Produce then does with the topic it has leaves the registry and the file alone. -/
inductive TopicCall
  | ensure (name : String) (partitions : Int) (tenantID : String) (appends : Bool)
  | create (name : String) (partitions replicationFactor : Int)
  | delete (name : String)
  deriving DecidableEq, Repr

def TopicCall.name : TopicCall → String
  | .ensure name _ _ _ => name
  | .create name _ _ => name
  | .delete name => name

inductive TopicStage
  | asked
  | looked
  | creating
  | saving (t : Option Topic)
  | forgetting
  | dropping (forgotten : Bool)
  | removing (forgotten dropped : Bool)
  | returned (result : Except BrokerErr (Option Topic))

structure TopicRace where
  broker : BrokerState
  files : Shared (Table TopicConfig)
  calls : List (TopicCall × TopicStage)

def TopicCall.config (cfg : Config) : TopicCall → TopicConfig
  | .ensure _ partitions tenantID _ =>
    ⟨if partitions ≤ 0 then cfg.defaultPartitions else partitions, cfg.defaultRepFactor, -1, -1,
      cfg.storage.segmentBytes, tenantID⟩
  | .create _ partitions factor => ⟨partitions, factor, -1, -1, cfg.storage.segmentBytes, ""⟩
  | .delete _ => ⟨0, 0, 0, 0, 0, ""⟩

def TopicCall.check : TopicCall → Except BrokerErr Unit
  | .ensure _ _ _ _ => .ok ()
  | .create name partitions _ =>
    match validateName "topic" name with
    | .error cause => .error (.invalidName cause)
    | .ok () =>
      if partitions > maxPartitionsPerTopic then .error (.tooManyPartitions partitions) else .ok ()
  | .delete name =>
    match validateName "topic" name with
    | .error cause => .error (.invalidName cause)
    | .ok () => .ok ()

def TopicCall.start : TopicCall → TopicStage
  | .ensure _ _ _ true => .asked
  | .ensure _ _ _ false => .looked
  | .create _ _ _ => .creating
  | .delete _ => .creating

inductive TopicEvent
  | called (call : TopicCall)
  | advanced (idx : Nat) (answers : List Answer)
  | snapshot (idx : Nat) (ok : Bool)
  | wrote (idx : Nat) (outcome : WriteOutcome)
  | renamed (idx : Nat) (ok : Bool)
  | appended (name : String) (partition : Nat) (batches : List Bytes) (answers : List Answer)

namespace TopicRace

def onRegistry (call : TopicCall) : BrokerM (Option Topic) :=
  match call with
  | .delete name => do
      registryDelete name
      return none
  | call => do
      let cfg ← config
      return some (← registryCreate call.name (call.config cfg))

def setStage (s : TopicRace) (idx : Nat) (call : TopicCall) (stage : TopicStage) : TopicRace :=
  { s with calls := s.calls.set idx (call, stage) }

def register (s : TopicRace) (idx : Nat) (call : TopicCall) (answers : List Answer) : TopicRace :=
  match call.check with
  | .error err => s.setStage idx call (.returned (.error err))
  | .ok () =>
    match onRegistry call { s.broker with script := answers } with
    | .ok t b =>
      { broker := b
        files := s.files.step (.submit idx fun _ => configs b)
        calls := s.calls.set idx (call, .saving t) }
    | .error err b =>
      { s with broker := b, calls := s.calls.set idx (call, .returned (.error err)) }

def saved (call : TopicCall) (t : Option Topic) (ok : Bool) : TopicStage :=
  if ok then
    match call with
    | .delete _ => .forgetting
    | _ => .returned (.ok t)
  else .returned (.error .save)

def cleanUp (s : TopicRace) (idx : Nat) (call : TopicCall) (answers : List Answer)
    (prog : BrokerM Bool) (next : Bool → TopicStage) : TopicRace :=
  match prog { s.broker with script := answers } with
  | .ok done b => { s with broker := b, calls := s.calls.set idx (call, next done) }
  | .error err b => { s with broker := b, calls := s.calls.set idx (call, .returned (.error err)) }

def advance (s : TopicRace) (idx : Nat) (answers : List Answer) : TopicRace :=
  match s.calls[idx]? with
  | none => s
  | some (call, .asked) =>
    match s.broker.topics.lookup call.name with
    | some t => s.setStage idx call (.returned (.ok (some t)))
    | none => s.setStage idx call .looked
  | some (call, .looked) =>
    match s.broker.topics.lookup call.name with
    | some t => s.setStage idx call (.returned (.ok (some t)))
    | none =>
      if s.broker.cfg.autoCreateTopics then s.setStage idx call .creating
      else s.setStage idx call (.returned (.error .unknownTopic))
  | some (call, .creating) => s.register idx call answers
  | some (call, .saving t) =>
    match s.files.calls.lookup idx with
    | some (.returned ok) => s.setStage idx call (saved call t ok)
    | _ => s
  | some (call, .forgetting) => s.cleanUp idx call answers (forgetArchive call.name) .dropping
  | some (call, .dropping forgotten) =>
    s.cleanUp idx call answers (dropCached call.name) (.removing forgotten)
  | some (call, .removing forgotten dropped) =>
    s.cleanUp idx call answers (removeTopicDir call.name) fun removed =>
      .returned (if forgotten && dropped && removed then .ok none
        else .error (.cleanup (!forgotten) (!dropped) (!removed)))
  | some (_, .returned _) => s

def step (s : TopicRace) : TopicEvent → TopicRace
  | .called call => { s with calls := s.calls ++ [(call, call.start)] }
  | .advanced idx answers => s.advance idx answers
  | .snapshot idx ok => { s with files := s.files.step (.marshal idx ok) }
  | .wrote idx outcome => { s with files := s.files.step (.write idx outcome) }
  | .renamed idx ok => { s with files := s.files.step (.rename idx ok) }
  | .appended name partition batches answers =>
    { s with broker := after answers (appendOn name partition batches) s.broker }

/-- A broker that nobody calls yet. Its registry may have topics that the file lacks: a directory
found at the start is adopted. -/
def start (b : BrokerState) : TopicRace where
  broker := b
  files := { memory := configs b, temp := none, file := some (.whole b.topicsFile), calls := ∅ }
  calls := []

def run (b : BrokerState) (events : List TopicEvent) : TopicRace :=
  Machine.exec step (start b) events

end TopicRace

def idleBroker : BrokerState where
  cfg := ⟨"data", 1, "c", "localhost", 9092, true, 1, 1, ⟨1000, 0, 4096, .none⟩⟩
  acl := none
  topics := ∅
  dirs := fun _ => Dir.absent
  topicsFile := ∅
  archive := none
  nextLog := 0
  script := []

end KafkaWire.Broker
