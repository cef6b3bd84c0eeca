import KafkaWire.Broker.ArchiveRead
import KafkaWire.Broker.Names
import KafkaWire.Storage.Lifecycle

/-! The broker's topics: the registry, the partition directories and the file of topic
configurations, with the operations on them. -/

namespace KafkaWire.Broker

open Paths (Path)
open Storage Tiering

structure TopicConfig where
  numPartitions : Int
  replicationFactor : Int
  retentionMS : Int
  retentionBytes : Int
  segmentBytes : Int
  ownerTenantID : String
  deriving DecidableEq, Repr

/-- What is at a path. A directory that is removed and made again is another one; a log that has
the files of the old one open goes on reading and writing them. -/
structure Dir where
  present : Bool
  generation : Nat
  contents : Nat → World

def Dir.absent : Dir := ⟨false, 0, fun _ => World.empty⟩

structure LogHandle where
  id : Nat
  log : Log
  partition : Int
  dir : Path
  generation : Nat

structure Topic where
  cfg : TopicConfig
  partitions : List LogHandle

structure Config where
  dataDir : String
  brokerID : Int
  clusterID : String
  advertisedHost : String
  advertisedPort : Int
  autoCreateTopics : Bool
  defaultPartitions : Int
  defaultRepFactor : Int
  storage : Storage.Config

/-- What the world answers to one call that leaves the broker: whether a file is written or removed,
whether the disk guard holds writes back, how the system calls on a partition's files end, and what
becomes of a restore. -/
structure Answer where
  ok : Bool := true
  paused : Bool := false
  ticks : List Tick := []
  restore : RestoreOutcome := {}

structure Grant where
  start : String
  ops : List String
  deriving DecidableEq, Repr

structure Principal where
  tenantID : Option String
  topicPrefixes : List Grant
  groups : List Grant
  deriving DecidableEq, Repr

/-- `acls.json` -/
abbrev ACLStore := Table Principal

structure BrokerState where
  cfg : Config
  acl : Option ACLStore
  topics : Table Topic
  dirs : Path → Dir
  topicsFile : Table TopicConfig
  archive : Option Archive
  nextLog : Nat
  script : List Answer

inductive BrokerErr
  | unknownTopic
  | topicExists
  | unknownPartition
  | unauthorizedTopic
  | nameRequired
  | invalidName (cause : NameError)
  | tooManyPartitions (partitions : Int)
  | openPartition (partition : Int) (cause : Err)
  | close (cause : Err)
  | storage (cause : Err)
  | save
  | cleanup (forget drop remove : Bool)
  | panic
  deriving DecidableEq, Repr

abbrev BrokerM := EStateM BrokerErr BrokerState

def maxPartitionsPerTopic : Int := 1024

def topicsDir (cfg : Config) : Path := Paths.join [cfg.dataDir, "topics"]

def topicDir (cfg : Config) (name : String) : Path := Paths.join [cfg.dataDir, "topics", name]

def partitionDir (cfg : Config) (name : String) (partition : Int) : Path :=
  Paths.join [cfg.dataDir, "topics", name, toString partition]

section Calls

def answer : BrokerM Answer := modifyGet fun b =>
  match b.script with
  | [] => ({}, b)
  | a :: rest => (a, { b with script := rest })

def config : BrokerM Config := do return (← get).cfg

/-- `TopicRegistry.Get` -/
def getTopic (name : String) : BrokerM (Option Topic) := do return (← get).topics.lookup name

def putTopic (name : String) (t : Topic) : BrokerM Unit :=
  modify fun b => { b with topics := b.topics.insert name t }

def eraseTopic (name : String) : BrokerM Unit :=
  modify fun b => { b with topics := b.topics.erase name }

/-- `MkdirAll`, and which directory is there then. -/
def makeDir (path : Path) (ok : Bool) : BrokerM Nat := modifyGet fun b =>
  let dir := b.dirs path
  (dir.generation,
    { b with dirs := Function.update b.dirs path { dir with present := dir.present || ok } })

def runOn {α : Type} (prog : SysM α) (ticks : List Tick) (world : World) : Except Err α × World :=
  match prog { world with pending := ticks } with
  | .ok value world => (.ok value, world)
  | .error err world => (.error err, world)

def onFiles {α : Type} (path : Path) (generation : Nat) (ticks : List Tick) (prog : SysM α) :
    BrokerM (Except Err α) := modifyGet fun b =>
  let run := runOn prog ticks ((b.dirs path).contents generation)
  (run.1,
    { b with
      dirs := Function.update b.dirs path
        { b.dirs path with contents := Function.update (b.dirs path).contents generation run.2 } })

def files (l : LogHandle) : BrokerM World := do
  return ((← get).dirs l.dir).contents l.generation

/-- `os.RemoveAll` -/
def removeAll (path : Path) : BrokerM Unit := modify fun b =>
  { b with
    dirs := fun other =>
      if path.under other then
        { b.dirs other with present := false, generation := (b.dirs other).generation + 1 }
      else b.dirs other }

def newLogID : BrokerM Nat := modifyGet fun b => (b.nextLog, { b with nextLog := b.nextLog + 1 })

def onArchive {α : Type} (default : α) (act : Archive → α × Archive) : BrokerM α := modifyGet fun b =>
  match b.archive with
  | none => (default, b)
  | some a =>
    let (value, a') := act a
    (value, { b with archive := some a' })

section Yields

open Programs

variable {α : Type} {b : BrokerState} {failed : BrokerErr → BrokerState → Prop}

theorem yields_answer {post : Answer → BrokerState → Prop} :
    Yields answer b post failed ↔
      post (b.script.headD {}) { b with script := b.script.tail } := by
  rw [answer, yields_modifyGet]
  rcases b with ⟨cfg, acl, topics, dirs, file, archive, next, _ | ⟨first, rest⟩⟩ <;> rfl

theorem yields_config {post : Config → BrokerState → Prop} :
    Yields config b post failed ↔ post b.cfg b := Iff.rfl

theorem yields_getTopic {name : String} {post : Option Topic → BrokerState → Prop} :
    Yields (getTopic name) b post failed ↔ post (b.topics.lookup name) b := Iff.rfl

theorem yields_files {l : LogHandle} {post : World → BrokerState → Prop} :
    Yields (files l) b post failed ↔ post ((b.dirs l.dir).contents l.generation) b := Iff.rfl

theorem yields_onArchive {default : α} {act : Archive → α × Archive} {a : Archive}
    {post : α → BrokerState → Prop} (present : b.archive = some a) :
    Yields (onArchive default act) b post failed ↔
      post (act a).1 { b with archive := some (act a).2 } := by
  rw [onArchive, yields_modifyGet, present]

end Yields

end Calls

section Registry

/-- `Storage.OpenLog` -/
def openPartition (name : String) (partition : Int) : BrokerM (Except Err LogHandle) := do
  let cfg ← config
  let a ← answer
  let path := partitionDir cfg name partition
  let generation ← makeDir path (a.ticks.head?.all fun tick => tick.fault = none)
  match ← onFiles path generation a.ticks (openLog cfg.storage) with
  | .ok log => return .ok ⟨← newLogID, log, partition, path, generation⟩
  | .error err => return .error err

def closePartitions : List LogHandle → BrokerM (Option Err)
  | [] => return none
  | l :: rest => do
      let a ← answer
      let failed ← onFiles l.dir l.generation a.ticks (LiveLog.closeLoop false l.log.segments)
      let later ← closePartitions rest
      match failed with
      | .ok none => return later
      | .ok (some err) => return some err
      | .error err => return some err

def openPartitions (name : String) : Nat → Int → List LogHandle → BrokerM (List LogHandle)
  | 0, _, parts => return parts
  | count + 1, partition, parts => do
      match ← openPartition name partition with
      | .ok l => openPartitions name count (partition + 1) (parts ++ [l])
      | .error err => do
          let _ ← closePartitions parts
          throw (.openPartition partition err)

/-- `TopicRegistry.Create`, under the registry's lock. -/
def registryCreate (name : String) (cfg : TopicConfig) : BrokerM Topic := do
  if name = "" then throw .nameRequired
  let cfg := { cfg with
    numPartitions := if cfg.numPartitions ≤ 0 then 1 else cfg.numPartitions
    replicationFactor := if cfg.replicationFactor ≤ 0 then 1 else cfg.replicationFactor }
  match ← getTopic name with
  | some _ => throw .topicExists
  | none => do
      let t : Topic := ⟨cfg, ← openPartitions name cfg.numPartitions.toNat 0 []⟩
      putTopic name t
      return t

/-- `TopicRegistry.Delete`. A topic whose logs cannot be closed stays, without its logs. -/
def registryDelete (name : String) : BrokerM Unit := do
  match ← getTopic name with
  | none => throw .unknownTopic
  | some t =>
    match ← closePartitions t.partitions with
    | some err => do
        putTopic name { t with partitions := [] }
        throw (.close err)
    | none => eraseTopic name

def configs (b : BrokerState) : Table TopicConfig :=
  b.topics.entries.foldl (fun file entry => file.insert entry.1 entry.2.cfg) ∅

/-- `persistTopicsLocked` -/
def persistTopics : BrokerM Unit := do
  let a ← answer
  if a.ok then modify fun b => { b with topicsFile := configs b } else throw .save

end Registry

section Operations

def ensureTopicForTenant (name : String) (partitions : Int) (tenantID : String) : BrokerM Topic := do
  match ← getTopic name with
  | some t => return t
  | none => do
      let cfg ← config
      if !cfg.autoCreateTopics then throw .unknownTopic
      let t ← registryCreate name
        { numPartitions := if partitions ≤ 0 then cfg.defaultPartitions else partitions
          replicationFactor := cfg.defaultRepFactor
          retentionMS := -1
          retentionBytes := -1
          segmentBytes := cfg.storage.segmentBytes
          ownerTenantID := tenantID }
      persistTopics
      return t

def ensureTopic (name : String) (partitions : Int) : BrokerM Topic :=
  ensureTopicForTenant name partitions ""

def createTopic (name : String) (partitions replicationFactor : Int) : BrokerM Topic := do
  match validateName "topic" name with
  | .error cause => throw (.invalidName cause)
  | .ok () => do
      if partitions > maxPartitionsPerTopic then throw (.tooManyPartitions partitions)
      let cfg ← config
      let t ← registryCreate name
        { numPartitions := partitions
          replicationFactor := replicationFactor
          retentionMS := -1
          retentionBytes := -1
          segmentBytes := cfg.storage.segmentBytes
          ownerTenantID := "" }
      persistTopics
      return t

/-- `ForgetTopic`. The manifest forgets the topic in memory whether or not it can be written. -/
def forgetArchive (name : String) : BrokerM Bool := do
  let a ← answer
  onArchive () fun archive => ((), { archive with manifest := archive.manifest.forgetTopic name })
  return a.ok

/-- `DropTopic` -/
def dropCached (name : String) : BrokerM Bool := do
  let a ← answer
  onArchive () fun archive =>
    ((), if a.ok then { archive with cache := archive.cache.dropTopic name } else archive)
  return a.ok

/-- `removeAllSafe` -/
def removeTopicDir (name : String) : BrokerM Bool := do
  let cfg ← config
  let a ← answer
  if a.ok then do
    removeAll (topicDir cfg name)
    return true
  else return false

def deleteTopic (name : String) : BrokerM Unit := do
  match validateName "topic" name with
  | .error cause => throw (.invalidName cause)
  | .ok () => do
      registryDelete name
      persistTopics
      let forgotten ← forgetArchive name
      let dropped ← dropCached name
      let removed ← removeTopicDir name
      if forgotten && dropped && removed then return ()
      else throw (.cleanup (!forgotten) (!dropped) (!removed))

def Topic.partition (t : Topic) (idx : Int) : Option LogHandle :=
  if idx < 0 then none else t.partitions[idx.toNat]?

def verifyTopicTenant (t : Topic) (principalTenant : String) : Except BrokerErr Unit :=
  if principalTenant = "" then .ok ()
  else if t.cfg.ownerTenantID = "" then .error .unauthorizedTopic
  else if t.cfg.ownerTenantID ≠ principalTenant then .error .unauthorizedTopic
  else .ok ()

def setLog (name : String) (idx : Nat) (log : Log) : BrokerM Unit := modify fun b =>
  match b.topics.lookup name with
  | none => b
  | some t =>
    { b with
      topics := b.topics.insert name
        { t with partitions := t.partitions.modify idx fun l => { l with log := log } } }

/-- `Log.Append` on a partition of the topic. -/
def appendTo (name : String) (idx : Nat) (l : LogHandle) (batches : List Bytes) : BrokerM Int := do
  let a ← answer
  let run ← onFiles l.dir l.generation a.ticks fun world =>
    match append a.paused batches ⟨l.log, world, []⟩ with
    | .ok first p => .ok (Except.ok first, p.log) p.world
    | .error err p => .ok (.error err, p.log) p.world
  match run with
  | .error err => throw (.storage err)
  | .ok (result, log) => do
      setLog name idx log
      match result with
      | .ok first => return first
      | .error err => throw (.storage err)

def topicFor (topic principalTenant : String) : BrokerM Topic := do
  match ← getTopic topic with
  | some t => return t
  | none => do
      let cfg ← config
      ensureTopicForTenant topic cfg.defaultPartitions principalTenant

def appendBatchesAuthorized (topic : String) (partition : Int) (batches : List Bytes)
    (principalTenant : String) : BrokerM Int := do
  let t ← topicFor topic principalTenant
  match verifyTopicTenant t principalTenant with
  | .error err => throw err
  | .ok () =>
    match t.partition partition with
    | none => throw .unknownPartition
    | some l => appendTo topic partition.toNat l batches

end Operations

end KafkaWire.Broker
