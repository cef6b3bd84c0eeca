import KafkaWire.Lib.Publish
import KafkaWire.Broker.GroupState
import KafkaWire.Broker.Names

/-! `OffsetStore` over its directory: the groups in memory, the file of each, and the calls that
are persisting them. The steps of a call interleave with those of all others. -/

namespace KafkaWire.Broker

open Publish (Shared Contents WriteOutcome)

structure Commit where
  groupID : String
  topic : String
  partition : Int
  offset : Int
  leaderEpoch : Int := 0
  metadata : String := ""
  now : Int := 0
  deriving DecidableEq, Repr

def Commit.value (commit : Commit) : CommittedOffset where
  offset := commit.offset
  leaderEpoch := commit.leaderEpoch
  metadata := commit.metadata
  commitTimestamp := commit.now

/-- The checks that `CommitOffset` makes before it takes the lock. -/
def Commit.valid (commit : Commit) : Bool :=
  (validateName "group" commit.groupID).isOk && (validateName "topic" commit.topic).isOk

namespace GroupState

def offset? (gs : GroupState) (topic : String) (partition : Int) : Option CommittedOffset :=
  (gs.offsets.lookup topic).bind fun parts => parts.lookup partition

/-- `gs.Offsets[topic][partition] = value`, with the inner map made when it is missing. -/
def setOffset (gs : GroupState) (topic : String) (partition : Int) (value : CommittedOffset) :
    GroupState :=
  { gs with
    offsets := gs.offsets.insert topic
      (((gs.offsets.lookup topic).getD ∅).insert partition value) }

end GroupState

def OffsetStore.fetchOffset (store : OffsetStore) (groupID topic : String) (partition : Int) :
    CommittedOffset :=
  match store.groups.lookup groupID with
  | none => { offset := -1 }
  | some gs => (gs.offset? topic partition).getD { offset := -1 }

structure Coordination where
  generation : Int
  protocolType : String
  protocol : String
  members : Table MemberState
  leader : String

def Coordination.apply (change : Coordination) (gs : GroupState) : GroupState :=
  { gs with
    generation := change.generation
    protocolType := change.protocolType
    protocol := change.protocol
    members := change.members
    leader := change.leader }

/-- The steps that interleave. `commit` is the locked section of `CommitOffset`, `persist` a call
of `Persist` by the coordinator; both go on to marshal, write and rename. -/
inductive OffsetEvent
  | commit (call : Nat) (made : Commit)
  | coordinate (groupID : String) (change : Coordination)
  | persist (call : Nat) (groupID : String)
  | marshal (groupID : String) (call : Nat) (ok : Bool)
  | write (groupID : String) (call : Nat) (outcome : WriteOutcome)
  | rename (groupID : String) (call : Nat) (ok : Bool)

def OffsetEvent.groupID : OffsetEvent → String
  | .commit _ made => made.groupID
  | .coordinate groupID _ => groupID
  | .persist _ groupID => groupID
  | .marshal groupID _ _ => groupID
  | .write groupID _ _ => groupID
  | .rename groupID _ _ => groupID

def OffsetEvent.action : OffsetEvent → Publish.Event GroupState
  | .commit call made =>
    if made.valid then .submit call fun gs => gs.setOffset made.topic made.partition made.value
    else .idle
  | .coordinate _ change => .change change.apply
  | .persist call _ => .submit call fun gs => gs
  | .marshal _ call ok => .marshal call ok
  | .write _ call outcome => .write call outcome
  | .rename _ call ok => .rename call ok

structure OffsetFiles where
  groups : Table (Shared GroupState)

namespace OffsetFiles

/-- The group, which `CommitOffset` and `Get` create on first use. -/
def entry (s : OffsetFiles) (groupID : String) : Shared GroupState :=
  (s.groups.lookup groupID).getD
    { memory := { groupID := groupID }, temp := none, file := none, calls := ∅ }

def step (s : OffsetFiles) (event : OffsetEvent) : OffsetFiles where
  groups := s.groups.insert event.groupID ((s.entry event.groupID).step event.action)

/-- One turn of the loop of `NewOffsetStore`; a file that does not parse is an error. -/
def loadFile (groups : Table GroupState) (file : Option (Contents GroupState)) :
    Option (Table GroupState) :=
  match file with
  | none => some groups
  | some (.whole gs) => some (groups.insert gs.groupID gs)
  | some .torn => none

/-- `NewOffsetStore` on the files that the process leaves behind. -/
def restart (s : OffsetFiles) : Option OffsetStore :=
  ((s.groups.entries.map fun entry => entry.2.file).foldlM loadFile ∅).map OffsetStore.mk

end OffsetFiles

/-- A groups directory as the broker leaves it: every file is whole and holds the group that it is
named after. -/
structure GroupsDir where
  files : Table GroupState
  named : ∀ id gs, files.lookup id = some gs → gs.groupID = id

/-- The process after `NewOffsetStore`. A temporary file that an earlier process left behind is
written again before any call renames it. -/
def GroupsDir.boot (dir : GroupsDir) : OffsetFiles where
  groups := dir.files.entries.foldl
    (fun groups entry => groups.insert entry.1
      { memory := entry.2, temp := none, file := some (.whole entry.2), calls := ∅ }) ∅

end KafkaWire.Broker
