import KafkaWire.Broker.Acl
import KafkaWire.Broker.Committed
import KafkaWire.Lib.TwoRuns
import KafkaWire.Wire.Messages
import KafkaWire.Wire.Produce

/-! The handlers of the consumer-group requests. -/

namespace KafkaWire.Wire

open Broker Programs

def errCodeGroupAuthorizationFailed : Int := 30

structure JoinGroupResponse where
  errorCode : Int
  generation : Int := -1
  protocolType : Option String := none
  protocol : Option String := none
  leaderID : String := ""
  memberID : String := ""
  members : List JoinGroupMember := []
  deriving DecidableEq, Repr

structure SyncGroupRequest where
  group : String
  generation : Int
  memberID : String
  groupAssignment : List (String × Bytes)
  deriving DecidableEq, Repr

structure OffsetCommitPartition where
  partition : Int
  offset : Int
  leaderEpoch : Int
  metadata : Option String
  deriving DecidableEq, Repr

structure OffsetCommitTopic where
  topic : String
  partitions : List OffsetCommitPartition
  deriving DecidableEq, Repr

structure OffsetCommitRequest where
  group : String
  generation : Int
  memberID : String
  topics : List OffsetCommitTopic
  deriving DecidableEq, Repr

structure OffsetCommitAnswer where
  partition : Int
  errorCode : Int
  deriving DecidableEq, Repr

structure OffsetFetchTopic where
  topic : String
  partitions : List Int
  deriving DecidableEq, Repr

structure OffsetFetchGroup where
  group : String
  topics : List OffsetFetchTopic
  deriving DecidableEq, Repr

structure OffsetFetchRequest where
  group : String
  topics : List OffsetFetchTopic
  groups : List OffsetFetchGroup
  deriving DecidableEq, Repr

structure OffsetFetchAnswer where
  partition : Int
  offset : Int
  leaderEpoch : Int
  metadata : Option String
  deriving DecidableEq, Repr

structure OffsetFetchGroupAnswer where
  group : String
  topics : List (TopicAnswer OffsetFetchAnswer)
  deriving DecidableEq, Repr

structure DescribedMember where
  memberID : String
  clientID : String
  clientHost : String
  deriving DecidableEq, Repr

structure DescribedGroup where
  group : String
  errorCode : Int := 0
  state : String := ""
  protocolType : String := ""
  protocol : String := ""
  members : List DescribedMember := []
  authorizedOperations : Int := -2147483648
  deriving DecidableEq, Repr

inductive GroupRequest
  | joinGroup (args : JoinGroupArgs)
  | syncGroup (req : SyncGroupRequest)
  | heartbeat (args : HeartbeatArgs)
  | leaveGroup (group memberID : String) (members : List String)
  | offsetCommit (req : OffsetCommitRequest)
  | offsetFetch (req : OffsetFetchRequest)
  | describeGroups (groups : List String)

def GroupRequest.names : GroupRequest → List String
  | .joinGroup args => [args.groupID]
  | .syncGroup req => [req.group]
  | .heartbeat args => [args.groupID]
  | .leaveGroup group _ _ => [group]
  | .offsetCommit req => [req.group]
  | .offsetFetch req => req.group :: req.groups.map OffsetFetchGroup.group
  | .describeGroups groups => groups

inductive GroupResponse
  | joinGroup (resp : JoinGroupResponse)
  | syncGroup (errorCode : Int) (assignment : Bytes)
  | heartbeat (errorCode : Int)
  | leaveGroup (errorCode : Int) (members : List (String × Int))
  | offsetCommit (topics : List (TopicAnswer OffsetCommitAnswer))
  | offsetFetch (topics : List (TopicAnswer OffsetFetchAnswer)) (groups : List OffsetFetchGroupAnswer)
  | describeGroups (groups : List DescribedGroup)
  deriving DecidableEq, Repr

/-- What a request meets at one call: the time, the random part of a member id, the order in which
a map is ranged over, and whether the group file can be written. -/
structure GroupAnswer where
  now : Int := 0
  random : Bytes := []
  order : List String := []
  persists : Bool := true
  deriving DecidableEq, Repr

structure GroupBroker where
  acl : Option ACLStore
  groups : GroupCoordinator
  script : List GroupAnswer

abbrev GroupM := EStateM Unit GroupBroker

namespace GroupHandler

def answer : GroupM GroupAnswer := modifyGet fun b =>
  match b.script with
  | [] => ({}, b)
  | a :: rest => (a, { b with script := rest })

def coordinate (event : GroupAnswer → Event) : GroupM (Option Reply) := do
  let a ← answer
  modifyGet fun b => (b.groups.reply (event a), { b with groups := b.groups.step (event a) })

def joinResponse (res : JoinGroupResult) : JoinGroupResponse where
  errorCode := res.errorCode
  generation := res.generation
  protocolType := if res.protocolType ≠ "" then some res.protocolType else none
  protocol := some res.protocol
  leaderID := res.leaderID
  memberID := res.memberID
  members := res.members

/-- The response to a request that the coordinator has answered; `none` while it waits. -/
def respond : Option Reply → GroupM (Option GroupResponse)
  | some (.join result) => return some (.joinGroup (joinResponse result))
  | some (.sync result) => return some (.syncGroup result.errorCode result.assignment)
  | some .syncError => throw ()
  | some (.code errorCode) => return some (.heartbeat errorCode)
  | none => return none

def handleJoinGroup (conn : Conn) (args : JoinGroupArgs) : GroupM (Option GroupResponse) := do
  if mayUseGroup (← get).acl conn.saslPrincipal args.groupID "read" then
    respond (← coordinate fun a => .join args a.now a.random a.order)
  else return some (.joinGroup { errorCode := errCodeGroupAuthorizationFailed })

def handleSyncGroup (req : SyncGroupRequest) : GroupM (Option GroupResponse) := do
  let asgs := req.groupAssignment.foldl (fun asgs entry => asgs.insert entry.1 entry.2) ∅
  respond (← coordinate fun a =>
    .sync ⟨req.group, req.generation, req.memberID, asgs⟩ a.now a.persists)

def handleHeartbeat (args : HeartbeatArgs) : GroupM (Option GroupResponse) := do
  respond (← coordinate fun a => .heartbeat args a.now)

def leave (group memberID : String) : GroupM Int := do
  match ← coordinate fun _ => .leave group memberID with
  | some (.code errorCode) => return errorCode
  | _ => return 0

def handleLeaveGroup (group memberID : String) (members : List String) :
    GroupM (Option GroupResponse) := do
  let errorCode ← if memberID ≠ "" then leave group memberID else pure 0
  let codes ← collect (fun member => do return (member, ← leave group member)) members
  return some (.leaveGroup errorCode codes)

section OffsetCommit

variable (conn : Conn) (group : String)

def commitPartition (topic : String) (p : OffsetCommitPartition) : GroupM OffsetCommitAnswer := do
  let a ← answer
  let made : Commit :=
    ⟨group, topic, p.partition, p.offset, p.leaderEpoch, p.metadata.getD "", a.now⟩
  modify fun b => { b with groups := b.groups.commitOffset made }
  return ⟨p.partition, if made.valid && a.persists then errCodeNone else errCodeCorruptMessage⟩

def refuseCommits (errorCode : Int) (t : OffsetCommitTopic) : TopicAnswer OffsetCommitAnswer :=
  ⟨t.topic, t.partitions.map fun p => ⟨p.partition, errorCode⟩⟩

def commitTopic (acl : Option ACLStore) (t : OffsetCommitTopic) :
    GroupM (TopicAnswer OffsetCommitAnswer) := do
  if mayUseTopic acl conn.saslPrincipal t.topic "read" then
    return ⟨t.topic, ← collect (commitPartition group t.topic) t.partitions⟩
  else return refuseCommits errCodeTopicAuthorizationFailed t

def handleOffsetCommit (req : OffsetCommitRequest) : GroupM (Option GroupResponse) := do
  let acl := (← get).acl
  if mayUseGroup acl conn.saslPrincipal req.group "read" then
    return some (.offsetCommit (← collect (commitTopic conn req.group acl) req.topics))
  else
    return some (.offsetCommit (req.topics.map (refuseCommits errCodeGroupAuthorizationFailed)))

end OffsetCommit

def offsetLeaderEpoch (co : CommittedOffset) : Int := if co.offset < 0 then -1 else co.leaderEpoch

def offsetAnswer (partition : Int) (co : CommittedOffset) : OffsetFetchAnswer :=
  ⟨partition, co.offset, offsetLeaderEpoch co, if co.metadata ≠ "" then some co.metadata else none⟩

def fetchOffsets (g : GroupCoordinator) (group : String) (t : OffsetFetchTopic) :
    TopicAnswer OffsetFetchAnswer :=
  ⟨t.topic, t.partitions.map fun p => offsetAnswer p (g.fetchOffset group t.topic p)⟩

def everyOffset (g : GroupCoordinator) (group : String) : List (TopicAnswer OffsetFetchAnswer) :=
  let topics := (g.allOffsets group).entries.insertionSort fun left right => left.1 ≤ right.1
  topics.map fun entry =>
    ⟨entry.1, (entry.2.entries.insertionSort fun left right => left.1 ≤ right.1).map fun part =>
      offsetAnswer part.1 part.2⟩

def handleOffsetFetch (req : OffsetFetchRequest) : GroupM (Option GroupResponse) := do
  let g := (← get).groups
  if 0 < req.groups.length then
    return some (.offsetFetch [] (req.groups.map fun asked =>
      ⟨asked.group, asked.topics.map (fetchOffsets g asked.group)⟩))
  else if req.topics.length = 0 then return some (.offsetFetch (everyOffset g req.group) [])
  else return some (.offsetFetch (req.topics.map (fetchOffsets g req.group)) [])

def statusText : GroupStatus → String
  | .empty => "Empty"
  | .preparingRebalance => "PreparingRebalance"
  | .completingRebalance => "CompletingRebalance"
  | .stable => "Stable"
  | .dead => "Dead"

def describe (order : List String) (gid : String) (lg : LiveGroup) : DescribedGroup where
  group := gid
  state := statusText lg.state
  protocolType := "consumer"
  protocol := lg.persisted.protocol
  members := (visit order lg.members).map fun m => ⟨m.memberID, m.clientID, m.clientHost⟩

def describeGroup (conn : Conn) (gid : String) : GroupM DescribedGroup := do
  let b ← get
  if mayUseGroup b.acl conn.saslPrincipal gid "read" then do
    let a ← answer
    match b.groups.live.lookup gid with
    | none => return { group := gid, state := "Empty" }
    | some group => return describe a.order gid group.live
  else return { group := gid, errorCode := errCodeGroupAuthorizationFailed }

def handleDescribeGroups (conn : Conn) (groups : List String) : GroupM (Option GroupResponse) := do
  return some (.describeGroups (← collect (describeGroup conn) groups))

end GroupHandler

/-- `Dispatch`, for the requests that name groups. -/
def dispatchGroup (conn : Conn) : GroupRequest → GroupM (Option GroupResponse)
  | .joinGroup args => GroupHandler.handleJoinGroup conn args
  | .syncGroup req => GroupHandler.handleSyncGroup req
  | .heartbeat args => GroupHandler.handleHeartbeat args
  | .leaveGroup group memberID members => GroupHandler.handleLeaveGroup group memberID members
  | .offsetCommit req => GroupHandler.handleOffsetCommit conn req
  | .offsetFetch req => GroupHandler.handleOffsetFetch req
  | .describeGroups groups => GroupHandler.handleDescribeGroups conn groups

end KafkaWire.Wire
