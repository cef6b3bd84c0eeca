import KafkaWire.Broker.Group

/-! The critical sections of `JoinGroup`, `SyncGroup`, `Heartbeat`, `LeaveGroup` and
`expireRound` on one group. -/

namespace KafkaWire.Broker

open Storage (int32)

namespace LiveGroup

def seatLeader (lg : LiveGroup) : LiveGroup :=
  if lg.leader = "" ∨ lg.leader ∉ lg.members then { lg with leader := pickLeader lg.members }
  else lg

def nextGeneration (order : List String) (lg : LiveGroup) : LiveGroup :=
  { lg with
    persisted := { lg.persisted with
      generation := int32 (lg.persisted.generation + 1)
      leader := lg.leader
      protocolType := lg.protocolType
      protocol := pickCommonProtocol order lg }
    state := .completingRebalance }

def memberList (order : List String) (lg : LiveGroup) : List JoinGroupMember :=
  ((visit order lg.members).map fun mm => JoinGroupMember.mk mm.memberID mm.subscription).insertionSort
    fun left right => left.memberID ≤ right.memberID

def result (order : List String) (lg : LiveGroup) (id : String) : JoinGroupResult where
  groupID := lg.id
  generation := lg.persisted.generation
  protocolType := lg.persisted.protocolType
  protocol := lg.persisted.protocol
  leaderID := lg.leader
  memberID := id
  isLeader := id == lg.leader
  members := if id = lg.leader then lg.memberList order else []

/-- The loop over `round.joined` that fills `round.results`. -/
def answer (order : List String) (lg : LiveGroup) (round : RebalanceRound) : Table JoinGroupResult :=
  round.joined.foldl
    (fun results id => if id ∈ lg.members then results.insert id (lg.result order id) else results)
    round.results

/-- The group as `closeRound` decides its next generation: members that never joined the round
are gone. -/
def settle (order : List String) (lg : LiveGroup) (round : RebalanceRound) : LiveGroup :=
  ((lg.dropWhere fun id _ => id ∉ round.joined).seatLeader).nextGeneration order

/-- A failing `Persist` is ignored here: the generation is decided in memory. -/
def closeRound (order : List String) (lg : LiveGroup) (round : RebalanceRound) : LiveGroup :=
  if round.closed then lg
  else
    let lg := lg.settle order round
    { lg with round := some { round with closed := true, results := lg.answer order round } }

def roundOpen (lg : LiveGroup) : Bool := lg.round.any fun round => !round.closed

def roundWait (args : JoinGroupArgs) : Int :=
  if 0 < args.rebalanceTimeoutMS ∧ args.rebalanceTimeoutMS * millisecond < initialRebalanceDelay
  then args.rebalanceTimeoutMS * millisecond
  else initialRebalanceDelay

def openRound (lg : LiveGroup) (args : JoinGroupArgs) (now : Int) : LiveGroup :=
  if lg.roundOpen then lg
  else
    { lg with
      past := lg.rounds
      round := some { expected := lg.members.keys, deadline := now + roundWait args }
      state := .preparingRebalance }

def register (lg : LiveGroup) (memberID : String) (args : JoinGroupArgs) (now : Int) : LiveGroup :=
  let member : MemberState :=
    { memberID := memberID, clientID := args.clientID, clientHost := args.clientHost
      sessionTimeoutMS := args.sessionTimeoutMS, rebalanceTimeoutMS := args.rebalanceTimeoutMS
      subscription := joinGroupSubscriptionBytes args.protocols
      protocols := args.protocols.map (·.name) }
  { lg.setMembers (lg.members.insert memberID member) with
    heartbeats := lg.heartbeats.insert memberID now
    protocolType := args.protocolType
    protocols := args.protocols
    round := lg.round.map fun round => { round with joined := round.joined.insert memberID } }

/-- A group whose entire previous membership has rejoined has nothing left to wait for. -/
def closeIfRejoined (order : List String) (lg : LiveGroup) : LiveGroup :=
  match lg.round with
  | some round =>
    if 0 < round.expected.length ∧ allRejoined round then lg.closeRound order round else lg
  | none => lg

def enroll (lg : LiveGroup) (memberID : String) (args : JoinGroupArgs) (now : Int)
    (order : List String) : LiveGroup :=
  ((lg.openRound args now).register memberID args now).closeIfRejoined order

end LiveGroup

inductive JoinStep
  | replied (result : JoinGroupResult)
  | waits (round : Nat) (memberID : String)

/-- The id under which a `JoinGroup` request enters the group. -/
def joinID (args : JoinGroupArgs) (random : Bytes) : String :=
  if args.memberID = "" then newMemberID args.clientID random else args.memberID

/-- The members that a `JoinGroup` request finds gone. -/
def LiveGroup.sweep (lg : LiveGroup) (args : JoinGroupArgs) (now : Int) : LiveGroup :=
  if args.memberID = "" then (lg.evictExpired now).replaceClient args.clientID
  else lg.evictExpired now

/-- `JoinGroup` up to the point where it waits for the round to be decided. From version 4 on a
request without a member id gets an id and is told to join again with it. -/
def LiveGroup.joinGroup (lg : LiveGroup) (args : JoinGroupArgs) (now : Int) (random : Bytes)
    (order : List String) : LiveGroup × JoinStep :=
  let memberID := joinID args random
  let lg := lg.sweep args now
  if args.memberID = "" ∧ 4 ≤ args.apiVersion then
    (lg, .replied { groupID := args.groupID, memberID := memberID, errorCode := memberIDRequired,
                    needRejoin := true })
  else
    let lg := lg.enroll memberID args now order
    (lg, .waits lg.past.length memberID)

def LiveGroup.expireRound (lg : LiveGroup) (round : Nat) (order : List String) : LiveGroup :=
  match lg.round with
  | some current => if round = lg.past.length then lg.closeRound order current else lg
  | none => lg

inductive SyncStep
  | replied (result : SyncGroupResult)
  | failed
  | waits (round : Nat)

/-- The leader's loop over `args.Assignments`. -/
def assign (members : Table MemberState) (assignments : Table Bytes) : Table MemberState :=
  assignments.entries.foldl
    (fun members entry =>
      match members.lookup entry.1 with
      | some mm => members.insert entry.1 { mm with assignment := entry.2 }
      | none => members)
    members

def assignmentOf (members : Table MemberState) (memberID : String) : Bytes :=
  ((members.lookup memberID).map (·.assignment)).getD []

/-- The leader's branch of `SyncGroup`; when the group file cannot be written, the round's
`sync` channel stays open. -/
def LiveGroup.distribute (lg : LiveGroup) (assignments : Table Bytes) (persists : Bool) :
    LiveGroup :=
  { lg.setMembers (assign lg.members assignments) with
    state := .stable
    round := if persists then lg.round.map fun round => { round with synced := true }
      else lg.round }

/-- `SyncGroup` up to the point where a follower waits; `persists` says whether the group file
could be written. -/
def LiveGroup.syncGroup (lg : LiveGroup) (args : SyncGroupArgs) (now : Int) (persists : Bool) :
    LiveGroup × SyncStep :=
  if lg.persisted.generation ≠ args.generation then
    (lg, .replied { errorCode := illegalGeneration })
  else if args.memberID ∉ lg.members then (lg, .replied { errorCode := unknownMember })
  else
    let lg := { lg with heartbeats := lg.heartbeats.insert args.memberID now }
    if args.memberID = lg.leader then
      let lg := lg.distribute args.assignments persists
      if persists then (lg, .replied { assignment := assignmentOf lg.members args.memberID })
      else (lg, .failed)
    else if lg.round.all (·.synced) then
      (lg, .replied { assignment := assignmentOf lg.members args.memberID })
    else (lg, .waits lg.past.length)

/-- What a follower answers once its round's `sync` channel is closed. -/
def LiveGroup.syncReply (lg : LiveGroup) (memberID : String) (generation : Int) : SyncGroupResult :=
  if lg.persisted.generation ≠ generation then { errorCode := illegalGeneration }
  else if memberID ∉ lg.members then { errorCode := unknownMember }
  else { assignment := assignmentOf lg.members memberID }

def LiveGroup.heartbeat (lg : LiveGroup) (args : HeartbeatArgs) (now : Int) : LiveGroup × Int :=
  if lg.persisted.generation ≠ args.generation then (lg, illegalGeneration)
  else if args.memberID ∉ lg.members then (lg, unknownMember)
  else
    let lg := { lg with heartbeats := lg.heartbeats.insert args.memberID now }
    if lg.state = .preparingRebalance then (lg, rebalanceInProgress) else (lg, 0)

/-- The removal of `LeaveGroup`, which seats a new leader at once. -/
def LiveGroup.remove (lg : LiveGroup) (memberID : String) : LiveGroup :=
  let members := lg.members.erase memberID
  let leaves := lg.leader = memberID
  { lg with
    persisted := { lg.persisted with
      members := members
      leader := if leaves then pickLeader members else lg.persisted.leader }
    heartbeats := lg.heartbeats.erase memberID
    leader := if leaves then pickLeader members else lg.leader }

def LiveGroup.leaveGroup (lg : LiveGroup) (memberID : String) : LiveGroup × Int :=
  if memberID ∉ lg.members then (lg, unknownMember)
  else
    let lg := lg.remove memberID
    ({ lg with state := if lg.members.keys = [] then .empty else .preparingRebalance }, 0)

end KafkaWire.Broker
