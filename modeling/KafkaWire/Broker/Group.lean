import Mathlib.Data.List.Sort
import KafkaWire.Broker.GroupState
import KafkaWire.Broker.Names
import KafkaWire.Storage.Record

/-! The consumer-group state machine: what each request does to one group while it holds the
coordinator's lock. Times are in nanoseconds. -/

namespace KafkaWire.Broker

open Storage (int32)

def millisecond : Int := 1000000
def second : Int := 1000 * millisecond

def initialRebalanceDelay : Int := 3 * second
def fastEvictionThreshold : Int := 3 * second

inductive GroupStatus
  | empty | preparingRebalance | completingRebalance | stable | dead
  deriving DecidableEq, Repr

def invalidGroupID : Int := 24
def memberIDRequired : Int := 79
def illegalGeneration : Int := 22
def unknownMember : Int := 25
def rebalanceInProgress : Int := 27

structure GroupProtocol where
  name : String
  metadata : Bytes
  deriving DecidableEq, Repr

structure JoinGroupMember where
  memberID : String
  metadata : Bytes
  deriving DecidableEq, Repr

structure JoinGroupResult where
  groupID : String := ""
  generation : Int := 0
  protocolType : String := ""
  protocol : String := ""
  leaderID : String := ""
  memberID : String := ""
  isLeader : Bool := false
  members : List JoinGroupMember := []
  errorCode : Int := 0
  needRejoin : Bool := false
  deriving DecidableEq, Repr

structure JoinGroupArgs where
  groupID : String
  memberID : String := ""
  clientID : String := ""
  clientHost : String := ""
  sessionTimeoutMS : Int := 0
  rebalanceTimeoutMS : Int := 0
  protocolType : String := ""
  protocols : List GroupProtocol := []
  apiVersion : Int := 0
  deriving DecidableEq, Repr

structure SyncGroupArgs where
  groupID : String
  generation : Int
  memberID : String
  assignments : Table Bytes := ∅
  deriving DecidableEq

structure SyncGroupResult where
  assignment : Bytes := []
  errorCode : Int := 0
  deriving DecidableEq, Repr

structure HeartbeatArgs where
  groupID : String
  memberID : String
  generation : Int
  deriving DecidableEq, Repr

/-- One join barrier. Its `done` channel is closed in the same critical section that sets
`closed`, its `sync` channel in the one that sets `synced`. -/
structure RebalanceRound where
  results : Table JoinGroupResult := ∅
  joined : List String := []
  expected : List String
  deadline : Int
  closed : Bool := false
  synced : Bool := false

/-- `past` holds the rounds that `round` pointed to before: requests that still wait on one of
them find it there. -/
structure LiveGroup where
  id : String
  state : GroupStatus := .empty
  persisted : GroupState
  heartbeats : Table Int := ∅
  leader : String := ""
  protocolType : String := ""
  protocols : List GroupProtocol := []
  past : List RebalanceRound := []
  round : Option RebalanceRound := none

namespace LiveGroup

abbrev members (lg : LiveGroup) : Table MemberState := lg.persisted.members

def setMembers (lg : LiveGroup) (members : Table MemberState) : LiveGroup :=
  { lg with persisted := { lg.persisted with members := members } }

def rounds (lg : LiveGroup) : List RebalanceRound := lg.past ++ lg.round.toList

/-- Take `memberID` out of the group, and out of the leader's seat. -/
def drop (lg : LiveGroup) (memberID : String) : LiveGroup :=
  { lg.setMembers (lg.members.erase memberID) with
    heartbeats := lg.heartbeats.erase memberID
    leader := if lg.leader = memberID then "" else lg.leader }

/-- `for id, m := range lg.persisted.Members { if gone { delete } }` -/
def dropWhere (gone : String → MemberState → Bool) (lg : LiveGroup) : LiveGroup :=
  lg.members.entries.foldl
    (fun lg entry => if gone entry.1 entry.2 then lg.drop entry.1 else lg) lg

def evictAfter (member : MemberState) : Int :=
  let sto := member.sessionTimeoutMS * millisecond
  let sto := if sto ≤ 0 then 30 * second else sto
  if fastEvictionThreshold < sto then fastEvictionThreshold else sto

def expired (lg : LiveGroup) (now : Int) (memberID : String) (member : MemberState) : Bool :=
  match lg.heartbeats.lookup memberID with
  | none => true
  | some heartbeat => decide (evictAfter member < now - heartbeat)

def evictExpired (lg : LiveGroup) (now : Int) : LiveGroup := lg.dropWhere (lg.expired now)

def replaceClient (lg : LiveGroup) (clientID : String) : LiveGroup :=
  if clientID ≠ "" then lg.dropWhere fun _ existing => existing.clientID == clientID else lg

end LiveGroup

def hexDigit (value : Nat) : Char := Char.ofNat (if value < 10 then 48 + value else 87 + value)

def hexEncode (bytes : Bytes) : String :=
  String.ofList (bytes.flatMap fun byte => [hexDigit (byte.toNat / 16), hexDigit (byte.toNat % 16)])

def sanitizeClientID (s : String) : String :=
  if s = "" then "client"
  else
    let out := s.toList.filter nameCharacter
    if out = [] then "client" else String.ofList out

/-- `random` is what `rand.Read` filled in. -/
def newMemberID (clientID : String) (random : Bytes) : String :=
  sanitizeClientID clientID ++ "-" ++ hexEncode random

def pickLeader (members : Table MemberState) : String :=
  ((members.keys.insertionSort (· ≤ ·)).head?).getD ""

def joinGroupSubscriptionBytes (protocols : List GroupProtocol) : Bytes :=
  match protocols with
  | [] => []
  | first :: _ => first.metadata

/-- The members in the order in which one `range` visits them: first those that `order` names,
then the others. -/
def visit (order : List String) (members : Table MemberState) : List MemberState :=
  ((order.filter (· ∈ members)).dedup ++ members.keys.filter (· ∉ order)).filterMap
    fun id => members.lookup id

/-- The locals `counts` and `order` of `pickCommonProtocol`. -/
structure Tally where
  counts : Table Nat := ∅
  order : List String := []

namespace Tally

def count (tally : Tally) (name : String) : Nat := (tally.counts.lookup name).getD 0

def note (tally : Tally) (name : String) : Tally where
  counts := tally.counts.insert name (tally.count name + 1)
  order := if tally.count name = 0 then tally.order ++ [name] else tally.order

/-- The inner loop, over one member's list; `seen` are the names it has met. -/
def member (tally : Tally) (seen : List String) : List String → Tally
  | [] => tally
  | name :: names =>
    if name ∈ seen then tally.member seen names
    else (tally.note name).member (name :: seen) names

end Tally

def decodeProtocolNames (m : MemberState) : List String :=
  if 0 < m.protocols.length then m.protocols else []

def pickCommonProtocol (order : List String) (lg : LiveGroup) : String :=
  let visited := visit order lg.members
  let tally : Tally := visited.foldl (fun tally m => tally.member [] (decodeProtocolNames m)) {}
  match tally.order.find? fun name => tally.count name = visited.length with
  | some name => name
  | none =>
    match lg.protocols with
    | first :: _ => first.name
    | [] => ""

def allRejoined (round : RebalanceRound) : Bool := round.expected.all (· ∈ round.joined)

end KafkaWire.Broker
