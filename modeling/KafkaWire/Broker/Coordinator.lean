import KafkaWire.Lib.Machine
import KafkaWire.Broker.Requests

/-! The group coordinator as a machine. Every section that holds the coordinator's lock is one
event, so a list of events is an interleaving of the requests. -/

namespace KafkaWire.Broker

variable (g : GroupCoordinator) (event : Event)

/-- A `JoinGroup` request that waits for its round to be decided. -/
structure JoinCall where
  round : Nat
  memberID : String
  deriving DecidableEq, Repr

/-- A follower's `SyncGroup` request that waits for the leader. -/
structure SyncCall where
  round : Nat
  memberID : String
  generation : Int
  deriving DecidableEq, Repr

structure Group where
  live : LiveGroup
  joining : List JoinCall := []
  syncing : List SyncCall := []

inductive Event
  | join (args : JoinGroupArgs) (now : Int) (random : Bytes) (order : List String)
  | joinWakes (groupID : String) (call : JoinCall)
  | joinTimesOut (groupID : String) (call : JoinCall)
  | sync (args : SyncGroupArgs) (now : Int) (persists : Bool)
  | syncWakes (groupID : String) (call : SyncCall)
  | syncTimesOut (groupID : String) (call : SyncCall)
  | heartbeat (args : HeartbeatArgs) (now : Int)
  | leave (groupID memberID : String)
  | expire (groupID : String) (round : Nat) (order : List String)

def Event.groupID : Event → String
  | .join args .. => args.groupID
  | .joinWakes groupID _ => groupID
  | .joinTimesOut groupID _ => groupID
  | .sync args .. => args.groupID
  | .syncWakes groupID _ => groupID
  | .syncTimesOut groupID _ => groupID
  | .heartbeat args _ => args.groupID
  | .leave groupID _ => groupID
  | .expire groupID .. => groupID

inductive Reply
  | join (result : JoinGroupResult)
  | sync (result : SyncGroupResult)
  | syncError
  | code (errorCode : Int)
  deriving DecidableEq, Repr

namespace Group

def fresh (persisted : GroupState) : Group := { live := { id := persisted.groupID, persisted } }

def join (group : Group) (args : JoinGroupArgs) (now : Int) (random : Bytes)
    (order : List String) : Group × Option Reply :=
  match group.live.joinGroup args now random order with
  | (live, .replied result) => ({ group with live }, some (.join result))
  | (live, .waits round memberID) =>
    ({ group with live, joining := ⟨round, memberID⟩ :: group.joining }, none)

/-- What a `JoinGroup` request finds once its round is decided. -/
def joinReply (group : Group) (call : JoinCall) : JoinGroupResult :=
  let missing := { groupID := group.live.id, memberID := call.memberID,
                   errorCode := rebalanceInProgress }
  match group.live.rounds[call.round]? with
  | some round => (round.results.lookup call.memberID).getD missing
  | none => missing

def sync (group : Group) (args : SyncGroupArgs) (now : Int) (persists : Bool) :
    Group × Option Reply :=
  match group.live.syncGroup args now persists with
  | (live, .replied result) => ({ group with live }, some (.sync result))
  | (live, .failed) => ({ group with live }, some .syncError)
  | (live, .waits round) =>
    ({ group with live, syncing := ⟨round, args.memberID, args.generation⟩ :: group.syncing },
      none)

/-- One event of a group that exists. A request wakes only when the channel that it waits on is
closed; other wake events do nothing. -/
def step (group : Group) : Event → Group × Option Reply
  | .join args now random order => group.join args now random order
  | .joinWakes _ call =>
    if call ∈ group.joining ∧ (group.live.rounds[call.round]?).any (·.closed) then
      ({ group with joining := group.joining.erase call }, some (.join (group.joinReply call)))
    else (group, none)
  | .joinTimesOut _ call =>
    if call ∈ group.joining then
      ({ group with joining := group.joining.erase call },
        some (.join { groupID := group.live.id, memberID := call.memberID,
                      errorCode := rebalanceInProgress }))
    else (group, none)
  | .sync args now persists => group.sync args now persists
  | .syncWakes _ call =>
    if call ∈ group.syncing ∧ (group.live.rounds[call.round]?).any (·.synced) then
      ({ group with syncing := group.syncing.erase call },
        some (.sync (group.live.syncReply call.memberID call.generation)))
    else (group, none)
  | .syncTimesOut _ call =>
    if call ∈ group.syncing then
      ({ group with syncing := group.syncing.erase call },
        some (.sync { errorCode := rebalanceInProgress }))
    else (group, none)
  | .heartbeat args now =>
    let (live, code) := group.live.heartbeat args now
    ({ group with live }, some (.code code))
  | .leave _ memberID =>
    let (live, code) := group.live.leaveGroup memberID
    ({ group with live }, some (.code code))
  | .expire _ round order => ({ group with live := group.live.expireRound round order }, none)

end Group

structure GroupCoordinator where
  store : OffsetStore
  live : Table Group

/-- `NewGroupCoordinator`: the persisted groups are adopted, empty. -/
def newGroupCoordinator (store : OffsetStore) : GroupCoordinator where
  store := store
  live := store.groups.entries.foldl (fun live entry => live.insert entry.2.groupID (.fresh entry.2)) ∅

/-- What an event does to the entry of its group in `g.live`. -/
def stepEntry (store : OffsetStore) (entry : Option Group) (event : Event) :
    Option Group × Option Reply :=
  match event, entry with
  | .join args now random order, entry =>
    if (validateName "group" args.groupID).isOk then
      let group := entry.getD (.fresh (store.get args.groupID))
      let (group, reply) := group.step (.join args now random order)
      (some group, reply)
    else (entry, some (.join { errorCode := invalidGroupID }))
  | event, some group =>
    let (group, reply) := group.step event
    (some group, reply)
  | .sync .., none => (none, some (.sync { errorCode := invalidGroupID }))
  | .heartbeat .., none => (none, some (.code invalidGroupID))
  | .leave .., none => (none, some (.code invalidGroupID))
  | _, none => (none, none)

namespace GroupCoordinator

def set (g : GroupCoordinator) (groupID : String) (entry : Option Group) : GroupCoordinator :=
  { g with live := match entry with
      | some group => g.live.insert groupID group
      | none => g.live }

def reply (g : GroupCoordinator) (event : Event) : Option Reply :=
  (stepEntry g.store (g.live.lookup event.groupID) event).2

def step (g : GroupCoordinator) (event : Event) : GroupCoordinator :=
  g.set event.groupID (stepEntry g.store (g.live.lookup event.groupID) event).1

def entry (g : GroupCoordinator) (groupID : String) : Group :=
  (g.live.lookup groupID).getD (.fresh (g.store.get groupID))

@[simp] theorem step_store :
    (g.step event).store = g.store := rfl

theorem step_lookup_ne (groupID : String) (other : groupID ≠ event.groupID) :
    (g.step event).live.lookup groupID = g.live.lookup groupID := by
  unfold step set
  dsimp only
  split
  · exact AList.lookup_insert_ne other
  · rfl

/-- An event is either a step of its group, or a request that the coordinator turns down before
it reaches one. -/
theorem step_entry :
    ((g.step event).entry event.groupID = ((g.entry event.groupID).step event).1 ∧
        g.reply event = ((g.entry event.groupID).step event).2) ∨
      ((g.step event).entry event.groupID = g.entry event.groupID ∧
        (g.reply event = none ∨ g.reply event = some (.join { errorCode := invalidGroupID }) ∨
          g.reply event = some (.sync { errorCode := invalidGroupID }) ∨
          g.reply event = some (.code invalidGroupID))) := by
  have known : ∀ group, (stepEntry g.store (g.live.lookup event.groupID) event).1 = some group →
      (g.step event).entry event.groupID = group := by
    intro group outcome
    simp only [entry, step, set, outcome, AList.lookup_insert, Option.getD_some]
  have unknown : (stepEntry g.store (g.live.lookup event.groupID) event).1 = none →
      (g.step event).entry event.groupID = g.entry event.groupID := by
    intro outcome
    simp only [entry, step, set, outcome]
  cases present : g.live.lookup event.groupID with
  | none =>
    rw [present] at known unknown
    cases event with
    | join args now random order =>
      simp only [reply, stepEntry, Event.groupID] at known unknown ⊢
      split
      · next valid =>
          rw [if_pos valid] at known
          left
          simp only [Event.groupID] at present
          refine ⟨?_, ?_⟩
          · rw [known _ rfl]
            simp only [entry, present, Option.getD_none]
          · simp only [entry, present, Option.getD_none]
      · next invalid =>
          rw [if_neg invalid] at unknown
          exact .inr ⟨unknown rfl, .inr (.inl rfl)⟩
    | _ =>
      right
      simp only [reply, present, stepEntry]
      refine ⟨unknown rfl, ?_⟩
      simp
  | some group =>
    rw [present] at known unknown
    have found : g.entry event.groupID = group := by simp only [entry, present, Option.getD_some]
    cases event with
    | join args now random order =>
      simp only [reply, present, stepEntry, Option.getD_some] at known unknown ⊢
      split
      · next valid =>
          rw [if_pos valid] at known
          left
          rw [known _ rfl, found]
          exact ⟨rfl, rfl⟩
      · next invalid =>
          rw [if_neg invalid] at known
          right
          rw [known _ rfl, found]
          exact ⟨rfl, .inr (.inl rfl)⟩
    | _ =>
      left
      rw [known _ rfl, found]
      exact ⟨rfl, by simp only [reply, present, stepEntry]⟩

end GroupCoordinator

end KafkaWire.Broker
