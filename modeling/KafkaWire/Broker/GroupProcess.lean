import KafkaWire.Broker.Changes
import KafkaWire.Broker.OffsetFiles

/-! One group over restarts: the coordinator's sections, the commits, and the steps in which either
writes the group file. -/

namespace KafkaWire.Broker

open Publish (Shared Contents WriteOutcome)

/-- `live` is the entry of the coordinator; its record is `shared.memory`, which the commits share.
While the coordinator persists, it holds its lock and waits for that call; `lock` is the call and,
if a round was closed, the generation that is handed out when the call has returned. `handed` are
the generations that closed rounds have handed out, newest first. -/
structure GroupProcess where
  groupID : String
  live : Option Group
  shared : Shared GroupState
  lock : Option (Nat × Option Int) := none
  handed : List Int := []

inductive ProcessEvent
  | coordinate (event : Event) (call : Nat)
  | commit (call : Nat) (made : Commit)
  | marshal (call : Nat) (ok : Bool)
  | write (call : Nat) (outcome : WriteOutcome)
  | rename (call : Nat) (ok : Bool)
  | restart

namespace GroupProcess

variable (s : GroupProcess)

def entry : Option Group :=
  s.live.map fun group => { group with live := { group.live with persisted := s.shared.memory } }

def outcome (event : Event) : Option Group × Option Reply :=
  stepEntry ⟨(∅ : Table GroupState).insert s.groupID s.shared.memory⟩ s.entry event

def recordAfter (event : Event) : GroupState :=
  match (s.outcome event).1 with
  | some group => group.live.persisted
  | none => s.shared.memory

def closes (event : Event) : Bool := (s.recordAfter event).generation ≠ s.shared.memory.generation

/-- The sections that call `Persist`: a round is closed, the leader distributes, a member leaves. -/
def persists (event : Event) : Bool :=
  s.closes event ||
    match event, s.outcome event with
    | .sync args _ _, (some group, some reply) =>
      decide (args.memberID = group.live.leader ∧ reply ≠ .sync { errorCode := illegalGeneration } ∧
        reply ≠ .sync { errorCode := unknownMember })
    | .leave _ _, (_, some reply) => decide (reply = .code 0)
    | _, _ => false

def coordinate (event : Event) (call : Nat) : GroupProcess :=
  if s.lock.isSome ∨ event.groupID ≠ s.groupID ∨ call ∈ s.shared.calls then s
  else if s.persists event then
    { s with
      live := (s.outcome event).1
      shared := s.shared.step (.submit call fun _ => s.recordAfter event)
      lock := some (call, if s.closes event then some (s.recordAfter event).generation else none) }
  else
    { s with
      live := (s.outcome event).1
      shared := s.shared.step (.change fun _ => s.recordAfter event) }

/-- The lock is released once its call has returned, with an error or without. The members that wait
for a closed round are answered then. -/
def release : GroupProcess :=
  match s.lock with
  | none => s
  | some (call, generation) =>
    match s.shared.calls.lookup call with
    | some (.returned _) => { s with lock := none, handed := generation.toList ++ s.handed }
    | _ => s

def publish (event : Publish.Event GroupState) : GroupProcess :=
  ({ s with shared := s.shared.step event } : GroupProcess).release

/-- The group as `NewOffsetStore` and `NewGroupCoordinator` find it. -/
def boot (groupID : String) (file : Option GroupState) (handed : List Int) : GroupProcess where
  groupID := groupID
  live := file.map .fresh
  shared :=
    { memory := file.getD { groupID := groupID }, temp := none, file := file.map .whole, calls := ∅ }
  handed := handed

/-- A crash or a shutdown at any point, and the next start. With a torn group file there is none. -/
def restart : GroupProcess :=
  match s.shared.file with
  | none => boot s.groupID none s.handed
  | some (.whole gs) => boot s.groupID (some gs) s.handed
  | some .torn => s

def step : ProcessEvent → GroupProcess
  | .coordinate event call => s.coordinate event call
  | .commit call made =>
    if made.valid ∧ made.groupID = s.groupID then
      s.publish (.submit call fun gs => gs.setOffset made.topic made.partition made.value)
    else s
  | .marshal call ok => s.publish (.marshal call ok)
  | .write call outcome => s.publish (.write call outcome)
  | .rename call ok => s.publish (.rename call ok)
  | .restart => s.restart

def closing (call : Nat) : Bool := s.lock.any fun held => held.1 = call && held.2.isSome

/-- Closed rounds are persisted, no two calls write the group file at once, and there is a next
generation number. -/
def Reliable : ProcessEvent → Prop
  | .coordinate _ _ =>
    Storage.int32 (s.shared.memory.generation + 1) = s.shared.memory.generation + 1
  | .marshal call ok => s.shared.Exclusive (.marshal call ok) ∧ (s.closing call = true → ok = true)
  | .write call outcome => s.closing call = true → outcome = .done
  | .rename call ok => s.closing call = true → ok = true
  | .commit _ _ | .restart => True

instance (event : ProcessEvent) : Decidable (s.Reliable event) :=
  match event with
  | .coordinate _ _ => inferInstanceAs (Decidable (_ = _))
  | .marshal _ _ => inferInstanceAs (Decidable (_ ∧ (_ → _)))
  | .write _ _ => inferInstanceAs (Decidable (_ → _))
  | .rename _ _ => inferInstanceAs (Decidable (_ → _))
  | .commit _ _ | .restart => isTrue trivial

end GroupProcess

end KafkaWire.Broker
