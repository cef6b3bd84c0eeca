import KafkaWire.Broker.Assignments
import KafkaWire.Broker.Protocols

/-! The members that have joined the round in flight, as their last `JoinGroup` requests describe
them, and what the leader receives when the round closes. -/

namespace KafkaWire.Broker

variable {P : String → MemberState → Prop} {lg : LiveGroup}

def JoinGroupArgs.sentFor (args : JoinGroupArgs) (protocol : String) : Option Bytes :=
  (args.protocols.find? (·.name = protocol)).map (·.metadata)

def Event.enters (groupID id : String) : Event → Option JoinGroupArgs
  | .join args _ random _ =>
    if args.groupID = groupID ∧ (validateName "group" args.groupID).isOk ∧
      joinID args random = id ∧ ¬ (args.memberID = "" ∧ 4 ≤ args.apiVersion) then some args
    else none
  | _ => none

def lastJoin (groupID id : String) (events : List Event) : Option JoinGroupArgs :=
  events.reverse.findSome? (Event.enters groupID id)

theorem lastJoin_concat (groupID id : String) (events : List Event) (event : Event) :
    lastJoin groupID id (events ++ [event]) =
      (event.enters groupID id).or (lastJoin groupID id events) := by
  simp only [lastJoin, List.reverse_append, List.reverse_singleton, List.singleton_append,
    List.findSome?_cons]
  cases event.enters groupID id <;> rfl

namespace LiveGroup

def Waiting (P : String → MemberState → Prop) (lg : LiveGroup) : Prop :=
  ∀ id m, lg.Rejoined id → lg.members.lookup id = some m → P id m

def Describes (args : JoinGroupArgs) (m : MemberState) : Prop :=
  m.subscription = joinGroupSubscriptionBytes args.protocols ∧
    m.protocols = args.protocols.map (·.name)

theorem Waiting.shrink {lg' : LiveGroup} (waiting : lg.Waiting P) (round : lg'.round = lg.round)
    (kept : ∀ id m, lg'.members.lookup id = some m → lg.members.lookup id = some m) :
    lg'.Waiting P := by
  intro id m joined found
  rw [Rejoined, round] at joined
  exact waiting id m joined (kept id m found)

theorem Waiting.distribute
    (waiting : lg.Waiting P) (assigned : ∀ id m bytes, P id m → P id (m.assigned bytes))
    (assignments : Table Bytes) (persists : Bool) :
    (lg.distribute assignments persists).Waiting P := by
  intro id m joined found
  change (assign lg.members assignments).lookup id = some m at found
  rw [assign_lookup] at found
  obtain ⟨original, there, rfl⟩ := Option.map_eq_some_iff.mp found
  refine assigned id original _ (waiting id original ?_ there)
  cases persists with
  | false => exact joined
  | true =>
    obtain ⟨round, current, isOpen, listed⟩ := joined
    obtain ⟨before, here, rfl⟩ := Option.map_eq_some_iff.mp current
    exact ⟨before, here, isOpen, listed⟩

theorem closeRound_waiting (P : String → MemberState → Prop) (order : List String) (lg : LiveGroup)
    (round : RebalanceRound) (isOpen : round.closed = false) :
    (lg.closeRound order round).Waiting P := by
  rintro id m ⟨current, here, stillOpen, -⟩
  rw [closeRound_open order lg round isOpen] at here
  cases here
  cases stillOpen

theorem entered_waiting (lg : LiveGroup) (args : JoinGroupArgs) (now : Int) (random : Bytes)
    (others : ∀ id m, id ≠ joinID args random → lg.Rejoined id →
      (lg.sweep args now).members.lookup id = some m → P id m)
    (own : ∀ m, Describes args m → P (joinID args random) m) :
    (lg.entered args now random).Waiting P := by
  intro id m joined found
  change (((lg.sweep args now).openRound args now).members.insert (joinID args random) _).lookup id =
    some m at found
  by_cases same : id = joinID args random
  · subst same
    rw [AList.lookup_insert] at found
    rw [← Option.some.inj found]
    exact own _ ⟨rfl, rfl⟩
  · rw [AList.lookup_insert_ne same] at found
    obtain ⟨round, current, isOpen, listed⟩ := joined
    obtain ⟨before, here, rfl⟩ := Option.map_eq_some_iff.mp current
    have earlier := (List.mem_insert_iff.mp listed).resolve_left same
    have rounds : (lg.sweep args now).round = lg.round := by
      obtain ⟨_, _, _, swept⟩ := (sweep_shrunk lg args now).rest
      rw [swept]
      rfl
    -- a round that was opened just now has nobody else in it
    unfold openRound at here found
    split at here
    · next inFlight =>
        rw [if_pos inFlight] at found
        exact others id m same ⟨before, rounds ▸ here, isOpen, earlier⟩ found
    · cases here
      cases earlier

theorem mem_memberList {order : List String} {jm : JoinGroupMember}
    (listed : jm ∈ lg.memberList order) :
    ∃ id m, lg.members.lookup id = some m ∧ jm = ⟨m.memberID, m.subscription⟩ := by
  rw [memberList, List.mem_insertionSort, List.mem_map] at listed
  obtain ⟨m, visited, rfl⟩ := listed
  obtain ⟨id, found⟩ := (mem_visit order lg.members m).mp visited
  exact ⟨id, m, found, rfl⟩

theorem settle_protocol (order : List String) (lg : LiveGroup) (round : RebalanceRound)
    (name : String) (selected : selects (visit order (lg.settle order round).members) = some name) :
    (lg.settle order round).persisted.protocol = name := by
  refine pickCommonProtocol_selects order _ name ?_
  exact selected

end LiveGroup

/-- Every list of members that the results hold has the metadata that the member sent last for the
protocol of the result. -/
def HandedOut (groupID : String) (past : List Event) (results : Table JoinGroupResult) : Prop :=
  ∀ id result, results.lookup id = some result → ∀ jm ∈ result.members,
    ∃ args, lastJoin groupID jm.memberID past = some args ∧
      args.sentFor result.protocol = some jm.metadata

structure Enrolled (groupID : String) (past : List Event) (lg : LiveGroup) : Prop where
  sent : lg.Waiting fun id m =>
    ∃ args, lastJoin groupID id past = some args ∧ LiveGroup.Describes args m
  alike : ∃ name, lg.Waiting fun _ m => m.protocols.head? = some name

theorem sentFor_first {args : JoinGroupArgs} {m : MemberState} {name : String}
    (describes : LiveGroup.Describes args m) (first : m.protocols.head? = some name) :
    args.sentFor name = some m.subscription := by
  rw [describes.2, List.head?_map] at first
  obtain ⟨protocol, head, rfl⟩ := Option.map_eq_some_iff.mp first
  obtain ⟨others, same⟩ := List.head?_eq_some_iff.mp head
  rw [describes.1, JoinGroupArgs.sentFor, same]
  simp [joinGroupSubscriptionBytes]

theorem Enrolled.settle {groupID : String} {past : List Event}
    (enrolled : Enrolled groupID past lg) (ready : lg.Ready) (order : List String)
    (round : RebalanceRound) (current : lg.round = some round) (isOpen : round.closed = false) :
    HandedOut groupID past ((lg.settle order round).answer order round) := by
  obtain ⟨name, alike⟩ := enrolled.alike
  have member (id : String) (m : MemberState)
      (found : (lg.settle order round).members.lookup id = some m) :
      lg.Rejoined id ∧ lg.members.lookup id = some m ∧ m.memberID = id := by
    rw [LiveGroup.settle_lookup] at found
    split at found
    · next joined =>
        exact ⟨⟨round, current, isOpen, joined⟩, found,
          ready.named round current isOpen id joined m found⟩
    · cases found
  intro id result answered jm listed
  rw [LiveGroup.answer_lookup, ready.unanswered round current isOpen, AList.lookup_empty] at answered
  split at answered
  · cases answered
    have inList : jm ∈ (lg.settle order round).memberList order := by
      simp only [LiveGroup.result] at listed
      split at listed
      · exact listed
      · cases listed
    obtain ⟨id', m, found, rfl⟩ := LiveGroup.mem_memberList inList
    obtain ⟨joined, before, named⟩ := member id' m found
    obtain ⟨args, last, describes⟩ := enrolled.sent id' m joined before
    have selected : (lg.settle order round).persisted.protocol = name := by
      refine LiveGroup.settle_protocol order lg round name (selects_favourite _ name ?_ ?_)
      · exact List.ne_nil_of_mem ((mem_visit order _ m).mpr ⟨id', found⟩)
      · intro m' visited
        obtain ⟨other, found'⟩ := (mem_visit order _ m').mp visited
        obtain ⟨joined', before', -⟩ := member other m' found'
        exact alike other m' joined' before'
    refine ⟨args, named ▸ last, ?_⟩
    show args.sentFor (lg.settle order round).persisted.protocol = some m.subscription
    rw [selected]
    exact sentFor_first describes (alike id' m joined before)
  · cases answered

end KafkaWire.Broker
