import KafkaWire.Broker.Changes

/-! What the members of one round are told: all results of a closed round agree. -/

namespace KafkaWire.Broker

open LiveGroup (Change Shrunk)

variable {lg lg' : LiveGroup}

structure Settled (members : List String) (results : Table JoinGroupResult) : Prop where
  once : members.Nodup
  answered : ∀ id, id ∈ results ↔ id ∈ members
  own : ∀ id result, results.lookup id = some result → result.memberID = id ∧ result.errorCode = 0
  agree : ∀ id id' result result', results.lookup id = some result →
    results.lookup id' = some result' →
      result.generation = result'.generation ∧ result.protocolType = result'.protocolType ∧
        result.protocol = result'.protocol ∧ result.leaderID = result'.leaderID
  leader : members ≠ [] → ∃ leader ∈ members, ∀ id result, results.lookup id = some result →
    result.leaderID = leader ∧ (result.isLeader = true ↔ id = leader)
  listed : ∀ id result, results.lookup id = some result → result.isLeader = true →
    (result.members.map (·.memberID)).Perm members
  unlisted : ∀ id result, results.lookup id = some result → result.isLeader = false →
    result.members = []

namespace LiveGroup

structure Ready (lg : LiveGroup) : Prop where
  past : ∀ round ∈ lg.past, round.closed = true
  unanswered : ∀ round, lg.round = some round → round.closed = false → round.results = ∅
  named : ∀ round, lg.round = some round → round.closed = false → ∀ id ∈ round.joined,
    ∀ member, lg.members.lookup id = some member → member.memberID = id

theorem settle_settled (order : List String) (lg : LiveGroup) (round : RebalanceRound)
    (unanswered : round.results = ∅)
    (named : ∀ id ∈ round.joined, ∀ member, lg.members.lookup id = some member →
      member.memberID = id) :
    Settled (lg.settle order round).members.keys ((lg.settle order round).answer order round) := by
  have lookups : ∀ id, ((lg.settle order round).answer order round).lookup id =
      if id ∈ (lg.settle order round).members then some ((lg.settle order round).result order id)
      else none := by
    intro id
    rw [answer_lookup, unanswered, AList.lookup_empty]
    by_cases present : id ∈ (lg.settle order round).members
    · have joined : id ∈ round.joined := by
        obtain ⟨member, found⟩ := lookup_of_mem present
        rw [settle_lookup] at found
        by_contra absent
        rw [if_neg absent] at found
        cases found
      rw [if_pos ⟨joined, present⟩, if_pos present]
    · rw [if_neg fun both => present both.2, if_neg present]
  have result_of : ∀ id result, ((lg.settle order round).answer order round).lookup id = some result →
      id ∈ (lg.settle order round).members ∧ result = (lg.settle order round).result order id := by
    intro id result found
    rw [lookups] at found
    split at found
    · next present => exact ⟨present, (Option.some.inj found).symm⟩
    · cases found
  have ids := memberList_ids order (lg.settle order round) fun id member found => by
    rw [settle_lookup] at found
    split at found
    · next joined => exact named id joined member found
    · cases found
  constructor
  case once => exact AList.keys_nodup _
  case answered =>
    intro id
    rw [← AList.lookup_isSome, lookups, ← AList.mem_keys]
    split <;> simp_all
  case own =>
    intro id result found
    obtain ⟨_, rfl⟩ := result_of id result found
    exact ⟨rfl, rfl⟩
  case agree =>
    intro id id' result result' found found'
    obtain ⟨_, rfl⟩ := result_of id result found
    obtain ⟨_, rfl⟩ := result_of id' result' found'
    exact ⟨rfl, rfl, rfl, rfl⟩
  case leader =>
    intro inhabited
    refine ⟨_, AList.mem_keys.mp (settle_leader order lg round inhabited), ?_⟩
    intro id result found
    obtain ⟨_, rfl⟩ := result_of id result found
    exact ⟨rfl, beq_iff_eq⟩
  case listed =>
    intro id result found leads
    obtain ⟨_, rfl⟩ := result_of id result found
    have same : id = (lg.settle order round).leader := beq_iff_eq.mp leads
    have list : ((lg.settle order round).result order id).members =
        (lg.settle order round).memberList order := if_pos same
    rw [list]
    exact ids
  case unlisted =>
    intro id result found follows
    obtain ⟨_, rfl⟩ := result_of id result found
    exact if_neg (beq_eq_false_iff_ne.mp follows)

def closedAt (lg : LiveGroup) (i : Nat) : Option (Table JoinGroupResult) :=
  (lg.rounds[i]?).bind fun round => if round.closed then some round.results else none

theorem closedAt_eq (lg : LiveGroup) (i : Nat) :
    lg.closedAt i = (if i < lg.past.length then lg.past[i]? else
      if i = lg.past.length then lg.round else none).bind
        fun round => if round.closed then some round.results else none := by
  unfold closedAt rounds
  rw [List.getElem?_append]
  split
  · rfl
  · next late =>
      cases lg.round with
      | none => simp
      | some round =>
        by_cases same : i = lg.past.length
        · simp [same]
        · rw [if_neg same, List.getElem?_eq_none (by simp; omega)]

theorem closedAt_congr (past : lg'.past = lg.past)
    (round : (lg'.round.map fun round => (round.closed, round.results)) =
      lg.round.map fun round => (round.closed, round.results)) (i : Nat) :
    lg'.closedAt i = lg.closedAt i := by
  rw [closedAt_eq, closedAt_eq, past]
  split
  · rfl
  · split
    · cases before : lg.round <;> cases after : lg'.round <;> simp_all
    · rfl

theorem Shrunk.closedAt (shrunk : Shrunk lg lg') (i : Nat) : lg'.closedAt i = lg.closedAt i := by
  obtain ⟨_, _, _, rfl⟩ := shrunk.rest
  rfl

theorem openRound_closedAt (lg : LiveGroup) (args : JoinGroupArgs) (now : Int) (i : Nat) :
    (lg.openRound args now).closedAt i = lg.closedAt i := by
  unfold openRound
  split
  · rfl
  · unfold LiveGroup.closedAt
    have rounds : ∀ round state, rounds { lg with past := lg.rounds, round := some round, state } =
        lg.rounds ++ [round] := fun _ _ => rfl
    rw [rounds, List.getElem?_append]
    split
    · rfl
    · next late =>
        rw [List.getElem?_eq_none (Nat.le_of_not_lt late)]
        by_cases same : i - lg.rounds.length = 0
        · simp [same]
        · rw [List.getElem?_eq_none (by simp; omega)]

theorem register_closedAt (lg : LiveGroup) (memberID : String) (args : JoinGroupArgs) (now : Int)
    (i : Nat) : (lg.register memberID args now).closedAt i = lg.closedAt i := by
  refine closedAt_congr ?_ ?_ i
  · rfl
  · simp [register, setMembers, Function.comp_def]

theorem entered_closedAt (lg : LiveGroup) (args : JoinGroupArgs) (now : Int) (random : Bytes)
    (i : Nat) : (lg.entered args now random).closedAt i = lg.closedAt i := by
  unfold entered
  rw [register_closedAt, openRound_closedAt, (sweep_shrunk lg args now).closedAt]

theorem distribute_closedAt (lg : LiveGroup) (assignments : Table Bytes) (persists : Bool)
    (i : Nat) : (lg.distribute assignments persists).closedAt i = lg.closedAt i := by
  refine closedAt_congr ?_ ?_ i
  · rfl
  · cases persists <;> simp [distribute, setMembers, Function.comp_def]

theorem closeRound_closedAt (order : List String) (lg : LiveGroup) (round : RebalanceRound)
    (isOpen : round.closed = false) (i : Nat) :
    (lg.closeRound order round).closedAt i =
      if i = lg.past.length then some ((lg.settle order round).answer order round)
      else lg.closedAt i := by
  have past := (settle_fields order lg round).2.2
  rw [closeRound_open order lg round isOpen, closedAt_eq, closedAt_eq]
  dsimp only
  rw [past]
  split
  · next early => rw [if_neg (Nat.ne_of_lt early)]
  · split <;> rfl

theorem closedAt_open (lg : LiveGroup) (round : RebalanceRound) (current : lg.round = some round)
    (isOpen : round.closed = false) : lg.closedAt lg.past.length = none := by
  simp [closedAt_eq, current, isOpen]

theorem Ready.shrink (ready : lg.Ready) (past : lg'.past = lg.past) (round : lg'.round = lg.round)
    (kept : ∀ id member, lg'.members.lookup id = some member → lg.members.lookup id = some member) :
    lg'.Ready := by
  refine ⟨?_, ?_, ?_⟩
  · rw [past]
    exact ready.past
  · rw [round]
    exact ready.unanswered
  · rw [round]
    exact fun current found isOpen id joined member here =>
      ready.named current found isOpen id joined member (kept id member here)

theorem Shrunk.ready (shrunk : Shrunk lg lg') (ready : lg.Ready) : lg'.Ready := by
  have kept := shrunk.kept
  obtain ⟨_, _, _, rfl⟩ := shrunk.rest
  exact ready.shrink rfl rfl kept

theorem openRound_ready (lg : LiveGroup) (args : JoinGroupArgs) (now : Int) (ready : lg.Ready) :
    (lg.openRound args now).Ready := by
  unfold openRound
  split
  · exact ready
  · next idle =>
      refine ⟨?_, ?_, ?_⟩
      · intro round listed
        rcases List.mem_append.mp listed with earlier | current
        · exact ready.past round earlier
        · by_contra isOpen
          exact idle (lg.roundOpen_iff.mpr
            ⟨round, Option.mem_toList.mp current, Bool.eq_false_iff.mpr isOpen⟩)
      · rintro _ ⟨⟩ _
        rfl
      · rintro _ ⟨⟩ _ id ⟨⟩

theorem register_ready (lg : LiveGroup) (memberID : String) (args : JoinGroupArgs) (now : Int)
    (ready : lg.Ready) : (lg.register memberID args now).Ready := by
  refine ⟨ready.past, ?_, ?_⟩
  · intro round current isOpen
    obtain ⟨before, found, rfl⟩ := Option.map_eq_some_iff.mp current
    exact ready.unanswered before found isOpen
  · intro round current isOpen id joined member here
    obtain ⟨before, found, rfl⟩ := Option.map_eq_some_iff.mp current
    change (lg.members.insert memberID _).lookup id = some member at here
    by_cases same : id = memberID
    · subst same
      rw [AList.lookup_insert] at here
      rw [← Option.some.inj here]
    · rw [AList.lookup_insert_ne same] at here
      have earlier : id ∈ before.joined := (List.mem_insert_iff.mp joined).resolve_left same
      exact ready.named before found isOpen id earlier member here

theorem entered_ready (lg : LiveGroup) (args : JoinGroupArgs) (now : Int) (random : Bytes)
    (ready : lg.Ready) : (lg.entered args now random).Ready :=
  register_ready _ _ args now (openRound_ready _ args now ((sweep_shrunk lg args now).ready ready))

theorem closeRound_ready (order : List String) (lg : LiveGroup) (round : RebalanceRound)
    (isOpen : round.closed = false) (ready : lg.Ready) : (lg.closeRound order round).Ready := by
  rw [closeRound_open order lg round isOpen]
  refine ⟨?_, ?_, ?_⟩
  · change ∀ round ∈ (lg.settle order _).past, _
    rw [(settle_fields order lg round).2.2]
    exact ready.past
  · rintro _ ⟨⟩ ⟨⟩
  · rintro _ ⟨⟩ ⟨⟩

theorem distribute_ready (lg : LiveGroup) (assignments : Table Bytes) (persists : Bool)
    (ready : lg.Ready) : (lg.distribute assignments persists).Ready := by
  have same : ∀ round, (lg.distribute assignments persists).round = some round →
      ∃ before, lg.round = some before ∧ round.closed = before.closed ∧
        round.results = before.results ∧ round.joined = before.joined := by
    intro round current
    cases persists with
    | false => exact ⟨round, current, rfl, rfl, rfl⟩
    | true =>
      obtain ⟨before, found, rfl⟩ := Option.map_eq_some_iff.mp current
      exact ⟨before, found, rfl, rfl, rfl⟩
  refine ⟨ready.past, ?_, ?_⟩
  · intro round current isOpen
    obtain ⟨before, found, closed, results, _⟩ := same round current
    rw [results]
    exact ready.unanswered before found (closed ▸ isOpen)
  · intro round current isOpen id joined member here
    obtain ⟨before, found, closed, _, joins⟩ := same round current
    change (assign lg.members assignments).lookup id = some member at here
    rw [assign_lookup] at here
    obtain ⟨original, there, rfl⟩ := Option.map_eq_some_iff.mp here
    have named := ready.named before found (closed ▸ isOpen) id (joins ▸ joined) original there
    cases assignments.lookup id <;> exact named

end LiveGroup

end KafkaWire.Broker
