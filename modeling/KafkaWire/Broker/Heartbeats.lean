import KafkaWire.Broker.Changes

/-! Whether the members of a generation hear, through their heartbeats, that they must rejoin. -/

namespace KafkaWire.Broker

open LiveGroup (Change Shrunk)

variable (lg : LiveGroup)

namespace LiveGroup

def AllAlive (lg : LiveGroup) (args : JoinGroupArgs) (now : Int) : Prop :=
  ∀ entry ∈ lg.members.entries, lg.expired now entry.1 entry.2 = false ∧
    (args.clientID = "" ∨ entry.2.clientID ≠ args.clientID)

instance (lg : LiveGroup) (args : JoinGroupArgs) (now : Int) : Decidable (lg.AllAlive args now) :=
  inferInstanceAs (Decidable (∀ entry ∈ lg.members.entries, _))

/-- The orders of requests in which a pending rebalance stays visible: a request that is sent
away for a member id removes nobody unless a rebalance is pending, no request joins a round that
is still open after the last member left, and no leader distributes assignments while a rebalance
is pending. -/
def Orderly (lg : LiveGroup) : Event → Prop
  | .join args now _ _ =>
    if args.memberID = "" ∧ 4 ≤ args.apiVersion then
      lg.state = .preparingRebalance ∨ lg.AllAlive args now
    else ¬ (lg.roundOpen = true ∧ lg.state = .empty) ∧ lg.CanAdvance
  | .sync args _ _ =>
    lg.persisted.generation = args.generation → args.memberID ∈ lg.members →
      args.memberID = lg.leader → lg.state ≠ .preparingRebalance
  | .expire .. => lg.CanAdvance
  | _ => True

instance (lg : LiveGroup) (event : Event) : Decidable (lg.Orderly event) :=
  match event with
  | .join args now _ _ =>
    inferInstanceAs (Decidable (if args.memberID = "" ∧ 4 ≤ args.apiVersion then
      lg.state = .preparingRebalance ∨ lg.AllAlive args now
    else ¬ (lg.roundOpen = true ∧ lg.state = .empty) ∧ lg.CanAdvance))
  | .sync args _ _ =>
    inferInstanceAs (Decidable (lg.persisted.generation = args.generation →
      args.memberID ∈ lg.members → args.memberID = lg.leader → lg.state ≠ .preparingRebalance))
  | .expire .. => inferInstanceAs (Decidable lg.CanAdvance)
  | .joinWakes .. | .joinTimesOut .. | .syncWakes .. | .syncTimesOut .. | .heartbeat ..
  | .leave .. => isTrue trivial

def Told (lg : LiveGroup) : Prop := lg.state = .preparingRebalance ∨ lg.members.keys = []

def Steady (lg : LiveGroup) : Prop :=
  lg.roundOpen = true → lg.state = .preparingRebalance ∨ lg.state = .empty ∧ lg.members.keys = []

inductive Visible (lg lg' : LiveGroup) : Prop
  | told (same : lg'.persisted.generation = lg.persisted.generation) (pending : lg'.Told)
  | advanced (next : lg'.persisted.generation = lg.persisted.generation + 1)
  | quiet (same : lg'.persisted.generation = lg.persisted.generation)
      (rounds : lg'.rounds.length = lg.rounds.length)
      (present : ∀ id, id ∈ lg.members → id ∈ lg'.members) (kept : lg.Told → lg'.Told)

theorem keys_nil_of_subset {members members' : Table MemberState}
    (kept : ∀ id member, members'.lookup id = some member → members.lookup id = some member)
    (gone : members.keys = []) : members'.keys = [] := by
  refine List.eq_nil_iff_forall_not_mem.mpr fun id listed => ?_
  obtain ⟨member, found⟩ := lookup_of_mem (AList.mem_keys.mpr listed)
  have present := AList.mem_keys.mp (mem_of_lookup (kept id member found))
  rw [gone] at present
  cases present

theorem sweep_allAlive (args : JoinGroupArgs) (now : Int)
    (alive : lg.AllAlive args now) : lg.sweep args now = lg := by
  have evicted : lg.evictExpired now = lg :=
    dropWhere_none _ lg fun id member found => (alive _ (AList.mem_lookup_iff.mp found)).1
  unfold sweep
  rw [evicted]
  split
  · unfold replaceClient
    split
    · next named =>
        refine dropWhere_none _ lg fun id member found => ?_
        have other := (alive _ (AList.mem_lookup_iff.mp found)).2.resolve_left named
        exact beq_false_of_ne other
    · rfl
  · rfl

theorem entered_state (args : JoinGroupArgs) (now : Int) (random : Bytes)
    (steady : lg.Steady) (orderly : ¬ (lg.roundOpen = true ∧ lg.state = .empty)) :
    (lg.entered args now random).state = .preparingRebalance := by
  obtain ⟨⟨members, heartbeats, leader, swept⟩, _⟩ := sweep_shrunk lg args now
  change ((lg.sweep args now).openRound args now).state = _
  rw [swept]
  unfold openRound
  split
  · next inFlight =>
      change lg.roundOpen = true at inFlight
      exact (steady inFlight).resolve_right fun emptied => orderly ⟨inFlight, emptied.1⟩
  · rfl

theorem closeRound_steady (order : List String) (lg : LiveGroup) (round : RebalanceRound)
    (isOpen : round.closed = false) : (lg.closeRound order round).Steady := by
  intro inFlight
  rw [closeRound_open order lg round isOpen] at inFlight
  cases inFlight

theorem leaveGroup_facts (memberID : String) (present : memberID ∈ lg.members) :
    (lg.leaveGroup memberID).1.persisted.generation = lg.persisted.generation ∧
      ((lg.leaveGroup memberID).1.state = .preparingRebalance ∨
        (lg.leaveGroup memberID).1.state = .empty ∧
          (lg.leaveGroup memberID).1.members.keys = []) := by
  rw [leaveGroup, if_neg (not_not.mpr present)]
  refine ⟨rfl, ?_⟩
  by_cases emptied : (lg.remove memberID).members.keys = []
  · exact .inr ⟨if_pos emptied, emptied⟩
  · exact .inl (if_neg emptied)

theorem Change.visible {lg lg' : LiveGroup} {event : Event} (change : Change lg event lg')
    (steady : lg.Steady) (orderly : lg.Orderly event) : lg'.Steady ∧ Visible lg lg' := by
  cases change with
  | beat event heartbeats => exact ⟨steady, .quiet rfl rfl (fun _ here => here) fun told => told⟩
  | swept args now random order anonymous =>
    obtain ⟨⟨members, heartbeats, leader, swept⟩, kept⟩ := sweep_shrunk lg args now
    have gone := keys_nil_of_subset kept
    rw [Orderly, if_pos anonymous] at orderly
    refine ⟨?_, ?_⟩
    · intro inFlight
      rw [swept] at inFlight gone ⊢
      exact (steady inFlight).imp_right fun emptied => ⟨emptied.1, gone emptied.2⟩
    · rcases orderly with pending | alive
      · exact .told (by rw [swept]; rfl) (.inl (by rw [swept]; exact pending))
      · rw [sweep_allAlive lg args now alive]
        exact .quiet rfl rfl (fun _ here => here) fun told => told
  | entered args now random order admitted =>
    rw [Orderly, if_neg admitted] at orderly
    have pending := entered_state lg args now random steady orderly.1
    exact ⟨fun _ => .inl pending, .told (entered_generation lg args now random) (.inl pending)⟩
  | completed args now random order round admitted current isOpen =>
    rw [Orderly, if_neg admitted] at orderly
    have same := entered_generation lg args now random
    have advance : (lg.entered args now random).CanAdvance := by
      rw [CanAdvance, same]
      exact orderly.2
    refine ⟨closeRound_steady order _ round isOpen, .advanced ?_⟩
    rw [closeRound_generation order _ round isOpen advance, same]
  | distributed args now persists heartbeats generation present leads =>
    have settled := orderly generation present leads
    have inhabited : lg.members.keys ≠ [] := List.ne_nil_of_mem (AList.mem_keys.mp present)
    refine ⟨fun inFlight => ?_, .quiet rfl ?_ (fun id here => ?_) fun told => ?_⟩
    · have before : lg.roundOpen = true := by
        revert inFlight
        cases persists <;> simp [distribute, roundOpen, Option.any_map]
      exact absurd (steady before) (by simp [settled, inhabited])
    · cases persists <;> simp [distribute, rounds, setMembers]
      cases lg.round <;> rfl
    · exact (assign_mem lg.members args.assignments id).mpr here
    · exact absurd told (by simp [Told, settled, inhabited])
  | left groupID memberID present =>
    obtain ⟨same, state⟩ := leaveGroup_facts lg memberID present
    exact ⟨fun _ => state, .told same (state.imp_right And.right)⟩
  | expired groupID order round current isOpen =>
    exact ⟨closeRound_steady order lg round isOpen,
      .advanced (closeRound_generation order lg round isOpen orderly)⟩

structure Ending (g : Int) (lg : LiveGroup) : Prop where
  reached : g ≤ lg.persisted.generation
  told : lg.persisted.generation = g → lg.Told

theorem Visible.ending {lg lg' : LiveGroup} {g : Int} (visible : Visible lg lg')
    (ending : lg.Ending g) : lg'.Ending g := by
  obtain ⟨reached, told⟩ := ending
  cases visible with
  | told same pending => exact ⟨by omega, fun _ => pending⟩
  | advanced next => exact ⟨by omega, fun equal => absurd equal (by omega)⟩
  | quiet same rounds present kept =>
    exact ⟨by omega, fun equal => kept (told (same.symm.trans equal))⟩

theorem Visible.ends {lg lg' : LiveGroup} (visible : Visible lg lg')
    (disturbed : (∃ id, id ∈ lg.members ∧ id ∉ lg'.members) ∨ lg.rounds.length < lg'.rounds.length) :
    lg'.Ending lg.persisted.generation := by
  cases visible with
  | told same pending => exact ⟨by omega, fun _ => pending⟩
  | advanced next => exact ⟨by omega, fun equal => absurd equal (by omega)⟩
  | quiet same rounds present kept =>
    rcases disturbed with ⟨id, before, gone⟩ | opened
    · exact absurd (present id before) gone
    · exact absurd opened (by omega)

end LiveGroup

def Group.Orderly (group : Group) (event : Event) : Prop := group.live.Orderly event

instance (group : Group) (event : Event) : Decidable (group.Orderly event) :=
  inferInstanceAs (Decidable (group.live.Orderly event))

def Disturbs (store : OffsetStore) (events : List Event) (event : Event) (groupID : String) : Prop :=
  let before := (groupAfter store events groupID).live
  let after := (groupAfter store (events ++ [event]) groupID).live
  (∃ id, id ∈ before.members ∧ id ∉ after.members) ∨ before.rounds.length < after.rounds.length

/-- Once a member of the current generation was removed or a round was opened, no heartbeat of
that generation is answered with code 0 at the end of the run. -/
def RejoinAnnounced (store : OffsetStore) (events : List Event) : Prop :=
  ∀ front event back groupID, events = front ++ event :: back →
    Disturbs store front event groupID → ∀ memberID now,
      replyAfter store events
        (.heartbeat ⟨groupID, memberID, (groupAfter store front groupID).live.persisted.generation⟩ now)
        ≠ some (.code 0)

theorem orderly_steady {store : OffsetStore} {events : List Event}
    (orderly : EveryStep Group.Orderly store events) (groupID : String) :
    (groupAfter store events groupID).live.Steady :=
  orderly.invariant (fun _ group => group.live.Steady) (fun _ inFlight => by cases inFlight)
    (fun _ _ _ steady => steady)
    (fun _ group event _ steady meets => ((group.step_change event).visible steady meets).1)

theorem orderly_ending {store : OffsetStore} {front : List Event} {event : Event}
    {groupID : String} (disturbed : Disturbs store front event groupID) (back : List Event)
    (orderly : EveryStep Group.Orderly store (front ++ event :: back)) :
    (groupAfter store (front ++ event :: back) groupID).live.Ending
      (groupAfter store front groupID).live.persisted.generation := by
  induction back using List.reverseRecOn with
  | nil =>
    rcases groupAfter_concat store front event groupID with unchanged | ⟨rfl, stepped⟩
    · rw [Disturbs, unchanged] at disturbed
      rcases disturbed with ⟨id, before, gone⟩ | opened
      · exact absurd before gone
      · exact absurd opened (lt_irrefl _)
    · have steady := orderly_steady orderly.front event.groupID
      rw [Disturbs, stepped] at disturbed
      rw [stepped]
      exact ((Group.step_change _ event).visible steady orderly.next).2.ends disturbed
  | append_singleton back next ih =>
    rw [← List.cons_append, ← List.append_assoc] at orderly ⊢
    have ending := ih orderly.front
    rcases groupAfter_concat store (front ++ event :: back) next groupID with
      unchanged | ⟨rfl, stepped⟩
    · rw [unchanged]
      exact ending
    · have steady := orderly_steady orderly.front next.groupID
      rw [stepped]
      exact ((Group.step_change _ next).visible steady orderly.next).2.ending ending

theorem heartbeat_told (args : HeartbeatArgs) (now : Int)
    (ending : lg.Ending args.generation) : (lg.heartbeat args now).2 ≠ 0 := by
  unfold LiveGroup.heartbeat
  split
  · exact fun code => by cases code
  · next current =>
      split
      · exact fun code => by cases code
      · next present =>
          have inhabited : lg.members.keys ≠ [] :=
            List.ne_nil_of_mem (AList.mem_keys.mp (not_not.mp present))
          have pending := (ending.told (not_not.mp current)).resolve_right inhabited
          dsimp only
          rw [if_pos pending]
          exact fun code => by cases code

/-- In every run of orderly steps, a generation that lost a member or saw a round open stays
announced as over. -/
theorem orderly_runs_announce_rejoin (store : OffsetStore) (events : List Event)
    (orderly : EveryStep Group.Orderly store events) : RejoinAnnounced store events := by
  intro front event back groupID split disturbed memberID now
  subst split
  have ending := orderly_ending disturbed back orderly
  unfold replyAfter
  rcases GroupCoordinator.step_entry (Machine.exec GroupCoordinator.step (newGroupCoordinator store)
    (front ++ event :: back)) (.heartbeat ⟨groupID, memberID, _⟩ now) with
    ⟨_, reply⟩ | ⟨_, absent | invalid | invalid | invalid⟩
  · rw [reply]
    intro same
    exact heartbeat_told _ _ now ending (Reply.code.inj (Option.some.inj same))
  · rw [absent]
    exact fun same => by cases same
  · rw [invalid]
    exact fun same => by cases same
  · rw [invalid]
    exact fun same => by cases same
  · rw [invalid]
    exact fun same => by cases Reply.code.inj (Option.some.inj same)

def twoMembers : List Event :=
  [.join { groupID := "g", memberID := "a", clientID := "one" } 0 [] [],
    .join { groupID := "g", memberID := "b", clientID := "two" } 0 [] [],
    .expire "g" 0 [],
    .sync { groupID := "g", generation := 1, memberID := "a" } 0 true]

theorem departure_is_announced :
    EveryStep Group.Orderly ⟨∅⟩ (twoMembers ++ [.leave "g" "a"]) ∧
      Disturbs ⟨∅⟩ twoMembers (.leave "g" "a") "g" ∧
      replyAfter ⟨∅⟩ (twoMembers ++ [.leave "g" "a"]) (.heartbeat ⟨"g", "b", 1⟩ 0) ≠
        some (.code 0) := by
  have orderly : EveryStep Group.Orderly ⟨∅⟩ (twoMembers ++ [.leave "g" "a"]) := by decide +kernel
  have disturbed : Disturbs ⟨∅⟩ twoMembers (.leave "g" "a") "g" :=
    .inl ⟨"a", by decide +kernel, by decide +kernel⟩
  have generation : (groupAfter ⟨∅⟩ twoMembers "g").live.persisted.generation = 1 := by
    decide +kernel
  have announced := orderly_runs_announce_rejoin ⟨∅⟩ _ orderly twoMembers (.leave "g" "a") [] "g"
    rfl disturbed "b" 0
  rw [generation] at announced
  exact ⟨orderly, disturbed, announced⟩

/-- Five seconds later `a` has fallen silent. A new process asks to join, `a` is evicted, and the
process is sent away to come back with a member id: the group stays stable. -/
theorem eviction_not_announced :
    ¬ RejoinAnnounced ⟨∅⟩ (twoMembers ++
      [.heartbeat ⟨"g", "b", 1⟩ (5 * second),
        .join { groupID := "g", clientID := "three", apiVersion := 4 } (5 * second) [] []]) := by
  intro announced
  have disturbed : Disturbs ⟨∅⟩ (twoMembers ++ [.heartbeat ⟨"g", "b", 1⟩ (5 * second)])
      (.join { groupID := "g", clientID := "three", apiVersion := 4 } (5 * second) [] []) "g" :=
    .inl ⟨"a", by decide +kernel, by decide +kernel⟩
  have generation : (groupAfter ⟨∅⟩ (twoMembers ++ [.heartbeat ⟨"g", "b", 1⟩ (5 * second)])
      "g").live.persisted.generation = 1 := by
    decide +kernel
  have silent := announced _ _ [] "g" (List.append_assoc _ [_] [_]).symm disturbed "b" (5 * second)
  rw [generation] at silent
  exact silent (by decide +kernel)

end KafkaWire.Broker
