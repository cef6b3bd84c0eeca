import KafkaWire.Broker.Rounds

/-! In every interleaving, the members that one round answers hear the same generation. -/

namespace KafkaWire.Broker

open LiveGroup (Change)

variable (store : OffsetStore) (events : List Event)

namespace LiveGroup

theorem leaveGroup_rest (lg : LiveGroup) (memberID : String) :
    (lg.leaveGroup memberID).1.past = lg.past ∧ (lg.leaveGroup memberID).1.round = lg.round ∧
      ∀ id member, (lg.leaveGroup memberID).1.members.lookup id = some member →
        lg.members.lookup id = some member := by
  unfold leaveGroup
  split
  · exact ⟨rfl, rfl, fun _ _ found => found⟩
  · refine ⟨rfl, rfl, fun id member found => ?_⟩
    change (lg.members.erase memberID).lookup id = some member at found
    by_cases same : id = memberID
    · rw [same, AList.lookup_erase] at found
      cases found
    · rwa [AList.lookup_erase_ne same] at found

theorem closeRound_settles (order : List String) (lg : LiveGroup) (round : RebalanceRound)
    (current : lg.round = some round) (isOpen : round.closed = false) (ready : lg.Ready) (i : Nat) :
    (lg.closeRound order round).closedAt i = lg.closedAt i ∨
      lg.closedAt i = none ∧ ∃ results, (lg.closeRound order round).closedAt i = some results ∧
        Settled (lg.closeRound order round).members.keys results := by
  rw [closeRound_closedAt order lg round isOpen]
  split
  · next last =>
      subst last
      refine .inr ⟨closedAt_open lg round current isOpen, _, rfl, ?_⟩
      rw [closeRound_open order lg round isOpen]
      exact settle_settled order lg round (ready.unanswered round current isOpen)
        (ready.named round current isOpen)
  · exact .inl rfl

/-- One event leaves the closed rounds as they are, except that it may close one more. -/
theorem Change.settles {lg lg' : LiveGroup} {event : Event} (change : Change lg event lg')
    (ready : lg.Ready) :
    lg'.Ready ∧ ∀ i, lg'.closedAt i = lg.closedAt i ∨
      lg.closedAt i = none ∧ ∃ results, lg'.closedAt i = some results ∧
        Settled lg'.members.keys results := by
  cases change with
  | beat event heartbeats =>
    exact ⟨ready.shrink rfl rfl fun _ _ found => found, fun i => .inl rfl⟩
  | swept args now random order anonymous =>
    have shrunk := sweep_shrunk lg args now
    exact ⟨shrunk.ready ready, fun i => .inl (shrunk.closedAt i)⟩
  | entered args now random order admitted =>
    exact ⟨entered_ready lg args now random ready,
      fun i => .inl (entered_closedAt lg args now random i)⟩
  | completed args now random order round admitted current isOpen =>
    have entered := entered_ready lg args now random ready
    refine ⟨closeRound_ready order _ round isOpen entered, fun i => ?_⟩
    rw [← entered_closedAt lg args now random i]
    exact closeRound_settles order _ round current isOpen entered i
  | distributed args now persists heartbeats generation present leads =>
    exact ⟨distribute_ready _ args.assignments persists
      (ready.shrink rfl rfl fun _ _ found => found),
      fun i => .inl (distribute_closedAt _ args.assignments persists i)⟩
  | left groupID memberID present =>
    obtain ⟨past, round, kept⟩ := leaveGroup_rest lg memberID
    exact ⟨ready.shrink past round kept, fun i => .inl (closedAt_congr past (by rw [round]) i)⟩
  | expired groupID order round current isOpen =>
    exact ⟨closeRound_ready order lg round isOpen ready,
      closeRound_settles order lg round current isOpen ready⟩

end LiveGroup

theorem everyStep_any :
    EveryStep (fun _ _ => True) store events := Machine.guarded_true _ events

theorem groupAfter_ready (groupID : String) : (groupAfter store events groupID).live.Ready := by
  refine (everyStep_any store events).invariant (fun _ group => group.live.Ready) ?_ ?_ ?_
  · intro persisted
    refine ⟨?_, ?_, ?_⟩
    · rintro _ ⟨⟩
    · rintro _ ⟨⟩
    · rintro _ ⟨⟩
  · exact fun _ _ _ ready => ready
  · exact fun _ group event _ ready _ => ((group.step_change event).settles ready).1

theorem closedAt_concat (event : Event) (groupID : String) (i : Nat) :
    (groupAfter store (events ++ [event]) groupID).live.closedAt i =
        (groupAfter store events groupID).live.closedAt i ∨
      (groupAfter store events groupID).live.closedAt i = none ∧
        ∃ results, (groupAfter store (events ++ [event]) groupID).live.closedAt i = some results ∧
          Settled (groupAfter store (events ++ [event]) groupID).live.members.keys results := by
  rcases groupAfter_concat store events event groupID with unchanged | ⟨_, stepped⟩
  · rw [unchanged]
    exact .inl rfl
  · rw [stepped]
    exact ((Group.step_change _ event).settles (groupAfter_ready store events groupID)).2 i

theorem closedAt_stays (front back : List Event) (groupID : String) (i : Nat)
    (results : Table JoinGroupResult)
    (closed : (groupAfter store front groupID).live.closedAt i = some results) :
    (groupAfter store (front ++ back) groupID).live.closedAt i = some results := by
  induction back using List.reverseRecOn with
  | nil => rwa [List.append_nil]
  | append_singleton back event ih =>
    rw [← List.append_assoc]
    rcases closedAt_concat store (front ++ back) event groupID i with same | ⟨absent, _⟩
    · rw [same, ih]
    · rw [ih] at absent
      cases absent

theorem Group.step_joined {group : Group} {event : Event} {result : JoinGroupResult}
    (reply : (group.step event).2 = some (.join result)) (accepted : result.errorCode = 0) :
    ∃ groupID call results, event = .joinWakes groupID call ∧
      group.live.closedAt call.round = some results ∧
      results.lookup call.memberID = some result := by
  cases event with
  | joinWakes groupID call =>
    simp only [step] at reply
    split at reply
    · next wakes =>
        have found := Reply.join.inj (Option.some.inj reply)
        unfold joinReply at found
        cases held : group.live.rounds[call.round]? with
        | none =>
          rw [held] at wakes
          cases wakes.2
        | some round =>
          rw [held] at wakes found
          dsimp only at found
          have closed : group.live.closedAt call.round = some round.results := by
            unfold LiveGroup.closedAt
            rw [held]
            exact if_pos wakes.2
          refine ⟨groupID, call, round.results, rfl, closed, ?_⟩
          cases own : round.results.lookup call.memberID with
          | none =>
            rw [own] at found
            rw [← found] at accepted
            cases accepted
          | some held =>
            rw [own] at found
            exact congrArg some found
    · cases reply
  | join args now random order =>
    simp only [step, join] at reply
    have refused : ∀ early, (group.live.joinGroup args now random order).2 = .replied early →
        early.errorCode ≠ 0 := by
      intro early outcome
      unfold LiveGroup.joinGroup at outcome
      dsimp only at outcome
      split at outcome
      · rw [← JoinStep.replied.inj outcome]
        exact fun code => by cases code
      · cases outcome
    split at reply
    · next live early outcome =>
        rw [← Reply.join.inj (Option.some.inj reply)] at accepted
        exact absurd accepted (refused early (by rw [outcome]))
    · cases reply
  | joinTimesOut groupID call =>
    simp only [step] at reply
    split at reply
    · rw [← Reply.join.inj (Option.some.inj reply)] at accepted
      cases accepted
    · cases reply
  | sync args now persists =>
    simp only [step, sync] at reply
    split at reply <;> cases reply
  | syncWakes groupID call | syncTimesOut groupID call =>
    simp only [step] at reply
    split at reply <;> cases reply
  | heartbeat args now => cases reply
  | leave groupID memberID => cases reply
  | expire groupID round order => cases reply

structure RoundsAgree (store : OffsetStore) (events : List Event) (groupID : String) : Prop where
  /-- A `JoinGroup` reply with code 0 is the result that a closed round holds for its member. -/
  issued : ∀ front event back result, events = front ++ event :: back → event.groupID = groupID →
    replyAfter store front event = some (.join result) → result.errorCode = 0 →
      ∃ i results, event = .joinWakes groupID ⟨i, result.memberID⟩ ∧
        (groupAfter store events groupID).live.closedAt i = some results ∧
        results.lookup result.memberID = some result
  /-- A closed round was settled for the group's membership when it closed. -/
  settled : ∀ i results, (groupAfter store events groupID).live.closedAt i = some results →
    ∃ front event back, events = front ++ event :: back ∧
      (groupAfter store front groupID).live.closedAt i = none ∧
      (groupAfter store (front ++ [event]) groupID).live.closedAt i = some results ∧
      Settled (groupAfter store (front ++ [event]) groupID).live.members.keys results

theorem closed_round_settled (groupID : String) (i : Nat) (results : Table JoinGroupResult)
    (closed : (groupAfter store events groupID).live.closedAt i = some results) :
    ∃ front event back, events = front ++ event :: back ∧
      (groupAfter store front groupID).live.closedAt i = none ∧
      (groupAfter store (front ++ [event]) groupID).live.closedAt i = some results ∧
      Settled (groupAfter store (front ++ [event]) groupID).live.members.keys results := by
  induction events using List.reverseRecOn with
  | nil =>
    obtain ⟨persisted, fresh⟩ := new_entry store groupID
    have start : groupAfter store [] groupID = .fresh persisted := fresh
    rw [start] at closed
    cases closed
  | append_singleton events event ih =>
    rcases closedAt_concat store events event groupID i with same | ⟨absent, held, now, settled⟩
    · obtain ⟨front, closing, back, rfl, facts⟩ := ih (same ▸ closed)
      exact ⟨front, closing, back ++ [event], by simp, facts⟩
    · rw [now] at closed
      cases closed
      exact ⟨events, event, [], rfl, absent, now, settled⟩

theorem rounds_agree (store : OffsetStore) (events : List Event) (groupID : String) :
    RoundsAgree store events groupID := by
  refine ⟨?_, fun i results => closed_round_settled store events groupID i results⟩
  rintro front event back result rfl rfl reply accepted
  rcases GroupCoordinator.step_entry (Machine.exec GroupCoordinator.step (newGroupCoordinator store)
    front) event with ⟨_, stepped⟩ | ⟨_, refused⟩
  · obtain ⟨groupID, call, results, rfl, closed, own⟩ :=
      Group.step_joined (stepped.symm.trans reply) accepted
    obtain ⟨_, _, _, _, _, _, settled⟩ := closed_round_settled store front groupID call.round
      results closed
    have named := (settled.own call.memberID result own).1
    refine ⟨call.round, results, by rw [named]; rfl,
      closedAt_stays store front _ groupID call.round results closed, by rwa [named]⟩
  · rw [replyAfter] at reply
    rcases refused with absent | invalid | invalid | invalid
    · rw [absent] at reply
      cases reply
    · rw [invalid] at reply
      rw [← Reply.join.inj (Option.some.inj reply)] at accepted
      cases accepted
    · rw [invalid] at reply
      cases reply
    · rw [invalid] at reply
      cases reply

end KafkaWire.Broker
