import KafkaWire.Broker.Enrolled

/-! The metadata that the leader of a closed round receives for each member, compared with what the
member sent. `joinGroupSubscriptionBytes` keeps one protocol's metadata, and which protocol the round
selects is known only later. -/

namespace KafkaWire.Broker

open LiveGroup (Change)

variable {groupID : String} {past : List Event} {lg lg' : LiveGroup} {event : Event}

/-- A request that enters its member lists a protocol, and lists first the one that the members
which have joined the round before it list first. -/
def ListsAlike (group : Group) : Event → Prop
  | .join args now random _ =>
    ¬ (args.memberID = "" ∧ 4 ≤ args.apiVersion) → args.protocols ≠ [] ∧
      ∀ entry ∈ (group.live.sweep args now).members.entries, entry.1 ≠ joinID args random →
        group.live.Rejoined entry.1 →
          entry.2.protocols.head? = (args.protocols.map (·.name)).head?
  | _ => True

instance (group : Group) (event : Event) : Decidable (ListsAlike group event) :=
  match event with
  | .join args now random _ =>
    inferInstanceAs (Decidable (¬ (args.memberID = "" ∧ 4 ≤ args.apiVersion) →
      args.protocols ≠ [] ∧
        ∀ entry ∈ (group.live.sweep args now).members.entries, entry.1 ≠ joinID args random →
          group.live.Rejoined entry.1 →
            entry.2.protocols.head? = (args.protocols.map (·.name)).head?))
  | .joinWakes .. | .joinTimesOut .. | .sync .. | .syncWakes .. | .syncTimesOut .. | .heartbeat ..
  | .leave .. | .expire .. => isTrue trivial

def HandsOut (groupID : String) (past : List Event) (lg lg' : LiveGroup) : Prop :=
  ∀ i results, lg.closedAt i = none → lg'.closedAt i = some results → HandedOut groupID past results

theorem HandsOut.of_same
    (same : ∀ i, lg'.closedAt i = lg.closedAt i) : HandsOut groupID past lg lg' := by
  intro i results absent closed
  rw [same, absent] at closed
  cases closed

theorem Enrolled.closeRound
    (enrolled : Enrolled groupID past lg) (ready : lg.Ready) (order : List String)
    (round : RebalanceRound) (current : lg.round = some round) (isOpen : round.closed = false) :
    Enrolled groupID past (lg.closeRound order round) ∧
      HandsOut groupID past lg (lg.closeRound order round) := by
  refine ⟨⟨LiveGroup.closeRound_waiting _ order lg round isOpen, "",
    LiveGroup.closeRound_waiting _ order lg round isOpen⟩, ?_⟩
  intro i results absent closed
  rw [LiveGroup.closeRound_closedAt order lg round isOpen] at closed
  split at closed
  · cases closed
    exact enrolled.settle ready order round current isOpen
  · rw [absent] at closed
    cases closed

theorem Enrolled.shrink (enrolled : Enrolled groupID past lg) (round : lg'.round = lg.round)
    (kept : ∀ id m, lg'.members.lookup id = some m → lg.members.lookup id = some m) :
    Enrolled groupID past lg' := by
  obtain ⟨name, alike⟩ := enrolled.alike
  exact ⟨enrolled.sent.shrink round kept, name, alike.shrink round kept⟩

theorem Enrolled.later
    (enrolled : Enrolled groupID past lg) (nobody : ∀ id, event.enters groupID id = none) :
    Enrolled groupID (past ++ [event]) lg := by
  refine ⟨?_, enrolled.alike⟩
  intro id m joined found
  rw [lastJoin_concat, nobody id, Option.none_or]
  exact enrolled.sent id m joined found

theorem Enrolled.change
    (enrolled : Enrolled groupID past lg) (ready : lg.Ready) (change : Change lg event lg')
    (other : ∀ args now random order, event ≠ .join args now random order) :
    Enrolled groupID past lg' ∧ HandsOut groupID past lg lg' := by
  cases change with
  | beat event heartbeats =>
    exact ⟨enrolled.shrink rfl fun _ _ found => found, .of_same fun i => rfl⟩
  | swept args now random order anonymous => exact absurd rfl (other args now random order)
  | entered args now random order admitted => exact absurd rfl (other args now random order)
  | completed args now random order round admitted current isOpen =>
    exact absurd rfl (other args now random order)
  | distributed args now persists heartbeats generation present leads =>
    have beaten : Enrolled groupID past { lg with heartbeats := heartbeats } :=
      enrolled.shrink rfl fun _ _ found => found
    obtain ⟨name, alike⟩ := beaten.alike
    exact ⟨⟨beaten.sent.distribute (fun _ _ _ sent => sent) _ persists, name,
      alike.distribute (fun _ _ _ first => first) _ persists⟩,
      .of_same fun i => LiveGroup.distribute_closedAt _ args.assignments persists i⟩
  | left groupID memberID present =>
    obtain ⟨past, round, kept⟩ := LiveGroup.leaveGroup_rest lg memberID
    exact ⟨enrolled.shrink round kept,
      .of_same fun i => LiveGroup.closedAt_congr past (by rw [round]) i⟩
  | expired groupID order round current isOpen =>
    exact enrolled.closeRound ready order round current isOpen

theorem Enrolled.entered {group : Group}
    {args : JoinGroupArgs} {now : Int} {random : Bytes} {order : List String}
    (enrolled : Enrolled groupID past group.live) (same : args.groupID = groupID)
    (valid : (validateName "group" args.groupID).isOk)
    (admitted : ¬ (args.memberID = "" ∧ 4 ≤ args.apiVersion))
    (alike : ListsAlike group (.join args now random order)) :
    Enrolled groupID (past ++ [.join args now random order])
      (group.live.entered args now random) := by
  obtain ⟨lists, others⟩ := alike admitted
  have kept := (LiveGroup.sweep_shrunk group.live args now).kept
  constructor
  case sent =>
    refine LiveGroup.entered_waiting group.live args now random ?_ ?_
    · intro id m different joined found
      rw [lastJoin_concat, Event.enters, if_neg fun all => different all.2.2.1.symm, Option.none_or]
      exact enrolled.sent id m joined (kept id m found)
    · intro m describes
      rw [lastJoin_concat, Event.enters, if_pos ⟨same, valid, rfl, admitted⟩]
      exact ⟨args, rfl, describes⟩
  case alike =>
    obtain ⟨first, rest, protocols⟩ := List.exists_cons_of_ne_nil lists
    refine ⟨first.name, LiveGroup.entered_waiting group.live args now random ?_ ?_⟩
    · intro id m different joined found
      have agreed := others ⟨id, m⟩ (AList.mem_lookup_iff.mp found) different joined
      rw [protocols] at agreed
      exact agreed
    · intro m describes
      rw [describes.2, protocols]
      rfl

theorem Enrolled.step {group : Group}
    (enrolled : Enrolled groupID past group.live) (ready : group.live.Ready)
    (own : event.groupID = groupID)
    (valid : ∀ args now random order, event = .join args now random order →
      (validateName "group" args.groupID).isOk)
    (alike : ListsAlike group event) :
    Enrolled groupID (past ++ [event]) (group.step event).1.live ∧
      HandsOut groupID (past ++ [event]) group.live (group.step event).1.live := by
  cases event with
  | join args now random order =>
    have named : args.groupID = groupID := own
    have live : (group.step (.join args now random order)).1.live =
        (group.live.joinGroup args now random order).1 := by
      simp only [Group.step, Group.join]
      split <;> next outcome => rw [outcome]
    rw [live]
    rcases group.live.joinGroup_cases args now random order with
      ⟨anonymous, same⟩ | ⟨admitted, entered⟩
    · rw [same]
      have shrunk := LiveGroup.sweep_shrunk group.live args now
      have rounds : (group.live.sweep args now).round = group.live.round := by
        obtain ⟨_, _, _, swept⟩ := shrunk.rest
        rw [swept]
        rfl
      refine ⟨(enrolled.later fun id => ?_).shrink rounds shrunk.kept, .of_same shrunk.closedAt⟩
      exact if_neg fun all => all.2.2.2 anonymous
    · have inside := enrolled.entered named (valid args now random order rfl) admitted alike
      have ready' := LiveGroup.entered_ready group.live args now random ready
      have unclosed := LiveGroup.entered_closedAt group.live args now random
      rcases entered with same | ⟨round, current, isOpen, same⟩
      · rw [same]
        exact ⟨inside, .of_same unclosed⟩
      · rw [same]
        obtain ⟨closed, delivers⟩ := inside.closeRound ready' order round current isOpen
        exact ⟨closed, fun i results absent => delivers i results ((unclosed i).trans absent)⟩
  | _ =>
    exact (enrolled.later fun id => rfl).change ready (Group.step_change group _)
      (by intro _ _ _ _ same; cases same)

/-- An event that enters nobody leaves the group, or else it is a step of the group; a request with
an invalid group id is refused before. -/
theorem groupAfter_cases (store : OffsetStore) (events : List Event) (event : Event)
    (groupID : String) :
    groupAfter store (events ++ [event]) groupID = groupAfter store events groupID ∧
        (∀ id, event.enters groupID id = none) ∨
      event.groupID = groupID ∧
        (∀ args now random order, event = .join args now random order →
          (validateName "group" args.groupID).isOk) ∧
        groupAfter store (events ++ [event]) groupID =
          ((groupAfter store events groupID).step event).1 := by
  cases event with
  | join args now random order =>
    by_cases own : args.groupID = groupID
    · subst own
      by_cases valid : (validateName "group" args.groupID).isOk
      · refine .inr ⟨rfl, ?_, ?_⟩
        · rintro _ _ _ _ ⟨⟩
          exact valid
        · simp [groupAfter, Machine.exec_concat, GroupCoordinator.step, GroupCoordinator.set,
            GroupCoordinator.entry, stepEntry, valid, Event.groupID]
      · refine .inl ⟨?_, fun id => if_neg fun all => valid all.2.1⟩
        simp only [groupAfter, Machine.exec_concat, GroupCoordinator.step, GroupCoordinator.set,
          GroupCoordinator.entry, stepEntry, valid, Event.groupID]
        split <;> simp_all
    · refine .inl ⟨?_, fun id => if_neg fun all => own all.1⟩
      exact (groupAfter_concat store events _ groupID).resolve_right fun stepped => own stepped.1
  | _ =>
    rcases groupAfter_concat store events _ groupID with unchanged | ⟨own, stepped⟩
    · exact .inl ⟨unchanged, fun id => rfl⟩
    · exact .inr ⟨own, by rintro _ _ _ _ ⟨⟩, stepped⟩

theorem groupAfter_enrolled (store : OffsetStore) (events : List Event) (groupID : String)
    (alike : EveryStep ListsAlike store events) :
    Enrolled groupID events (groupAfter store events groupID).live := by
  induction events using List.reverseRecOn with
  | nil =>
    obtain ⟨persisted, fresh⟩ := new_entry store groupID
    have start : groupAfter store [] groupID = .fresh persisted := fresh
    rw [start]
    refine ⟨?_, "", ?_⟩
    · rintro _ _ ⟨_, ⟨⟩, _⟩
    · rintro _ _ ⟨_, ⟨⟩, _⟩
  | append_singleton events event ih =>
    have enrolled := ih alike.front
    rcases groupAfter_cases store events event groupID with
      ⟨unchanged, nobody⟩ | ⟨rfl, valid, stepped⟩
    · rw [unchanged]
      exact enrolled.later nobody
    · rw [stepped]
      exact (enrolled.step (groupAfter_ready store events _) rfl valid alike.next).1

/-- In a run in which every request lists the protocol first that the members of the round list
first, the leader receives, for each member of the group and for nobody else, the metadata that the
member sent for the protocol which the round selected. -/
theorem leader_receives_sent_metadata (store : OffsetStore) (events : List Event) (event : Event)
    (groupID : String) (alike : EveryStep ListsAlike store (events ++ [event])) (i : Nat)
    (results : Table JoinGroupResult)
    (inFlight : (groupAfter store events groupID).live.closedAt i = none)
    (closed : (groupAfter store (events ++ [event]) groupID).live.closedAt i = some results) :
    ∀ id result, results.lookup id = some result → result.isLeader = true →
      (result.members.map (·.memberID)).Perm
        (groupAfter store (events ++ [event]) groupID).live.members.keys ∧
      ∀ jm ∈ result.members,
        ∃ args, lastJoin groupID jm.memberID (events ++ [event]) = some args ∧
          args.sentFor result.protocol = some jm.metadata := by
  intro id result found leads
  constructor
  · rcases closedAt_concat store events event groupID i with same | ⟨_, held, now, settled⟩
    · rw [same, inFlight] at closed
      cases closed
    · rw [now] at closed
      cases closed
      exact settled.listed id result found leads
  · have enrolled := groupAfter_enrolled store events groupID alike.front
    rcases groupAfter_cases store events event groupID with
      ⟨unchanged, _⟩ | ⟨rfl, valid, stepped⟩
    · rw [unchanged, inFlight] at closed
      cases closed
    · rw [stepped] at closed
      exact (enrolled.step (groupAfter_ready store events _) rfl valid alike.next).2 i results
        inFlight closed id result found

def rolling (first second : List GroupProtocol) : List Event :=
  [.join { groupID := "readers", memberID := "a", protocols := first } 0 [] [],
   .join { groupID := "readers", memberID := "b", protocols := second } 1 [] []]

def windowEnds : Event := .expire "readers" 0 []

theorem shared_favourite_delivered :
    EveryStep ListsAlike ⟨∅⟩ (rolling [⟨"range", [1]⟩, ⟨"sticky", [2]⟩] [⟨"range", [3]⟩] ++
      [windowEnds]) ∧
    ∃ results result, (groupAfter ⟨∅⟩ (rolling [⟨"range", [1]⟩, ⟨"sticky", [2]⟩] [⟨"range", [3]⟩] ++
        [windowEnds]) "readers").live.closedAt 0 = some results ∧
      results.lookup "a" = some result ∧ result.isLeader = true ∧
      ∀ jm ∈ result.members, ∃ args, lastJoin "readers" jm.memberID
        (rolling [⟨"range", [1]⟩, ⟨"sticky", [2]⟩] [⟨"range", [3]⟩] ++ [windowEnds]) = some args ∧
          args.sentFor result.protocol = some jm.metadata := by
  have alike : EveryStep ListsAlike ⟨∅⟩
      (rolling [⟨"range", [1]⟩, ⟨"sticky", [2]⟩] [⟨"range", [3]⟩] ++ [windowEnds]) := by
    decide +kernel
  have leads : (((groupAfter ⟨∅⟩ (rolling [⟨"range", [1]⟩, ⟨"sticky", [2]⟩] [⟨"range", [3]⟩] ++
      [windowEnds]) "readers").live.closedAt 0).bind (·.lookup "a")).map (·.isLeader) = some true := by
    decide +kernel
  obtain ⟨result, found, isLeader⟩ := Option.map_eq_some_iff.mp leads
  obtain ⟨results, closed, answered⟩ := Option.bind_eq_some_iff.mp found
  exact ⟨alike, results, result, closed, answered, isLeader,
    (leader_receives_sent_metadata _ _ _ _ alike 0 results (by decide +kernel) closed "a" result
      answered isLeader).2⟩

/-- The second member lists only the protocol that the first lists second. It is selected, and the
leader receives what the first member sent for the other one. -/
theorem rolling_change_misdelivers :
    (((groupAfter ⟨∅⟩ (rolling [⟨"range", [1]⟩, ⟨"sticky", [2]⟩] [⟨"sticky", [3]⟩] ++
        [windowEnds]) "readers").live.closedAt 0).bind (·.lookup "a")).map
          (fun result => (result.isLeader, result.protocol, result.members)) =
      some (true, "sticky", [⟨"a", [1]⟩, ⟨"b", [3]⟩]) ∧
    (lastJoin "readers" "a" (rolling [⟨"range", [1]⟩, ⟨"sticky", [2]⟩] [⟨"sticky", [3]⟩] ++
      [windowEnds])).bind (·.sentFor "sticky") = some [2] := by
  decide +kernel

end KafkaWire.Broker
