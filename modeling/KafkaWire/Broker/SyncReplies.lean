import KafkaWire.Broker.Assignments

/-! Every accepted `SyncGroup` reply carries what the leader of its generation supplied. -/

namespace KafkaWire.Broker

open LiveGroup (Supplied Traced)

variable {lg : LiveGroup} {args : SyncGroupArgs} {base : Int} {calls : List SyncGroupArgs}

namespace LiveGroup

theorem syncGroup_waits {now : Int} {persists : Bool}
    {round : Nat} (waits : (lg.syncGroup args now persists).2 = .waits round) :
    lg.persisted.generation = args.generation ∧ round = lg.past.length := by
  unfold syncGroup at waits
  split at waits
  · cases waits
  · next generation =>
      split at waits
      · cases waits
      · dsimp only at waits
        split at waits
        · split at waits <;> cases waits
        · split at waits
          · cases waits
          · exact ⟨not_not.mp generation, (SyncStep.waits.inj waits).symm⟩

theorem syncGroup_accepts {now : Int} {persists : Bool}
    {result : SyncGroupResult} (reply : (lg.syncGroup args now persists).2 = .replied result)
    (accepted : result.errorCode = 0) :
    lg.persisted.generation = args.generation ∧ args.memberID ∈ lg.members ∧
      (args.memberID = lg.leader ∧ (∃ heartbeats, result.assignment = assignmentOf
          ({ lg with heartbeats := heartbeats }.distribute args.assignments persists).members
          args.memberID) ∨
        lg.round.all (·.synced) = true ∧
          result.assignment = assignmentOf lg.members args.memberID) := by
  unfold syncGroup at reply
  split at reply
  · rw [← SyncStep.replied.inj reply] at accepted
    cases accepted
  · next generation =>
      split at reply
      · rw [← SyncStep.replied.inj reply] at accepted
        cases accepted
      · next present =>
          refine ⟨not_not.mp generation, not_not.mp present, ?_⟩
          dsimp only at reply
          split at reply
          · next leads =>
              split at reply
              · exact .inl ⟨leads, _, by rw [← SyncStep.replied.inj reply]⟩
              · cases reply
          · split at reply
            · next synced => exact .inr ⟨synced, by rw [← SyncStep.replied.inj reply]⟩
            · cases reply

theorem assignmentOf_lookup {members : Table MemberState} {id : String} {member : MemberState}
    (found : members.lookup id = some member) : assignmentOf members id = member.assignment := by
  rw [assignmentOf, found]
  rfl

theorem Traced.synced_closed
    (traced : Traced base calls lg) {i : Nat} (synced : lg.syncedAt i = true) :
    i < lg.decided ∧ ∃ results, lg.closedAt i = some results := by
  unfold syncedAt at synced
  unfold closedAt
  cases held : lg.rounds[i]? with
  | none =>
    rw [held] at synced
    cases synced
  | some round =>
    rw [held] at synced
    have listed : i < lg.past.length ∨ i = lg.past.length ∧ lg.round = some round := by
      unfold rounds at held
      rw [List.getElem?_append] at held
      split at held
      · next early => exact .inl early
      · next late =>
          cases current : lg.round with
          | none =>
            rw [current] at held
            cases held
          | some last =>
            rw [current] at held
            have here : i - lg.past.length = 0 := by
              have inside := (List.getElem?_eq_some_iff.mp held).1
              simpa using inside
            rw [here] at held
            exact .inr ⟨by omega, held⟩
    have closed : round.closed = true := by
      rcases listed with early | ⟨_, current⟩
      · refine traced.ready.past round (List.mem_of_getElem? (i := i) ?_)
        unfold rounds at held
        rwa [List.getElem?_append_left early] at held
      · exact traced.syncedClosed round current synced
    refine ⟨?_, round.results, by rw [Option.bind_some, if_pos closed]⟩
    unfold decided
    rcases listed with early | ⟨last, current⟩
    · omega
    · rw [current, Option.any_some, closed, if_pos rfl]
      omega

theorem Traced.supplied (traced : Traced base calls lg) {i : Nat} (synced : lg.syncedAt i = true)
    (last : lg.decided = i + 1) {id : String} (present : id ∈ lg.members)
    (waits : ¬ lg.Rejoined id) :
    ∃ results, lg.closedAt i = some results ∧
      Supplied calls (base + i + 1) results id (assignmentOf lg.members id) := by
  obtain ⟨_, results, closed⟩ := traced.synced_closed synced
  obtain ⟨member, found⟩ := lookup_of_mem present
  rw [assignmentOf_lookup found]
  rcases traced.distributed i results last closed with ⟨unsynced, _⟩ | supplied
  · rw [synced] at unsynced
    cases unsynced
  · exact ⟨results, closed, supplied id member found waits⟩

end LiveGroup

def Group.InTurn (group : Group) (event : Event) : Prop := group.live.InTurn event

instance (group : Group) (event : Event) : Decidable (group.InTurn event) :=
  inferInstanceAs (Decidable (group.live.InTurn event))

def syncCalls (groupID : String) (events : List Event) : List SyncGroupArgs :=
  events.filterMap fun event =>
    match event with
    | .sync args _ _ => if args.groupID = groupID then some args else none
    | _ => none

theorem mem_syncCalls {groupID : String} {events : List Event} :
    args ∈ syncCalls groupID events ↔
      args.groupID = groupID ∧ ∃ now persists, Event.sync args now persists ∈ events := by
  unfold syncCalls
  rw [List.mem_filterMap]
  constructor
  · rintro ⟨event, listed, found⟩
    split at found
    · split at found
      · next same =>
          cases found
          exact ⟨same, _, _, listed⟩
      · cases found
    · cases found
  · rintro ⟨same, now, persists, listed⟩
    exact ⟨_, listed, if_pos same⟩

structure Group.Traced (base : Int) (calls : List SyncGroupArgs) (group : Group) : Prop where
  live : LiveGroup.Traced base calls group.live
  waiting : ∀ call ∈ group.syncing,
    call.generation = base + call.round ∨ call.generation = base + call.round + 1

theorem Group.Traced.step {more : List SyncGroupArgs} {group : Group}
    (traced : Group.Traced base calls group) (event : Event) (inTurn : group.InTurn event)
    (grown : calls ⊆ more)
    (listed : ∀ args now persists, event = .sync args now persists → args ∈ more) :
    Group.Traced base more (group.step event).1 := by
  refine ⟨(group.step_change event).traced traced.live inTurn grown listed, fun call waits => ?_⟩
  rcases group.step_syncing event waits with earlier | ⟨args, now, persists, round, rfl, began, rfl⟩
  · exact traced.waiting call earlier
  · obtain ⟨generation, rfl⟩ := LiveGroup.syncGroup_waits began
    rw [← generation, traced.live.generation, LiveGroup.decided]
    split
    · exact .inr (by push_cast; ring)
    · exact .inl (by simp)

theorem groupAfter_traced {store : OffsetStore} {events : List Event} (groupID : String)
    (inTurn : EveryStep Group.InTurn store events) :
    ∃ base, Group.Traced base (syncCalls groupID events) (groupAfter store events groupID) := by
  have more : ∀ past event, syncCalls groupID past ⊆ syncCalls groupID (past ++ [event]) := by
    intro past event
    unfold syncCalls
    rw [List.filterMap_append]
    exact List.subset_append_left _ _
  refine inTurn.invariant (fun past group => ∃ base, Group.Traced base (syncCalls groupID past) group)
    ?_ ?_ ?_
  · intro persisted
    refine ⟨persisted.generation, ⟨⟨?_, ?_, ?_⟩, ?_, ?_, ?_, ?_, ?_⟩, ?_⟩
    · rintro _ ⟨⟩
    · rintro _ ⟨⟩
    · rintro _ ⟨⟩
    · change persisted.generation = persisted.generation + (0 : Nat)
      simp
    · rintro i results id result ⟨⟩
    · rintro _ ⟨⟩
    · rintro _ ⟨⟩
    · rintro i results ⟨⟩
    · rintro _ ⟨⟩
  · rintro past group event ⟨base, traced⟩
    exact ⟨base, traced.live.mono (more past event), traced.waiting⟩
  · rintro past group event same ⟨base, traced⟩ meets
    refine ⟨base, traced.step event meets (more past event) ?_⟩
    rintro args now persists rfl
    exact mem_syncCalls.mpr ⟨same, now, persists, by simp⟩

def Event.syncsFor : Event → Option (String × Int)
  | .sync args _ _ => some (args.memberID, args.generation)
  | .syncWakes _ call => some (call.memberID, call.generation)
  | _ => none

theorem Group.Traced.reply {more : List SyncGroupArgs} {group : Group}
    (traced : Group.Traced base calls group) {event : Event} (inTurn : group.InTurn event)
    (grown : calls ⊆ more)
    (listed : ∀ args now persists, event = .sync args now persists → args ∈ more)
    {result : SyncGroupResult} (reply : (group.step event).2 = some (.sync result))
    (accepted : result.errorCode = 0) :
    ∃ memberID generation results, ∃ i : Nat, event.syncsFor = some (memberID, generation) ∧
      generation = base + i + 1 ∧ group.live.closedAt i = some results ∧
      Supplied more generation results memberID result.assignment := by
  cases event with
  | sync args now persists =>
    have immediate : (group.live.syncGroup args now persists).2 = .replied result := by
      simp only [Group.step, Group.sync] at reply
      split at reply
      · next live early outcome =>
          rw [outcome, ← Reply.sync.inj (Option.some.inj reply)]
      · cases reply
      · cases reply
    obtain ⟨generation, present, branch⟩ := LiveGroup.syncGroup_accepts immediate accepted
    obtain ⟨opened, told⟩ := inTurn generation present
    rcases branch with ⟨leads, heartbeats, carried⟩ | ⟨synced, carried⟩
    · have beaten : LiveGroup.Traced base calls { group.live with heartbeats := heartbeats } :=
        traced.live.shrink rfl rfl rfl fun _ _ found => found
      obtain ⟨_, supplied⟩ := beaten.distribute args persists generation (told leads)
      obtain ⟨member, found⟩ := lookup_of_mem
        ((assign_mem group.live.members args.assignments args.memberID).mpr present)
      obtain ⟨results, closed, bytes⟩ := supplied args.memberID member found
      rw [LiveGroup.distribute_closedAt] at closed
      refine ⟨_, _, results, group.live.past.length, rfl, ?_, closed, ?_⟩
      · obtain ⟨round, current, shut, _⟩ := told leads
        rw [Option.mem_def] at current
        rw [← generation, traced.live.generation, LiveGroup.decided, current, Option.any_some,
          shut, if_pos rfl]
        push_cast
        ring
      · have own : result.assignment = member.assignment :=
          carried.trans (LiveGroup.assignmentOf_lookup found)
        rw [own]
        refine bytes.mono fun call here => ?_
        rcases List.mem_append.mp here with before | last
        · exact grown before
        · rw [List.mem_singleton.mp last]
          exact listed args now persists rfl
    · obtain ⟨round, current⟩ := Option.isSome_iff_exists.mp opened
      rw [current, Option.all_some] at synced
      have shut := traced.live.syncedClosed round current synced
      have last : group.live.decided = group.live.past.length + 1 := by
        simp [LiveGroup.decided, current, shut]
      have flagged : group.live.syncedAt group.live.past.length = true := by
        simp [LiveGroup.syncedAt, LiveGroup.rounds, current, synced]
      have waits : ¬ group.live.Rejoined args.memberID := by
        rintro ⟨other, here, isOpen, _⟩
        rw [Option.mem_def, current] at here
        cases here
        rw [shut] at isOpen
        cases isOpen
      obtain ⟨results, closed, bytes⟩ := traced.live.supplied flagged last present waits
      have number : args.generation = base + group.live.past.length + 1 := by
        rw [← generation, traced.live.generation, last]
        push_cast
        ring
      refine ⟨_, _, results, group.live.past.length, rfl, number, closed, ?_⟩
      rw [carried, number]
      exact bytes.mono grown
  | syncWakes groupID call =>
    simp only [Group.step] at reply
    split at reply
    · next wakes =>
        have answer := Reply.sync.inj (Option.some.inj reply)
        unfold LiveGroup.syncReply at answer
        split at answer
        · rw [← answer] at accepted
          cases accepted
        · next generation =>
            split at answer
            · rw [← answer] at accepted
              cases accepted
            · next present =>
                obtain ⟨earlier, _⟩ := traced.live.synced_closed wakes.2
                have number := (not_not.mp generation).symm.trans traced.live.generation
                have last : group.live.decided = call.round + 1 := by
                  rcases traced.waiting call wakes.1 with before | at' <;> omega
                obtain ⟨results, closed, bytes⟩ :=
                  traced.live.supplied wakes.2 last (not_not.mp present) inTurn
                rw [last] at number
                refine ⟨_, _, results, call.round, rfl, by rw [number]; push_cast; ring, closed, ?_⟩
                rw [number, ← answer]
                push_cast
                rw [← add_assoc]
                exact bytes.mono grown
    · cases reply
  | join args now random order =>
    simp only [Group.step, Group.join] at reply
    split at reply <;> cases reply
  | joinWakes groupID call | joinTimesOut groupID call =>
    simp only [Group.step] at reply
    split at reply <;> cases reply
  | syncTimesOut groupID call =>
    simp only [Group.step] at reply
    split at reply
    · rw [← Reply.sync.inj (Option.some.inj reply)] at accepted
      cases accepted
    · cases reply
  | heartbeat args now => cases reply
  | leave groupID memberID => cases reply
  | expire groupID round order => cases reply

/-- Every `SyncGroup` reply with code 0 in the run, given to `memberID` for `generation`, carries
the bytes that some `SyncGroup` call for that generation held for the member, and the caller is
the one that the `JoinGroup` results of the generation name as its leader. -/
def AssignedByLeader (store : OffsetStore) (events : List Event) : Prop :=
  ∀ front event back result, events = front ++ event :: back →
    replyAfter store front event = some (.sync result) → result.errorCode = 0 →
      ∃ memberID generation call, event.syncsFor = some (memberID, generation) ∧
        call ∈ syncCalls event.groupID (front ++ [event]) ∧ call.generation = generation ∧
        (call.assignments.lookup memberID).getD [] = result.assignment ∧
        (∃ i results told, (groupAfter store front event.groupID).live.closedAt i = some results ∧
          results.lookup call.memberID = some told ∧ told.generation = generation ∧
          told.isLeader = true) ∧
        ∀ i results id told, (groupAfter store front event.groupID).live.closedAt i = some results →
          results.lookup id = some told → told.generation = generation →
            told.leaderID = call.memberID

theorem replies_in_turn_come_from_leader (store : OffsetStore) (events : List Event)
    (inTurn : EveryStep Group.InTurn store events) : AssignedByLeader store events := by
  intro front event back result split reply accepted
  subst split
  have prior : EveryStep Group.InTurn store (front ++ [event]) := by
    rw [← List.singleton_append, ← List.append_assoc] at inTurn
    exact inTurn.front
  obtain ⟨base, traced⟩ := groupAfter_traced event.groupID prior.front
  have grown : syncCalls event.groupID front ⊆ syncCalls event.groupID (front ++ [event]) := by
    unfold syncCalls
    rw [List.filterMap_append]
    exact List.subset_append_left _ _
  have listed : ∀ args now persists, event = .sync args now persists →
      args ∈ syncCalls event.groupID (front ++ [event]) := by
    rintro args now persists rfl
    exact mem_syncCalls.mpr ⟨rfl, now, persists, by simp⟩
  rcases GroupCoordinator.step_entry (Machine.exec GroupCoordinator.step (newGroupCoordinator store)
    front) event with ⟨_, stepped⟩ | ⟨_, refused⟩
  · obtain ⟨memberID, generation, results, i, asked, number, closed, call, made, current,
      ⟨told, own, leads⟩, bytes⟩ :=
      traced.reply prior.next grown listed (stepped.symm.trans reply) accepted
    refine ⟨memberID, generation, call, asked, made, current, bytes,
      ⟨i, results, told, closed, own, ?_, leads⟩, ?_⟩
    · rw [number]
      exact traced.live.numbered i results _ told closed own
    · intro other held id named shut found same
      have numbered := traced.live.numbered other held id named shut found
      obtain rfl : other = i := by omega
      rw [closed] at shut
      cases shut
      obtain ⟨_, _, _, _, _, _, settled⟩ :=
        closed_round_settled store front event.groupID other results closed
      have inhabited := List.ne_nil_of_mem ((settled.answered id).mp (mem_of_lookup found))
      obtain ⟨leader, _, names⟩ := settled.leader inhabited
      rw [(names id named found).1, ← (names call.memberID told own).2.mp leads]
  · rw [replyAfter] at reply
    rcases refused with absent | invalid | invalid | invalid
    · rw [absent] at reply
      cases reply
    · rw [invalid] at reply
      cases reply
    · rw [invalid] at reply
      rw [← Reply.sync.inj (Option.some.inj reply)] at accepted
      cases accepted
    · rw [invalid] at reply
      cases reply

def generationOne : List Event :=
  [.join { groupID := "g", memberID := "a", clientID := "one" } 0 [] [],
    .join { groupID := "g", memberID := "b", clientID := "two" } 0 [] [],
    .expire "g" 0 []]

def leaderShares : SyncGroupArgs :=
  { groupID := "g", generation := 1, memberID := "a"
    assignments := (AList.singleton "b" [2]).insert "a" [1] }

def followerAsks : SyncGroupArgs := { groupID := "g", generation := 1, memberID := "b" }

theorem follower_gets_leaders_bytes :
    EveryStep Group.InTurn ⟨∅⟩
        (generationOne ++ [.sync leaderShares 0 true, .sync followerAsks 0 true]) ∧
      replyAfter ⟨∅⟩ (generationOne ++ [.sync leaderShares 0 true]) (.sync followerAsks 0 true) =
        some (.sync { assignment := [2] }) ∧
      AssignedByLeader ⟨∅⟩
        (generationOne ++ [.sync leaderShares 0 true, .sync followerAsks 0 true]) := by
  have inTurn : EveryStep Group.InTurn ⟨∅⟩
      (generationOne ++ [.sync leaderShares 0 true, .sync followerAsks 0 true]) := by
    decide +kernel
  exact ⟨inTurn, by decide +kernel, replies_in_turn_come_from_leader ⟨∅⟩ _ inTurn⟩

/-- When `a` leaves, `b` inherits the lead in the middle of the generation, and its own request is
taken for the leader's: it is answered although `a` never supplied anything. -/
theorem heir_assigns_itself :
    ¬ AssignedByLeader ⟨∅⟩ (generationOne ++ [.leave "g" "a", .sync followerAsks 0 true]) := by
  intro assigned
  have reply : replyAfter ⟨∅⟩ (generationOne ++ [.leave "g" "a"]) (.sync followerAsks 0 true) =
      some (.sync {}) := by
    decide +kernel
  obtain ⟨memberID, generation, call, asked, made, _, _, _, unique⟩ :=
    assigned (generationOne ++ [.leave "g" "a"]) (.sync followerAsks 0 true) [] {} rfl reply rfl
  have named : ∃ results ∈ (groupAfter ⟨∅⟩ (generationOne ++ [.leave "g" "a"])
      "g").live.closedAt 0, ∃ told ∈ results.lookup "a",
        told.generation = 1 ∧ told.leaderID = "a" := by
    decide +kernel
  obtain ⟨results, closed, told, found, first, leader⟩ := named
  have current : generation = 1 := (congrArg Prod.snd (Option.some.inj asked)).symm
  have leads := unique 0 results "a" told closed found (first.trans current.symm)
  have only : syncCalls "g" (generationOne ++ [.leave "g" "a"] ++ [.sync followerAsks 0 true]) =
      [followerAsks] := rfl
  have caller : call = followerAsks := by
    change call ∈ syncCalls "g" _ at made
    rw [only] at made
    exact List.mem_singleton.mp made
  rw [leader, caller] at leads
  exact absurd leads (by decide)

end KafkaWire.Broker
