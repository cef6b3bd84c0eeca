import KafkaWire.Broker.Assignments
import KafkaWire.Broker.Seats

/-! The requests that wait in a group: whether a member that waits for its round is in the
generation that the round decides, and whether a follower that waits for its leader is woken when
its generation is settled. -/

namespace KafkaWire.Broker

open LiveGroup (Change)

variable {groupID : String} {i : Nat}

namespace LiveGroup

def Enlisted (lg : LiveGroup) (call : JoinCall) : Prop :=
  ∃ round, lg.round = some round ∧ round.closed = false ∧ call.round = lg.past.length ∧
    call.memberID ∈ round.joined ∧ call.memberID ∈ lg.members

def Answered (lg : LiveGroup) (call : JoinCall) : Prop :=
  ∃ members results, lg.closedAt call.round = some results ∧ Settled members results ∧
    call.memberID ∈ members

def Spares (lg : LiveGroup) (memberID : String) : Event → Prop
  | .join args now _ _ => lg.Spared args now memberID
  | .leave _ leaver => leaver ≠ memberID
  | _ => True

instance (lg : LiveGroup) (memberID : String) (event : Event) : Decidable (lg.Spares memberID event) :=
  match event with
  | .join args now _ _ => inferInstanceAs (Decidable (lg.Spared args now memberID))
  | .leave _ leaver => inferInstanceAs (Decidable (leaver ≠ memberID))
  | .joinWakes .. | .joinTimesOut .. | .sync .. | .syncWakes .. | .syncTimesOut .. | .heartbeat ..
  | .expire .. => isTrue trivial

section Joining

variable {lg lg' : LiveGroup} {call : JoinCall} {args : JoinGroupArgs} {now : Int}

theorem Enlisted.shrunk (enlisted : lg.Enlisted call) (shrunk : Shrunk lg lg')
    (same : lg'.members.lookup call.memberID = lg.members.lookup call.memberID) :
    lg'.Enlisted call := by
  obtain ⟨round, current, isOpen, last, joined, present⟩ := enlisted
  have stays : call.memberID ∈ lg'.members := by
    rw [← AList.lookup_isSome, same, AList.lookup_isSome]
    exact present
  obtain ⟨_, _, _, rfl⟩ := shrunk.rest
  exact ⟨round, current, isOpen, last, joined, stays⟩

theorem Enlisted.entered (enlisted : lg.Enlisted call) (spared : lg.Spared args now call.memberID)
    (random : Bytes) : (lg.entered args now random).Enlisted call := by
  obtain ⟨round, current, isOpen, last, joined, present⟩ :=
    enlisted.shrunk (sweep_shrunk lg args now) spared.sweep_lookup
  have inFlight : (lg.sweep args now).roundOpen = true :=
    (roundOpen_iff _).mpr ⟨round, current, isOpen⟩
  rw [LiveGroup.entered, openRound, if_pos inFlight]
  refine ⟨{ round with joined := round.joined.insert (joinID args random) }, ?_, isOpen, last,
    List.mem_insert_of_mem joined, (AList.mem_insert _).mpr (.inr present)⟩
  simp only [register, setMembers, current, Option.map_some]

theorem Enlisted.closeRound (enlisted : lg.Enlisted call) (ready : lg.Ready) (order : List String)
    {round : RebalanceRound} (current : lg.round = some round) (isOpen : round.closed = false) :
    (lg.closeRound order round).Answered call := by
  obtain ⟨round', current', _, last, joined, present⟩ := enlisted
  obtain rfl := Option.some.inj (current.symm.trans current')
  refine ⟨(lg.settle order round).members.keys, _, ?_, settle_settled order lg round
    (ready.unanswered round current isOpen) (ready.named round current isOpen), ?_⟩
  · rw [closeRound_closedAt order lg round isOpen, if_pos last]
  · rw [← AList.mem_keys, ← AList.lookup_isSome, settle_lookup, if_pos joined, AList.lookup_isSome]
    exact present

theorem entered_enlisted (lg : LiveGroup) (args : JoinGroupArgs) (now : Int) (random : Bytes) :
    (lg.entered args now random).Enlisted
      ⟨(lg.entered args now random).past.length, joinID args random⟩ := by
  obtain ⟨round, current, isOpen⟩ := entered_round lg args now random
  refine ⟨round, current, isOpen, rfl, ?_, (AList.mem_insert _).mpr (.inl rfl)⟩
  obtain ⟨before, _, rfl⟩ := Option.map_eq_some_iff.mp current
  exact List.mem_insert_self

theorem join_enlisted {random : Bytes} {order : List String} (ready : lg.Ready)
    (waits : (lg.joinGroup args now random order).2 = .waits call.round call.memberID) :
    (lg.joinGroup args now random order).1.Enlisted call ∨
      (lg.joinGroup args now random order).1.Answered call := by
  by_cases anonymous : args.memberID = "" ∧ 4 ≤ args.apiVersion
  · rw [joinGroup, if_pos anonymous] at waits
    cases waits
  · have call_eq : call = ⟨(lg.joinGroup args now random order).1.past.length, joinID args random⟩ := by
      rw [joinGroup, if_neg anonymous] at waits ⊢
      obtain ⟨round, memberID⟩ := call
      cases waits
      rfl
    have enlisted := entered_enlisted lg args now random
    rcases lg.joinGroup_cases args now random order with
      ⟨sent, _⟩ | ⟨_, same | ⟨round, current, isOpen, same⟩⟩
    · exact absurd sent anonymous
    · rw [same] at call_eq ⊢
      exact .inl (call_eq ▸ enlisted)
    · have past : ((lg.entered args now random).closeRound order round).past =
          (lg.entered args now random).past := by
        rw [closeRound_open order _ round isOpen]
        exact (settle_fields order _ round).2.2
      rw [same, past] at call_eq
      rw [same, call_eq]
      exact .inr (enlisted.closeRound (entered_ready lg args now random ready) order current isOpen)

theorem Change.enlisted {event : Event} (change : Change lg event lg') (ready : lg.Ready)
    (enlisted : lg.Enlisted call) (spares : lg.Spares call.memberID event) :
    lg'.Enlisted call ∨ lg'.Answered call := by
  cases change with
  | beat => exact .inl enlisted
  | swept args now => exact .inl (enlisted.shrunk (sweep_shrunk lg args now) spares.sweep_lookup)
  | entered args now random => exact .inl (enlisted.entered spares random)
  | completed args now random order round _ current isOpen =>
    exact .inr ((enlisted.entered spares random).closeRound (entered_ready lg args now random ready)
      order current isOpen)
  | distributed args now persists heartbeats =>
    obtain ⟨round, current, isOpen, last, joined, present⟩ := enlisted
    have stays := (assign_mem lg.members args.assignments _).mpr present
    cases persists with
    | false => exact .inl ⟨round, current, isOpen, last, joined, stays⟩
    | true =>
      exact .inl ⟨{ round with synced := true }, by
        simp only [distribute, setMembers, current, if_true, Option.map_some], isOpen, last,
        joined, stays⟩
  | left groupID memberID present =>
    obtain ⟨round, current, isOpen, last, joined, here⟩ := enlisted
    rw [leaveGroup, if_neg (not_not.mpr present)]
    exact .inl ⟨round, current, isOpen, last, joined, AList.mem_erase.mpr ⟨Ne.symm spares, here⟩⟩
  | expired groupID order round current isOpen =>
    exact .inr (enlisted.closeRound ready order current isOpen)

theorem Change.answered {event : Event} (change : Change lg event lg') (ready : lg.Ready)
    (answered : lg.Answered call) : lg'.Answered call := by
  obtain ⟨members, results, closed, settled, present⟩ := answered
  rcases (change.settles ready).2 call.round with same | ⟨absent, _⟩
  · exact ⟨members, results, same.trans closed, settled, present⟩
  · rw [closed] at absent
    cases absent

end Joining

end LiveGroup

theorem Group.step_joining (group : Group) (event : Event) {call : JoinCall}
    (waits : call ∈ (group.step event).1.joining) :
    call ∈ group.joining ∨ ∃ args now random order, event = .join args now random order ∧
      (group.live.joinGroup args now random order).2 = .waits call.round call.memberID := by
  cases event with
  | join args now random order =>
    simp only [step, join] at waits
    split at waits
    · exact .inl waits
    · next live round memberID outcome =>
        rcases List.mem_cons.mp waits with rfl | earlier
        · exact .inr ⟨args, now, random, order, rfl, by rw [outcome]⟩
        · exact .inl earlier
  | sync args now persists =>
    simp only [step, sync] at waits
    split at waits <;> exact .inl waits
  | joinWakes | joinTimesOut =>
    simp only [step] at waits
    split at waits
    · exact .inl (List.mem_of_mem_erase waits)
    · exact .inl waits
  | syncWakes | syncTimesOut =>
    simp only [step] at waits
    split at waits <;> exact .inl waits
  | _ => exact .inl waits

def SparesCall (groupID : String) (call : JoinCall) (group : Group) (event : Event) : Prop :=
  event.groupID = groupID → call ∈ group.joining → (group.live.closedAt call.round).isNone →
    group.live.Spares call.memberID event

instance (groupID : String) (call : JoinCall) (group : Group) (event : Event) :
    Decidable (SparesCall groupID call group event) :=
  inferInstanceAs (Decidable (event.groupID = groupID → call ∈ group.joining →
    (group.live.closedAt call.round).isNone → group.live.Spares call.memberID event))

theorem call_enlisted {store : OffsetStore} {events : List Event} {call : JoinCall}
    (spared : EveryStep (SparesCall groupID call) store events) :
    call ∈ (groupAfter store events groupID).joining →
      (groupAfter store events groupID).live.Enlisted call ∨
        (groupAfter store events groupID).live.Answered call := by
  refine (spared.invariant (fun _ group => group.live.Ready ∧ (call ∈ group.joining →
    group.live.Enlisted call ∨ group.live.Answered call)) ?_ (fun _ _ _ kept => kept) ?_).2
  · exact fun persisted => ⟨⟨nofun, nofun, nofun⟩, nofun⟩
  · intro _ group event same kept meets
    refine ⟨((group.step_change event).settles kept.1).1, fun waits => ?_⟩
    rcases group.step_joining event waits with earlier | ⟨args, now, random, order, rfl, came⟩
    · rcases kept.2 earlier with enlisted | answered
      · have ⟨round, current, isOpen, last, _⟩ := enlisted
        have undecided : (group.live.closedAt call.round).isNone := by
          rw [last, LiveGroup.closedAt_open _ round current isOpen]
          rfl
        exact (group.step_change event).enlisted kept.1 enlisted (meets same earlier undecided)
      · exact .inr ((group.step_change event).answered kept.1 answered)
    · have found := LiveGroup.join_enlisted kept.1 came
      simp only [Group.step, Group.join]
      split <;> next outcome => rwa [outcome] at found

theorem joinWakes_reply {g : GroupCoordinator} {call : JoinCall}
    {results : Table JoinGroupResult} {result : JoinGroupResult}
    (waits : call ∈ (g.entry groupID).joining)
    (closed : (g.entry groupID).live.closedAt call.round = some results)
    (found : results.lookup call.memberID = some result) :
    g.reply (.joinWakes groupID call) = some (.join result) := by
  obtain ⟨round, held, isClosed⟩ := Option.bind_eq_some_iff.mp closed
  split at isClosed
  · next decided =>
      obtain rfl := Option.some.inj isClosed
      cases known : g.live.lookup groupID with
      | none =>
        rw [GroupCoordinator.entry, known] at waits
        cases waits
      | some group =>
        have entry : g.entry groupID = group := by rw [GroupCoordinator.entry, known, Option.getD_some]
        rw [entry] at waits held
        have reply : group.joinReply call = result := by
          simp only [Group.joinReply, held, found, Option.getD_some]
        have wakes : call ∈ group.joining ∧ (group.live.rounds[call.round]?).any (·.closed) :=
          ⟨waits, by rw [held]; exact decided⟩
        simp only [GroupCoordinator.reply, Event.groupID, known, stepEntry, Group.step, if_pos wakes,
          reply]
  · cases isClosed

/-- A member that waits, and that no sweep takes until its round is closed, is in the generation
that the round decides and hears of it. -/
theorem blocked_member_answered (store : OffsetStore) (events : List Event) (groupID : String)
    (call : JoinCall) (spared : EveryStep (SparesCall groupID call) store events)
    (waits : call ∈ (groupAfter store events groupID).joining)
    (results : Table JoinGroupResult)
    (closed : (groupAfter store events groupID).live.closedAt call.round = some results) :
    ∃ members result, Settled members results ∧ call.memberID ∈ members ∧
      results.lookup call.memberID = some result ∧ result.errorCode = 0 ∧
      replyAfter store events (.joinWakes groupID call) = some (.join result) := by
  rcases call_enlisted spared waits with ⟨round, current, isOpen, last, _⟩ |
    ⟨members, results', closed', settled, present⟩
  · rw [last, LiveGroup.closedAt_open _ round current isOpen] at closed
    cases closed
  · obtain rfl := Option.some.inj (closed.symm.trans closed')
    obtain ⟨result, found⟩ := lookup_of_mem ((settled.answered call.memberID).mpr present)
    exact ⟨members, result, settled, present, found, (settled.own _ _ found).2,
      joinWakes_reply waits closed found⟩

def lateSecond (sessionTimeoutMS : Int) : List Event :=
  [.join { groupID := "g", memberID := "a", clientID := "one", sessionTimeoutMS } 0 [] [],
    .join { groupID := "g", memberID := "b", clientID := "two" } (2 * second) [] [],
    .expire "g" 0 []]

theorem blocked_member_hears :
    ∃ result, result.errorCode = 0 ∧
      replyAfter ⟨∅⟩ (lateSecond 10000) (.joinWakes "g" ⟨0, "a"⟩) = some (.join result) := by
  have isSome : ((groupAfter ⟨∅⟩ (lateSecond 10000) "g").live.closedAt 0).isSome := by decide +kernel
  obtain ⟨results, closed⟩ := Option.isSome_iff_exists.mp isSome
  obtain ⟨_, result, _, _, _, accepted, reply⟩ := blocked_member_answered ⟨∅⟩ (lateSecond 10000) "g"
    ⟨0, "a"⟩ (by decide +kernel) (by decide +kernel) results closed
  exact ⟨result, accepted, reply⟩

/-- `b` sweeps `a` out while `a` waits. -/
theorem blocked_member_evicted :
    ⟨0, "a"⟩ ∈ (groupAfter ⟨∅⟩ (lateSecond 1000) "g").joining ∧
      (groupAfter ⟨∅⟩ (lateSecond 1000) "g").live.members.keys = ["b"] ∧
      replyAfter ⟨∅⟩ (lateSecond 1000) (.joinWakes "g" ⟨0, "a"⟩) =
        some (.join { groupID := "g", memberID := "a", errorCode := rebalanceInProgress }) := by
  decide +kernel

namespace LiveGroup

theorem syncedAt_iff (lg : LiveGroup) (i : Nat) :
    lg.syncedAt i = true ↔ (lg.past[i]?).any (·.synced) = true ∨
      i = lg.past.length ∧ lg.round.any (·.synced) = true := by
  rw [syncedAt, rounds, List.getElem?_append]
  split
  · next early => simp [Nat.ne_of_lt early]
  · next late =>
      rw [List.getElem?_eq_none (Nat.le_of_not_lt late)]
      by_cases same : i = lg.past.length
      · subst same
        cases lg.round <;> simp
      · cases lg.round <;> simp [same, show i - lg.past.length ≠ 0 by omega]

theorem syncedAt_mono {lg lg' : LiveGroup} (synced : lg.syncedAt i = true)
    (past : lg'.past = lg.past)
    (kept : lg.round.any (·.synced) = true → lg'.round.any (·.synced) = true) :
    lg'.syncedAt i = true := by
  rw [syncedAt_iff, past]
  exact ((syncedAt_iff lg i).mp synced).imp_right (And.imp_right kept)

theorem entered_syncedAt {lg : LiveGroup} (args : JoinGroupArgs) (now : Int) (random : Bytes)
    (synced : lg.syncedAt i = true) : (lg.entered args now random).syncedAt i = true := by
  have swept : (lg.sweep args now).syncedAt i = true := by
    obtain ⟨_, _, _, same⟩ := (sweep_shrunk lg args now).rest
    rw [same]
    exact synced
  have opened : ((lg.sweep args now).openRound args now).syncedAt i = true := by
    rw [openRound]
    split
    · exact swept
    · refine (syncedAt_iff _ i).mpr (.inl ?_)
      exact swept
  refine syncedAt_mono opened rfl fun kept => ?_
  show (Option.map _ ((lg.sweep args now).openRound args now).round).any _ = true
  rw [Option.any_map]
  exact kept

theorem closeRound_syncedAt {lg : LiveGroup} (order : List String) {round : RebalanceRound}
    (current : lg.round = some round) (isOpen : round.closed = false)
    (synced : lg.syncedAt i = true) : (lg.closeRound order round).syncedAt i = true := by
  rw [closeRound_open order lg round isOpen]
  refine syncedAt_mono synced (settle_fields order lg round).2.2 fun kept => ?_
  rw [current] at kept
  exact kept

theorem Change.syncedAt {lg lg' : LiveGroup} {event : Event} (change : Change lg event lg')
    (synced : lg.syncedAt i = true) : lg'.syncedAt i = true := by
  cases change with
  | beat => exact synced
  | swept args now =>
    obtain ⟨_, _, _, same⟩ := (sweep_shrunk lg args now).rest
    rw [same]
    exact synced
  | entered args now random => exact entered_syncedAt args now random synced
  | completed args now random order round _ current isOpen =>
    exact closeRound_syncedAt order current isOpen (entered_syncedAt args now random synced)
  | distributed args now persists heartbeats =>
    refine syncedAt_mono synced rfl fun kept => ?_
    cases persists with
    | false => exact kept
    | true => cases here : lg.round <;> simp [distribute, setMembers, here] at kept ⊢
  | left groupID memberID present =>
    obtain ⟨past, round, _⟩ := leaveGroup_rest lg memberID
    exact syncedAt_mono synced past fun kept => by rw [round]; exact kept
  | expired groupID order round current isOpen => exact closeRound_syncedAt order current isOpen synced

def Attends (lg : LiveGroup) (call : SyncCall) : Prop :=
  call.generation = lg.persisted.generation ∧ call.round = lg.past.length ∧
    ∃ round, lg.round = some round ∧ round.closed = true ∧ round.synced = false

end LiveGroup

/-- No round is opened while a follower waits, no follower comes while a round is open, and the
leader's assignments can be written. -/
def Group.Undisturbed (group : Group) : Event → Prop
  | .join args _ _ _ => (args.memberID = "" ∧ 4 ≤ args.apiVersion) ∨
      ∀ call ∈ group.syncing, group.live.syncedAt call.round = true
  | .sync args _ persists =>
    if args.memberID = group.live.leader then persists = true
    else group.live.roundOpen = true → group.live.round.all (·.synced) = true
  | _ => True

instance (group : Group) (event : Event) : Decidable (group.Undisturbed event) :=
  match event with
  | .join args _ _ _ => inferInstanceAs (Decidable ((args.memberID = "" ∧ 4 ≤ args.apiVersion) ∨
      ∀ call ∈ group.syncing, group.live.syncedAt call.round = true))
  | .sync args _ persists => inferInstanceAs (Decidable (
      if args.memberID = group.live.leader then persists = true
      else group.live.roundOpen = true → group.live.round.all (·.synced) = true))
  | .joinWakes .. | .joinTimesOut .. | .syncWakes .. | .syncTimesOut .. | .heartbeat ..
  | .leave .. | .expire .. => isTrue trivial

def Group.Distributes (group : Group) (generation : Int) (event : Event) : Prop :=
  ∃ args now persists, event = .sync args now persists ∧ args.generation = generation ∧
    group.live.persisted.generation = generation ∧ args.memberID ∈ group.live.members ∧
    args.memberID = group.live.leader

section Following

variable {group : Group} {event : Event} {call : SyncCall}

theorem attends_step (attends : group.live.Attends call) (waits : call ∈ group.syncing)
    (undisturbed : group.Undisturbed event) :
    (group.step event).1.live.syncedAt call.round = true ∨ (group.step event).1.live.Attends call := by
  obtain ⟨generation, last, round, current, isClosed, unsynced⟩ := attends
  have asleep : group.live.syncedAt call.round ≠ true := by
    rw [Ne, LiveGroup.syncedAt_iff, last, List.getElem?_eq_none (Nat.le_refl _), current]
    simp [unsynced]
  have change := group.step_change event
  generalize (group.step event).1.live = lg' at change ⊢
  cases change with
  | beat => exact .inr ⟨generation, last, round, current, isClosed, unsynced⟩
  | swept args now =>
    obtain ⟨_, _, _, same⟩ := (LiveGroup.sweep_shrunk group.live args now).rest
    rw [same]
    exact .inr ⟨generation, last, round, current, isClosed, unsynced⟩
  | entered args now random order admitted =>
    exact absurd (undisturbed.resolve_left admitted call waits) asleep
  | completed args now random order _ admitted =>
    exact absurd (undisturbed.resolve_left admitted call waits) asleep
  | distributed args now persists heartbeats _ _ leads =>
    have written : persists = true := by simpa only [Group.Undisturbed, if_pos leads] using undisturbed
    subst written
    refine .inl ((LiveGroup.syncedAt_iff _ _).mpr (.inr ⟨last, ?_⟩))
    show (Option.map _ group.live.round).any _ = true
    rw [current]
    rfl
  | left groupID memberID present =>
    obtain ⟨past, same, _⟩ := LiveGroup.leaveGroup_rest group.live memberID
    have generation' := (LiveGroup.leaveGroup_facts group.live memberID present).1
    exact .inr ⟨generation.trans generation'.symm, last.trans (by rw [past]), round,
      same.trans current, isClosed, unsynced⟩
  | expired groupID order other current' isOpen =>
    obtain rfl := Option.some.inj (current.symm.trans current')
    rw [isClosed] at isOpen
    cases isOpen

theorem sync_attends {args : SyncGroupArgs} {now : Int} {persists : Bool} {round : Nat}
    (undisturbed : group.Undisturbed (.sync args now persists))
    (waits : (group.live.syncGroup args now persists).2 = .waits round) :
    (group.live.syncGroup args now persists).1.Attends ⟨round, args.memberID, args.generation⟩ := by
  rw [LiveGroup.syncGroup] at waits ⊢
  split at waits
  · cases waits
  · next generation =>
      rw [if_neg generation]
      split at waits
      · cases waits
      · next present =>
          rw [if_neg present]
          dsimp only at waits ⊢
          split at waits
          · split at waits <;> cases waits
          · next follows =>
              rw [if_neg follows]
              split at waits
              · cases waits
              · next unsynced =>
                  rw [if_neg unsynced]
                  rw [Group.Undisturbed, if_neg follows] at undisturbed
                  cases waits
                  refine ⟨(not_not.mp generation).symm, rfl, ?_⟩
                  cases current : group.live.round with
                  | none => simp [current] at unsynced
                  | some round =>
                    refine ⟨round, rfl, ?_, by simpa [current] using unsynced⟩
                    by_contra isOpen
                    refine unsynced (undisturbed ?_)
                    exact (LiveGroup.roundOpen_iff _).mpr
                      ⟨round, current, Bool.eq_false_iff.mpr isOpen⟩

def Group.Attended (group : Group) : Prop :=
  ∀ call ∈ group.syncing, group.live.syncedAt call.round = true ∨ group.live.Attends call

theorem Group.Attended.step (attended : group.Attended) (undisturbed : group.Undisturbed event) :
    (group.step event).1.Attended := by
  intro call waits
  rcases group.step_syncing event waits with earlier | ⟨args, now, persists, round, rfl, began, rfl⟩
  · rcases attended call earlier with woken | attends
    · exact .inl ((group.step_change event).syncedAt woken)
    · exact attends_step attends earlier undisturbed
  · have found := sync_attends undisturbed began
    simp only [Group.step, Group.sync]
    split <;> next outcome => exact .inr (by rwa [outcome] at found)

theorem Group.Distributes.synced {generation : Int} (distributes : group.Distributes generation event)
    (undisturbed : group.Undisturbed event) {round : RebalanceRound}
    (current : (group.step event).1.live.round = some round) : round.synced = true := by
  obtain ⟨args, now, persists, rfl, same, same', present, leads⟩ := distributes
  have written : persists = true := by simpa only [Group.Undisturbed, if_pos leads] using undisturbed
  subst written
  have live : (group.step (.sync args now true)).1.live =
      (group.live.syncGroup args now true).1 := by
    simp only [Group.step, Group.sync]
    split <;> next outcome => rw [outcome]
  rw [live, LiveGroup.syncGroup, if_neg (not_not.mpr (same'.trans same.symm)),
    if_neg (not_not.mpr present)] at current
  dsimp only at current
  rw [if_pos leads] at current
  obtain ⟨before, _, rfl⟩ := Option.map_eq_some_iff.mp current
  rfl

theorem sync_step {g : GroupCoordinator} {args : SyncGroupArgs} {now : Int} {persists : Bool}
    (waits : call ∈ (g.entry args.groupID).syncing) :
    (g.step (.sync args now persists)).entry args.groupID =
      ((g.entry args.groupID).step (.sync args now persists)).1 := by
  cases known : g.live.lookup args.groupID with
  | none =>
    rw [GroupCoordinator.entry, known] at waits
    cases waits
  | some group =>
    simp only [GroupCoordinator.entry, GroupCoordinator.step, GroupCoordinator.set, Event.groupID,
      known, stepEntry, AList.lookup_insert, Option.getD_some]

end Following

theorem syncedAt_stays {store : OffsetStore} {front : List Event}
    (synced : (groupAfter store front groupID).live.syncedAt i = true) (back : List Event) :
    (groupAfter store (front ++ back) groupID).live.syncedAt i = true := by
  induction back using List.reverseRecOn with
  | nil => rwa [List.append_nil]
  | append_singleton back event ih =>
    rw [← List.append_assoc]
    rcases groupAfter_concat store (front ++ back) event groupID with same | ⟨_, same⟩
    · rw [same, ih]
    · rw [same]
      exact (Group.step_change _ event).syncedAt ih

/-- Where nothing disturbs the followers that wait, the event that settles the generation of one
wakes it, for good. -/
theorem followers_released (store : OffsetStore) (events : List Event) (event : Event)
    (groupID : String) (call : SyncCall)
    (undisturbed : EveryStep Group.Undisturbed store (events ++ [event]))
    (waits : call ∈ (groupAfter store (events ++ [event]) groupID).syncing)
    (settled : (groupAfter store (events ++ [event]) groupID).live.persisted.generation ≠
        call.generation ∨
      event.groupID = groupID ∧ (groupAfter store events groupID).Distributes call.generation event)
    (back : List Event) :
    (groupAfter store (events ++ event :: back) groupID).live.syncedAt call.round = true := by
  have attended : (groupAfter store (events ++ [event]) groupID).Attended :=
    undisturbed.invariant (fun _ group => group.Attended) (fun _ => nofun) (fun _ _ _ kept => kept)
      (fun _ _ _ _ kept meets => kept.step meets)
  suffices woken : (groupAfter store (events ++ [event]) groupID).live.syncedAt call.round = true by
    rw [← List.singleton_append, ← List.append_assoc]
    exact syncedAt_stays woken back
  rcases attended call waits with woken | ⟨generation, _, round, current, _, unsynced⟩
  · exact woken
  · rcases settled with moved | ⟨rfl, distributes⟩
    · exact absurd generation.symm moved
    · have stepped : groupAfter store (events ++ [event]) event.groupID =
          ((groupAfter store events event.groupID).step event).1 := by
        rcases groupAfter_concat store events event event.groupID with same | ⟨_, same⟩
        · obtain ⟨args, now, persists, rfl, _⟩ := distributes
          rw [same] at waits
          rw [groupAfter, Machine.exec_concat]
          exact sync_step waits
        · exact same
      rw [stepped] at current
      rw [distributes.synced undisturbed.next current] at unsynced
      cases unsynced

def followerWaits : List Event :=
  twoMembers.take 3 ++ [.sync { groupID := "g", generation := 1, memberID := "b" } (4 * second) true]

def leaderSyncs : Event :=
  .sync { groupID := "g", generation := 1, memberID := "a" } (6 * second) true

theorem follower_woken :
    ⟨0, "b", 1⟩ ∈ (groupAfter ⟨∅⟩ (followerWaits ++ [leaderSyncs]) "g").syncing ∧
      (groupAfter ⟨∅⟩ (followerWaits ++ [leaderSyncs]) "g").live.syncedAt 0 = true := by
  have waits : ⟨0, "b", 1⟩ ∈ (groupAfter ⟨∅⟩ (followerWaits ++ [leaderSyncs]) "g").syncing := by
    decide +kernel
  refine ⟨waits, followers_released ⟨∅⟩ followerWaits leaderSyncs "g" ⟨0, "b", 1⟩ (by decide +kernel)
    waits (.inr ⟨rfl, _, _, _, rfl, rfl, ?_, ?_, ?_⟩) []⟩ <;> decide +kernel

/-- A third member opens a round before the leader hands out the assignments. The leader closes
the channel of that round, and `b` waits on the one before. -/
theorem follower_left_waiting :
    let opened := followerWaits ++ [.heartbeat ⟨"g", "a", 1⟩ (4 * second),
      .join { groupID := "g", memberID := "c", clientID := "three" } (5 * second) [] []]
    let group := groupAfter ⟨∅⟩ (opened ++ [leaderSyncs]) "g"
    (groupAfter ⟨∅⟩ opened "g").Distributes 1 leaderSyncs ∧
      ⟨0, "b", 1⟩ ∈ group.syncing ∧ group.live.syncedAt 0 = false := by
  intro opened group
  refine ⟨⟨_, _, _, rfl, rfl, ?_, ?_, ?_⟩, ?_, ?_⟩ <;> decide +kernel

end KafkaWire.Broker
