import KafkaWire.Broker.Agreement
import KafkaWire.Broker.Heartbeats

/-! Whether the leader, the heartbeats and the state of a group fit its members. A sweep can take
the leader out of a group that has decided its generation, and a round can close on nobody. -/

namespace KafkaWire.Broker

open LiveGroup (Change)

namespace LiveGroup

def Spared (lg : LiveGroup) (args : JoinGroupArgs) (now : Int) (id : String) : Prop :=
  ∀ member ∈ lg.members.lookup id, lg.expired now id member = false ∧
    (args.memberID ≠ "" ∨ args.clientID = "" ∨ member.clientID ≠ args.clientID)

instance (lg : LiveGroup) (args : JoinGroupArgs) (now : Int) (id : String) :
    Decidable (lg.Spared args now id) :=
  inferInstanceAs (Decidable (∀ member ∈ lg.members.lookup id, _))

structure Peopled (lg : LiveGroup) : Prop where
  leader : lg.leader = "" ∨ lg.leader ∈ lg.members
  heartbeats : ∀ id ∈ lg.heartbeats, id ∈ lg.members

def Decided (lg : LiveGroup) : Prop := lg.state = .completingRebalance ∨ lg.state = .stable

instance (lg : LiveGroup) : Decidable lg.Decided := inferInstanceAs (Decidable (_ ∨ _))

def Seated (lg : LiveGroup) : Prop :=
  lg.Decided → lg.members.keys ≠ [] ∧ lg.leader ∈ lg.members

/-- A group that has decided a generation keeps its leader through the sweep of a request that
opens no round, and a round that expires has somebody to decide for. -/
def KeepsLeader (lg : LiveGroup) : Event → Prop
  | .join args now _ _ =>
    lg.Decided → (args.memberID = "" ∧ 4 ≤ args.apiVersion) ∨ lg.roundOpen = true →
      lg.Spared args now lg.leader
  | .expire _ round _ =>
    ∀ current ∈ lg.round, round = lg.past.length → current.closed = false →
      ∃ id ∈ current.joined, id ∈ lg.members
  | _ => True

instance (lg : LiveGroup) (event : Event) : Decidable (lg.KeepsLeader event) :=
  match event with
  | .join args now _ _ => inferInstanceAs (Decidable (lg.Decided →
      (args.memberID = "" ∧ 4 ≤ args.apiVersion) ∨ lg.roundOpen = true → lg.Spared args now lg.leader))
  | .expire _ round _ => inferInstanceAs (Decidable (∀ current ∈ lg.round, round = lg.past.length →
      current.closed = false → ∃ id ∈ current.joined, id ∈ lg.members))
  | .joinWakes .. | .joinTimesOut .. | .sync .. | .syncWakes .. | .syncTimesOut .. | .heartbeat ..
  | .leave .. => isTrue trivial

section Sweep

variable {lg : LiveGroup} {args : JoinGroupArgs} {now : Int} {id : String}

theorem Spared.sweep_lookup (spared : lg.Spared args now id) :
    (lg.sweep args now).members.lookup id = lg.members.lookup id := by
  have evicted : (lg.evictExpired now).members.lookup id = lg.members.lookup id := by
    rw [evictExpired, dropWhere_lookup]
    cases found : lg.members.lookup id with
    | none => rfl
    | some member => rw [Option.filter_some, (spared member found).1, Bool.not_false, if_pos rfl]
  rw [sweep]
  split
  · next anonymous =>
      rw [replaceClient]
      split
      · next named =>
          rw [dropWhere_lookup, evicted]
          cases found : lg.members.lookup id with
          | none => rfl
          | some member =>
            have other := ((spared member found).2.resolve_left (not_not.mpr anonymous)).resolve_left
              named
            rw [Option.filter_some, beq_false_of_ne other, Bool.not_false, if_pos rfl]
      · exact evicted
  · exact evicted

theorem Spared.sweep_leader (spared : lg.Spared args now lg.leader) (seated : lg.leader ∈ lg.members) :
    (lg.sweep args now).leader = lg.leader ∧ lg.leader ∈ (lg.sweep args now).members := by
  have stays : lg.leader ∈ (lg.sweep args now).members := by
    rw [← AList.lookup_isSome, spared.sweep_lookup, AList.lookup_isSome]
    exact seated
  rcases (sweep_shrunk lg args now).seat with ⟨_, gone⟩ | ⟨same, _⟩
  · exact absurd stays gone
  · exact ⟨same, stays⟩

end Sweep

section Peopled

variable {lg lg' : LiveGroup}

theorem Peopled.shrunk (peopled : lg.Peopled) (shrunk : Shrunk lg lg') : lg'.Peopled := by
  refine ⟨?_, fun id beat => ?_⟩
  · rcases shrunk.seat with ⟨vacant, _⟩ | ⟨same, stays⟩
    · exact .inl vacant
    · rw [same]
      exact peopled.leader.imp_right stays
  · obtain ⟨earlier, stays⟩ := shrunk.beats id beat
    exact stays (peopled.heartbeats id earlier)

theorem Peopled.entered (peopled : lg.Peopled) (args : JoinGroupArgs) (now : Int) (random : Bytes) :
    (lg.entered args now random).Peopled := by
  have swept := peopled.shrunk (sweep_shrunk lg args now)
  have opened : ((lg.sweep args now).openRound args now).Peopled := by
    rw [openRound]
    split
    · exact swept
    · exact ⟨swept.leader, swept.heartbeats⟩
  refine ⟨opened.leader.imp_right fun present => (AList.mem_insert _).mpr (.inr present),
    fun id beat => (AList.mem_insert _).mpr ?_⟩
  exact ((AList.mem_insert _).mp beat).imp_right (opened.heartbeats id)

theorem pickLeader_cases (members : Table MemberState) :
    pickLeader members = "" ∨ pickLeader members ∈ members := by
  by_cases inhabited : members.keys = []
  · left
    rw [pickLeader, inhabited]
    rfl
  · exact .inr (pickLeader_mem members inhabited)

theorem Peopled.closeRound (peopled : lg.Peopled) (order : List String) (round : RebalanceRound)
    (isOpen : round.closed = false) : (lg.closeRound order round).Peopled := by
  have dropped := peopled.shrunk (dropWhere_shrunk (fun id _ => id ∉ round.joined) lg)
  have settled : (lg.settle order round).Peopled := by
    rw [settle, seatLeader]
    split
    · exact ⟨pickLeader_cases _, dropped.heartbeats⟩
    · exact ⟨dropped.leader, dropped.heartbeats⟩
  rw [closeRound_open order lg round isOpen]
  exact ⟨settled.leader, settled.heartbeats⟩

theorem Change.peopled {event : Event} (change : Change lg event lg') (peopled : lg.Peopled) :
    lg'.Peopled := by
  cases change with
  | beat event heartbeats own =>
    exact ⟨peopled.leader, fun id beat => (own id beat).elim (peopled.heartbeats id) fun here => here⟩
  | swept args now => exact peopled.shrunk (sweep_shrunk lg args now)
  | entered args now random => exact peopled.entered args now random
  | completed args now random order round _ _ isOpen =>
    exact (peopled.entered args now random).closeRound order round isOpen
  | distributed args now persists heartbeats _ _ _ own =>
    refine ⟨peopled.leader.imp_right (assign_mem _ _ _).mpr, fun id beat => (assign_mem _ _ _).mpr ?_⟩
    exact (own id beat).elim (peopled.heartbeats id) fun here => here
  | left groupID memberID present =>
    rw [leaveGroup, if_neg (not_not.mpr present)]
    refine ⟨?_, fun id beat => ?_⟩
    · show (if lg.leader = memberID then _ else lg.leader) = "" ∨
        (if lg.leader = memberID then _ else lg.leader) ∈ lg.members.erase memberID
      split
      · exact pickLeader_cases _
      · next other => exact peopled.leader.imp_right fun here => AList.mem_erase.mpr ⟨other, here⟩
    · obtain ⟨other, earlier⟩ := AList.mem_erase.mp beat
      exact AList.mem_erase.mpr ⟨other, peopled.heartbeats id earlier⟩
  | expired groupID order round _ isOpen => exact peopled.closeRound order round isOpen

end Peopled

section Seated

variable {lg lg' : LiveGroup}

theorem Seated.of_leader (leads : lg.leader ∈ lg.members) : lg.Seated :=
  fun _ => ⟨List.ne_nil_of_mem (AList.mem_keys.mp leads), leads⟩

theorem seated_closeRound (order : List String) {round : RebalanceRound} (isOpen : round.closed = false)
    {id : String} (joined : id ∈ round.joined) (present : id ∈ lg.members) :
    (lg.closeRound order round).Seated := by
  have stays : id ∈ (lg.settle order round).members := by
    rw [← AList.lookup_isSome, settle_lookup, if_pos joined, AList.lookup_isSome]
    exact present
  have leads := settle_leader order lg round (List.ne_nil_of_mem (AList.mem_keys.mp stays))
  rw [closeRound_open order lg round isOpen]
  exact Seated.of_leader leads

theorem Seated.sweep (seated : lg.Seated) {args : JoinGroupArgs} {now : Int}
    (spared : lg.Decided → lg.Spared args now lg.leader) : (lg.sweep args now).Seated := by
  intro decided
  have before : lg.Decided := by
    obtain ⟨_, _, _, swept⟩ := (sweep_shrunk lg args now).rest
    rw [swept] at decided
    exact decided
  obtain ⟨same, stays⟩ := (spared before).sweep_leader (seated before).2
  rw [← same] at stays
  exact Seated.of_leader stays decided

theorem Seated.entered (seated : lg.Seated) {args : JoinGroupArgs} {now : Int} (random : Bytes)
    (spared : lg.Decided → lg.roundOpen = true → lg.Spared args now lg.leader) :
    (lg.entered args now random).Seated := by
  intro decided
  by_cases inFlight : lg.roundOpen = true
  · have swept := seated.sweep fun decided => spared decided inFlight
    have still : (lg.sweep args now).roundOpen = true := by
      obtain ⟨_, _, _, same⟩ := (sweep_shrunk lg args now).rest
      rw [same]
      exact inFlight
    rw [LiveGroup.entered, openRound, if_pos still] at decided ⊢
    have leads := (swept decided).2
    exact Seated.of_leader ((AList.mem_insert _).mpr (.inr leads)) decided
  · have idle : (lg.sweep args now).roundOpen ≠ true := by
      obtain ⟨_, _, _, same⟩ := (sweep_shrunk lg args now).rest
      rw [same]
      exact inFlight
    rw [LiveGroup.entered, openRound, if_neg idle] at decided
    rcases decided with pending | pending <;> cases pending

theorem Change.seated {event : Event} (change : Change lg event lg') (seated : lg.Seated)
    (keeps : lg.KeepsLeader event) : lg'.Seated := by
  cases change with
  | beat => exact seated
  | swept args now random order anonymous =>
    exact seated.sweep fun decided => keeps decided (.inl anonymous)
  | entered args now random =>
    exact seated.entered random fun decided inFlight => keeps decided (.inr inFlight)
  | completed args now random order round _ current isOpen =>
    obtain ⟨before, _, rfl⟩ := Option.map_eq_some_iff.mp current
    exact seated_closeRound order isOpen (List.mem_insert_self)
      ((AList.mem_insert _).mpr (.inl rfl))
  | distributed args now persists heartbeats _ present leads =>
    exact Seated.of_leader ((assign_mem _ _ _).mpr (leads ▸ present))
  | left groupID memberID present =>
    obtain ⟨-, pending | ⟨pending, -⟩⟩ := leaveGroup_facts lg memberID present
    · rintro (decided | decided) <;> rw [pending] at decided <;> cases decided
    · rintro (decided | decided) <;> rw [pending] at decided <;> cases decided
  | expired groupID order round current isOpen =>
    obtain ⟨id, joined, present⟩ := keeps round current rfl isOpen
    exact seated_closeRound order isOpen joined present

end Seated

end LiveGroup

def Group.KeepsLeader (group : Group) (event : Event) : Prop := group.live.KeepsLeader event

instance (group : Group) (event : Event) : Decidable (group.KeepsLeader event) :=
  inferInstanceAs (Decidable (group.live.KeepsLeader event))

/-- In every run the leader and the heartbeats of a group belong to members. Where the leader is
kept, a group that has decided a generation has it among its members. -/
theorem group_leader_seated (store : OffsetStore) (events : List Event) (groupID : String) :
    (groupAfter store events groupID).live.Peopled ∧
      (EveryStep Group.KeepsLeader store events → (groupAfter store events groupID).live.Seated) := by
  constructor
  · exact (everyStep_any store events).invariant (fun _ group => group.live.Peopled)
      (fun _ => ⟨.inl rfl, nofun⟩) (fun _ _ _ peopled => peopled)
      (fun _ group event _ peopled _ => (group.step_change event).peopled peopled)
  · intro keeps
    refine keeps.invariant (fun _ group => group.live.Seated) (fun _ decided => ?_)
      (fun _ _ _ seated => seated)
      (fun _ group event _ seated meets => (group.step_change event).seated seated meets)
    rcases decided with pending | pending <;> cases pending

theorem two_members_seated :
    (groupAfter ⟨∅⟩ twoMembers "g").live.state = .stable ∧
      (groupAfter ⟨∅⟩ twoMembers "g").live.Seated :=
  ⟨by decide +kernel, (group_leader_seated ⟨∅⟩ twoMembers "g").2 (by decide +kernel)⟩

/-- The leader has been silent for five seconds when a process without a member id comes by. -/
theorem leader_swept_out :
    let lg := (groupAfter ⟨∅⟩ (twoMembers ++ [.heartbeat ⟨"g", "b", 1⟩ (5 * second),
      .join { groupID := "g", clientID := "three", apiVersion := 4 } (5 * second) [] []]) "g").live
    lg.state = .stable ∧ lg.leader = "" ∧ lg.members.keys = ["b"] ∧ ¬ lg.Seated := by
  intro lg
  have stable : lg.state = .stable := by decide +kernel
  exact ⟨stable, by decide +kernel, by decide +kernel, fun seated =>
    absurd (seated (.inr stable)).2 (by decide +kernel)⟩

end KafkaWire.Broker
