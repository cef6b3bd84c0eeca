import KafkaWire.Broker.Coordinator
import KafkaWire.Broker.GroupEffects

/-! Everything that one event can do to a group, and what follows for whole runs. -/

namespace KafkaWire.Broker

open Storage (int32)

variable (lg : LiveGroup) (args : JoinGroupArgs) (now : Int) (random : Bytes) (order : List String)

variable {cond : Group → Event → Prop} {store : OffsetStore}

namespace LiveGroup

theorem closeRound_open (lg : LiveGroup) (round : RebalanceRound) (isOpen : round.closed = false) :
    lg.closeRound order round =
      { lg.settle order round with
        round := some { round with
          closed := true, results := (lg.settle order round).answer order round } } := by
  rw [closeRound, isOpen]
  rfl

def entered (lg : LiveGroup) (args : JoinGroupArgs) (now : Int) (random : Bytes) : LiveGroup :=
  ((lg.sweep args now).openRound args now).register (joinID args random) args now

inductive Change (lg : LiveGroup) : Event → LiveGroup → Prop
  | beat (event : Event) (heartbeats : Table Int)
      (own : ∀ id ∈ heartbeats, id ∈ lg.heartbeats ∨ id ∈ lg.members) :
      Change lg event { lg with heartbeats := heartbeats }
  | swept (args : JoinGroupArgs) (now : Int) (random : Bytes) (order : List String)
      (anonymous : args.memberID = "" ∧ 4 ≤ args.apiVersion) :
      Change lg (.join args now random order) (lg.sweep args now)
  | entered (args : JoinGroupArgs) (now : Int) (random : Bytes) (order : List String)
      (admitted : ¬ (args.memberID = "" ∧ 4 ≤ args.apiVersion)) :
      Change lg (.join args now random order) (lg.entered args now random)
  | completed (args : JoinGroupArgs) (now : Int) (random : Bytes) (order : List String)
      (round : RebalanceRound) (admitted : ¬ (args.memberID = "" ∧ 4 ≤ args.apiVersion))
      (current : (lg.entered args now random).round = some round) (isOpen : round.closed = false) :
      Change lg (.join args now random order) ((lg.entered args now random).closeRound order round)
  | distributed (args : SyncGroupArgs) (now : Int) (persists : Bool) (heartbeats : Table Int)
      (generation : lg.persisted.generation = args.generation)
      (present : args.memberID ∈ lg.members) (leads : args.memberID = lg.leader)
      (own : ∀ id ∈ heartbeats, id ∈ lg.heartbeats ∨ id ∈ lg.members) :
      Change lg (.sync args now persists)
        ({ lg with heartbeats := heartbeats }.distribute args.assignments persists)
  | left (groupID memberID : String) (present : memberID ∈ lg.members) :
      Change lg (.leave groupID memberID) (lg.leaveGroup memberID).1
  | expired (groupID : String) (order : List String) (round : RebalanceRound)
      (current : lg.round = some round) (isOpen : round.closed = false) :
      Change lg (.expire groupID lg.past.length order) (lg.closeRound order round)

theorem Change.same (event : Event) : Change lg event lg :=
  .beat event lg.heartbeats fun _ => .inl

theorem beat_own {lg : LiveGroup} {memberID : String} (present : memberID ∈ lg.members) :
    ∀ id ∈ lg.heartbeats.insert memberID now, id ∈ lg.heartbeats ∨ id ∈ lg.members := by
  intro id member
  rcases (AList.mem_insert _).mp member with rfl | earlier
  · exact .inr present
  · exact .inl earlier

theorem roundOpen_iff :
    lg.roundOpen = true ↔ ∃ round, lg.round = some round ∧ round.closed = false := by
  unfold roundOpen
  cases lg.round <;> simp

theorem openRound_round :
    ∃ round, (lg.openRound args now).round = some round ∧ round.closed = false := by
  unfold openRound
  split
  · next inFlight => exact lg.roundOpen_iff.mp inFlight
  · exact ⟨_, rfl, rfl⟩

theorem entered_round :
    ∃ round, (lg.entered args now random).round = some round ∧ round.closed = false := by
  obtain ⟨round, current, isOpen⟩ := openRound_round (lg.sweep args now) args now
  refine ⟨{ round with joined := round.joined.insert (joinID args random) }, ?_, isOpen⟩
  simp only [entered, register, setMembers, current, Option.map_some]

def CanAdvance (lg : LiveGroup) : Prop :=
  int32 (lg.persisted.generation + 1) = lg.persisted.generation + 1

instance (lg : LiveGroup) : Decidable lg.CanAdvance := inferInstanceAs (Decidable (_ = _))

theorem entered_generation :
    (lg.entered args now random).persisted.generation = lg.persisted.generation := by
  obtain ⟨⟨members, heartbeats, leader, swept⟩, _⟩ := sweep_shrunk lg args now
  change ((lg.sweep args now).openRound args now).persisted.generation = _
  rw [swept]
  unfold openRound
  split <;> rfl

theorem closeRound_generation (lg : LiveGroup) (round : RebalanceRound)
    (isOpen : round.closed = false) (advance : lg.CanAdvance) :
    (lg.closeRound order round).persisted.generation = lg.persisted.generation + 1 := by
  rw [closeRound_open order lg round isOpen]
  exact (settle_fields order lg round).1.trans advance

/-- A `JoinGroup` request is told to come again, enters its member, or completes the round. -/
theorem joinGroup_cases :
    (args.memberID = "" ∧ 4 ≤ args.apiVersion) ∧
        (lg.joinGroup args now random order).1 = lg.sweep args now ∨
      ¬ (args.memberID = "" ∧ 4 ≤ args.apiVersion) ∧
        ((lg.joinGroup args now random order).1 = lg.entered args now random ∨
          ∃ round, (lg.entered args now random).round = some round ∧ round.closed = false ∧
            (lg.joinGroup args now random order).1 =
              (lg.entered args now random).closeRound order round) := by
  unfold joinGroup
  dsimp only
  split
  · next anonymous => exact .inl ⟨anonymous, rfl⟩
  · next admitted =>
      obtain ⟨round, current, isOpen⟩ := entered_round lg args now random
      refine .inr ⟨admitted, ?_⟩
      change (lg.entered args now random).closeIfRejoined order = _ ∨
        ∃ round, _ ∧ _ ∧ (lg.entered args now random).closeIfRejoined order = _
      unfold closeIfRejoined
      rw [current]
      dsimp only
      split
      · exact .inr ⟨round, rfl, isOpen, rfl⟩
      · exact .inl rfl

theorem join_change :
    Change lg (.join args now random order) (lg.joinGroup args now random order).1 := by
  rcases lg.joinGroup_cases args now random order with
    ⟨anonymous, same⟩ | ⟨admitted, same | ⟨round, current, isOpen, same⟩⟩
  · rw [same]
    exact .swept args now random order anonymous
  · rw [same]
    exact .entered args now random order admitted
  · rw [same]
    exact .completed args now random order round admitted current isOpen

theorem sync_change (args : SyncGroupArgs) (now : Int) (persists : Bool) :
    Change lg (.sync args now persists) (lg.syncGroup args now persists).1 := by
  unfold syncGroup
  split
  · exact .same lg _
  · next generation =>
      split
      · exact .same lg _
      · next present =>
          dsimp only
          split
          · next leads =>
              have changed := Change.distributed args now persists
                (lg.heartbeats.insert args.memberID now) (not_not.mp generation)
                (not_not.mp present) leads (beat_own now (not_not.mp present))
              split <;> exact changed
          · split <;> exact .beat _ _ (beat_own now (not_not.mp present))

theorem expire_change (groupID : String) (round : Nat) (order : List String) :
    Change lg (.expire groupID round order) (lg.expireRound round order) := by
  unfold expireRound
  split
  · next current found =>
      split
      · next same =>
          subst same
          cases isOpen : current.closed with
          | true =>
            rw [closeRound, isOpen]
            exact .same lg _
          | false => exact .expired groupID order current found isOpen
      · exact .same lg _
  · exact .same lg _

theorem leave_change (groupID memberID : String) :
    Change lg (.leave groupID memberID) (lg.leaveGroup memberID).1 := by
  by_cases present : memberID ∈ lg.members
  · exact .left groupID memberID present
  · rw [leaveGroup, if_pos present]
    exact .same lg _

end LiveGroup

open LiveGroup (Change)

theorem Group.step_change (group : Group) (event : Event) :
    Change group.live event (group.step event).1.live := by
  cases event with
  | join args now random order =>
    have changed := LiveGroup.join_change group.live args now random order
    simp only [step, join]
    split <;> next outcome => rwa [outcome] at changed
  | sync args now persists =>
    have changed := LiveGroup.sync_change group.live args now persists
    simp only [step, sync]
    split <;> next outcome => rwa [outcome] at changed
  | heartbeat args now =>
    simp only [step, LiveGroup.heartbeat]
    split
    · exact .same _ _
    · split
      · exact .same _ _
      · next present =>
          split <;> exact .beat _ _ (LiveGroup.beat_own now (not_not.mp present))
  | leave groupID memberID => exact LiveGroup.leave_change group.live groupID memberID
  | expire groupID round order => exact LiveGroup.expire_change group.live groupID round order
  | _ =>
    simp only [step]
    split <;> exact .same _ _

theorem new_entry (store : OffsetStore) (groupID : String) :
    ∃ persisted, (newGroupCoordinator store).entry groupID = .fresh persisted := by
  have adopted : ∀ (entries : List (Sigma fun _ : String => GroupState)) (live : Table Group),
      (∀ group, live.lookup groupID = some group → ∃ persisted, group = .fresh persisted) →
      ∀ group, (entries.foldl (fun live entry => live.insert entry.2.groupID (.fresh entry.2))
        live).lookup groupID = some group → ∃ persisted, group = .fresh persisted := by
    intro entries
    induction entries with
    | nil => exact fun live fresh => fresh
    | cons entry entries ih =>
      intro live fresh
      refine ih _ fun group found => ?_
      by_cases same : groupID = entry.2.groupID
      · rw [same, AList.lookup_insert] at found
        exact ⟨entry.2, (Option.some.inj found).symm⟩
      · rw [AList.lookup_insert_ne same] at found
        exact fresh group found
  unfold GroupCoordinator.entry
  cases found : (newGroupCoordinator store).live.lookup groupID with
  | none => exact ⟨_, rfl⟩
  | some group => exact adopted store.groups.entries ∅ (by simp) group found

def Meets (cond : Group → Event → Prop) (g : GroupCoordinator) (event : Event) : Prop :=
  cond (g.entry event.groupID) event

instance (cond : Group → Event → Prop) [decidable : ∀ group event, Decidable (cond group event)]
    (g : GroupCoordinator) (event : Event) : Decidable (Meets cond g event) :=
  decidable (g.entry event.groupID) event

def groupAfter (store : OffsetStore) (events : List Event) (groupID : String) : Group :=
  (Machine.exec GroupCoordinator.step (newGroupCoordinator store) events).entry groupID

def replyAfter (store : OffsetStore) (events : List Event) (event : Event) : Option Reply :=
  (Machine.exec GroupCoordinator.step (newGroupCoordinator store) events).reply event

def EveryStep (cond : Group → Event → Prop) (store : OffsetStore) (events : List Event) : Prop :=
  Machine.Guarded GroupCoordinator.step (Meets cond) (newGroupCoordinator store) events

instance (cond : Group → Event → Prop) [∀ group event, Decidable (cond group event)]
    (store : OffsetStore) (events : List Event) : Decidable (EveryStep cond store events) :=
  inferInstanceAs (Decidable (Machine.Guarded _ _ _ _))

theorem GroupCoordinator.entry_step (g : GroupCoordinator) (event : Event) (groupID : String) :
    (g.step event).entry groupID = g.entry groupID ∨
      event.groupID = groupID ∧ (g.step event).entry groupID = ((g.entry groupID).step event).1 := by
  by_cases same : groupID = event.groupID
  · subst same
    rcases g.step_entry event with ⟨stepped, _⟩ | ⟨unchanged, _⟩
    · exact .inr ⟨rfl, stepped⟩
    · exact .inl unchanged
  · left
    simp only [entry, g.step_lookup_ne event groupID same, step_store]

theorem groupAfter_concat (store : OffsetStore) (events : List Event) (event : Event)
    (groupID : String) :
    groupAfter store (events ++ [event]) groupID = groupAfter store events groupID ∨
      event.groupID = groupID ∧ groupAfter store (events ++ [event]) groupID =
        ((groupAfter store events groupID).step event).1 := by
  unfold groupAfter
  rw [Machine.exec_concat]
  exact GroupCoordinator.entry_step _ event groupID

/-- A property of a group and of the events so far that holds of an adopted group and that steps
of the group keep, holds of every group after every run whose steps meet `cond`. -/
theorem EveryStep.invariant (inv : List Event → Group → Prop)
    (adopted : ∀ persisted, inv [] (.fresh persisted))
    (others : ∀ past group event, inv past group → inv (past ++ [event]) group)
    {groupID : String} (kept : ∀ past group event, event.groupID = groupID → inv past group →
      cond group event → inv (past ++ [event]) (group.step event).1)
    {events : List Event} (guarded : EveryStep cond store events) :
    inv events (groupAfter store events groupID) := by
  refine Machine.Guarded.invariant (fun past g => inv past (g.entry groupID)) _ ?_ ?_ events guarded
  · obtain ⟨persisted, fresh⟩ := new_entry store groupID
    rw [fresh]
    exact adopted persisted
  · intro past g event holds meets
    rcases g.entry_step event groupID with unchanged | ⟨rfl, stepped⟩
    · rw [unchanged]
      exact others past _ event holds
    · rw [stepped]
      exact kept past _ event rfl holds meets

theorem EveryStep.front {front back : List Event} (guarded : EveryStep cond store (front ++ back)) :
    EveryStep cond store front :=
  ((Machine.guarded_append _ _ _).mp guarded).1

theorem EveryStep.next {front : List Event}
    {event : Event} (guarded : EveryStep cond store (front ++ [event])) :
    cond (groupAfter store front event.groupID) event :=
  ((Machine.guarded_append _ _ _).mp guarded).2.1

end KafkaWire.Broker
