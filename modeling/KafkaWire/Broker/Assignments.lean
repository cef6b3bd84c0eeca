import KafkaWire.Broker.Agreement

/-! Where the bytes of a `SyncGroup` reply come from. -/

namespace KafkaWire.Broker

open LiveGroup (Change)

variable {calls more : List SyncGroupArgs} {base : Int} {lg lg' : LiveGroup}

namespace LiveGroup

def Rejoined (lg : LiveGroup) (id : String) : Prop :=
  ∃ round ∈ lg.round, round.closed = false ∧ id ∈ round.joined

instance (lg : LiveGroup) (id : String) : Decidable (lg.Rejoined id) :=
  inferInstanceAs (Decidable (∃ round ∈ lg.round, round.closed = false ∧ id ∈ round.joined))

def ToldToLead (lg : LiveGroup) (id : String) : Prop :=
  ∃ round ∈ lg.round, round.closed = true ∧ ∃ result ∈ round.results.lookup id,
    result.isLeader = true

instance (lg : LiveGroup) (id : String) : Decidable (lg.ToldToLead id) :=
  inferInstanceAs (Decidable (∃ round ∈ lg.round, round.closed = true ∧
    ∃ result ∈ round.results.lookup id, result.isLeader = true))

/-- The orders of requests in which assignments stay with their generation: a `SyncGroup` request
is served only once this process has opened a round, and as a leader's only when the closed
current round named its sender; a follower does not wake after it has rejoined. -/
def InTurn (lg : LiveGroup) : Event → Prop
  | .join .. => lg.CanAdvance
  | .expire .. => lg.CanAdvance
  | .sync args _ _ =>
    lg.persisted.generation = args.generation → args.memberID ∈ lg.members →
      lg.round.isSome ∧ (args.memberID = lg.leader → lg.ToldToLead args.memberID)
  | .syncWakes _ call => ¬ lg.Rejoined call.memberID
  | _ => True

instance (lg : LiveGroup) (event : Event) : Decidable (lg.InTurn event) :=
  match event with
  | .join .. | .expire .. => inferInstanceAs (Decidable lg.CanAdvance)
  | .sync args _ _ =>
    inferInstanceAs (Decidable (lg.persisted.generation = args.generation →
      args.memberID ∈ lg.members →
        lg.round.isSome ∧ (args.memberID = lg.leader → lg.ToldToLead args.memberID)))
  | .syncWakes _ call => inferInstanceAs (Decidable (¬ lg.Rejoined call.memberID))
  | .joinWakes .. | .joinTimesOut .. | .syncTimesOut .. | .heartbeat .. | .leave .. =>
    isTrue trivial

def decided (lg : LiveGroup) : Nat :=
  lg.past.length + if lg.round.any (·.closed) then 1 else 0

def syncedAt (lg : LiveGroup) (i : Nat) : Bool := (lg.rounds[i]?).any (·.synced)

/-- One of `calls`, made for `generation` by a member that `results` told to lead, holds `bytes`
for `id`. A map without an entry for `id` holds no bytes for it. -/
def Supplied (calls : List SyncGroupArgs) (generation : Int) (results : Table JoinGroupResult)
    (id : String) (bytes : Bytes) : Prop :=
  ∃ call ∈ calls, call.generation = generation ∧
    (∃ result, results.lookup call.memberID = some result ∧ result.isLeader = true) ∧
    (call.assignments.lookup id).getD [] = bytes

theorem Supplied.mono {generation : Int}
    {results : Table JoinGroupResult} {id : String} {bytes : Bytes}
    (supplied : Supplied calls generation results id bytes) (grown : calls ⊆ more) :
    Supplied more generation results id bytes := by
  obtain ⟨call, listed, facts⟩ := supplied
  exact ⟨call, grown listed, facts⟩

/-- The generation counts the closed rounds from `base`, and every assignment on file came from
the leader of the last one, unless the round in flight has replaced its member. -/
structure Traced (base : Int) (calls : List SyncGroupArgs) (lg : LiveGroup) : Prop where
  ready : lg.Ready
  generation : lg.persisted.generation = base + lg.decided
  numbered : ∀ i results id result, lg.closedAt i = some results →
    results.lookup id = some result → result.generation = base + i + 1
  syncedClosed : ∀ round, lg.round = some round → round.synced = true → round.closed = true
  blank : ∀ round, lg.round = some round → round.closed = false → ∀ id ∈ round.joined,
    ∀ member, lg.members.lookup id = some member → member.assignment = []
  distributed : ∀ i results, lg.decided = i + 1 → lg.closedAt i = some results →
    (lg.syncedAt i = false ∧ ∀ id member, lg.members.lookup id = some member →
      ¬ lg.Rejoined id → member.assignment = []) ∨
    ∀ id member, lg.members.lookup id = some member → ¬ lg.Rejoined id →
      Supplied calls (base + i + 1) results id member.assignment

theorem Traced.mono (traced : Traced base calls lg) (grown : calls ⊆ more) : Traced base more lg :=
  { traced with
    distributed := fun i results last closed =>
      (traced.distributed i results last closed).imp_right fun supplied id member found waits =>
        (supplied id member found waits).mono grown }

theorem Traced.shrink
    (traced : Traced base calls lg) (past : lg'.past = lg.past) (round : lg'.round = lg.round)
    (generation : lg'.persisted.generation = lg.persisted.generation)
    (kept : ∀ id member, lg'.members.lookup id = some member → lg.members.lookup id = some member) :
    Traced base calls lg' := by
  have rounds : lg'.rounds = lg.rounds := by rw [LiveGroup.rounds, past, round, LiveGroup.rounds]
  have decided : lg'.decided = lg.decided := by rw [LiveGroup.decided, past, round, LiveGroup.decided]
  have closedAt : ∀ i, lg'.closedAt i = lg.closedAt i := fun i => by
    rw [LiveGroup.closedAt, rounds, LiveGroup.closedAt]
  have syncedAt : ∀ i, lg'.syncedAt i = lg.syncedAt i := fun i => by
    rw [LiveGroup.syncedAt, rounds, LiveGroup.syncedAt]
  have rejoined : ∀ id, lg'.Rejoined id ↔ lg.Rejoined id := fun id => by
    rw [Rejoined, round, Rejoined]
  refine ⟨traced.ready.shrink past round kept, ?_, ?_, ?_, ?_, ?_⟩
  · rw [generation, decided, traced.generation]
  · intro i results id result closed
    rw [closedAt] at closed
    exact traced.numbered i results id result closed
  · rw [round]
    exact traced.syncedClosed
  · rw [round]
    exact fun current found isOpen id joined member here =>
      traced.blank current found isOpen id joined member (kept id member here)
  · intro i results last closed
    rw [decided] at last
    rw [closedAt] at closed
    rw [syncedAt]
    rcases traced.distributed i results last closed with ⟨unsynced, empty⟩ | supplied
    · exact .inl ⟨unsynced, fun id member found waits =>
        empty id member (kept id member found) (mt (rejoined id).mpr waits)⟩
    · exact .inr fun id member found waits =>
        supplied id member (kept id member found) (mt (rejoined id).mpr waits)

theorem syncedAt_congr (past : lg'.past = lg.past)
    (round : (lg'.round.map fun round => round.synced) = lg.round.map fun round => round.synced)
    (i : Nat) : lg'.syncedAt i = lg.syncedAt i := by
  unfold syncedAt rounds
  rw [past, List.getElem?_append, List.getElem?_append]
  split
  · rfl
  · cases before : lg.round <;> cases after : lg'.round <;> simp_all
    cases i - lg.past.length <;> simp_all

theorem decided_idle (lg : LiveGroup) (idle : ¬ lg.roundOpen = true) :
    lg.decided = lg.rounds.length := by
  unfold decided rounds
  unfold roundOpen at idle
  cases current : lg.round with
  | none => simp
  | some round =>
    rw [current] at idle
    simp_all

theorem decided_inFlight (lg : LiveGroup) (round : RebalanceRound) (current : lg.round = some round)
    (isOpen : round.closed = false) : lg.decided = lg.past.length := by
  simp [decided, current, isOpen]

theorem not_rejoined_idle (lg : LiveGroup) (idle : ¬ lg.roundOpen = true) (id : String) :
    ¬ lg.Rejoined id := by
  rintro ⟨round, current, isOpen, _⟩
  exact idle (lg.roundOpen_iff.mpr ⟨round, current, isOpen⟩)

theorem Traced.openRound (traced : Traced base calls lg) (args : JoinGroupArgs) (now : Int) :
    Traced base calls (lg.openRound args now) := by
  have ready := openRound_ready lg args now traced.ready
  have closedAt := openRound_closedAt lg args now
  unfold LiveGroup.openRound at ready closedAt ⊢
  split at ready
  · next inFlight => rwa [if_pos inFlight]
  · next idle =>
      rw [if_neg idle] at closedAt ⊢
      have decided := lg.decided_idle idle
      refine ⟨ready, ?_, ?_, ?_, ?_, ?_⟩
      · change lg.persisted.generation = base + (lg.rounds.length + 0 : Nat)
        rw [traced.generation, decided, Nat.add_zero]
      · intro i results id result closed
        rw [closedAt] at closed
        exact traced.numbered i results id result closed
      · rintro _ ⟨⟩ ⟨⟩
      · rintro _ ⟨⟩ _ id ⟨⟩
      · intro i results last closed
        change lg.rounds.length + 0 = i + 1 at last
        rw [closedAt] at closed
        have waits : ∀ id, ¬ lg.Rejoined id := lg.not_rejoined_idle idle
        have synced : ∀ round state, syncedAt
            { lg with past := lg.rounds, round := some round, state } i = lg.syncedAt i := by
          intro round state
          change ((lg.rounds ++ [round])[i]?).any _ = _
          rw [List.getElem?_append_left (by omega)]
          rfl
        rcases traced.distributed i results (by omega) closed with ⟨unsynced, empty⟩ | supplied
        · exact .inl ⟨(synced _ _).trans unsynced, fun id member found _ =>
            empty id member found (waits id)⟩
        · exact .inr fun id member found _ => supplied id member found (waits id)

theorem Traced.register
    (traced : Traced base calls lg) (memberID : String) (args : JoinGroupArgs) (now : Int)
    (inFlight : ∃ round, lg.round = some round ∧ round.closed = false) :
    Traced base calls (lg.register memberID args now) := by
  obtain ⟨round, current, isOpen⟩ := inFlight
  have joined : (lg.register memberID args now).round =
      some { round with joined := round.joined.insert memberID } := by
    simp only [LiveGroup.register, setMembers, current, Option.map_some]
  have found_or : ∀ id member, (lg.register memberID args now).members.lookup id = some member →
      id = memberID ∧ member.assignment = [] ∨ id ≠ memberID ∧ lg.members.lookup id = some member := by
    intro id member found
    change (lg.members.insert memberID _).lookup id = some member at found
    by_cases same : id = memberID
    · subst same
      rw [AList.lookup_insert] at found
      exact .inl ⟨rfl, by rw [← Option.some.inj found]⟩
    · rw [AList.lookup_insert_ne same] at found
      exact .inr ⟨same, found⟩
  have decided : (lg.register memberID args now).decided = lg.decided := by
    rw [decided_inFlight _ _ joined isOpen, decided_inFlight lg round current isOpen]
    rfl
  have earlier : ∀ id, id ≠ memberID → ¬ (lg.register memberID args now).Rejoined id →
      ¬ lg.Rejoined id := by
    rintro id other waits ⟨before, here, open', listed⟩
    rw [current] at here
    cases here
    exact waits ⟨_, joined, isOpen, List.mem_insert_iff.mpr (.inr listed)⟩
  have entered : (lg.register memberID args now).Rejoined memberID :=
    ⟨_, joined, isOpen, List.mem_insert_iff.mpr (.inl rfl)⟩
  refine ⟨register_ready lg memberID args now traced.ready, ?_, ?_, ?_, ?_, ?_⟩
  · rw [decided]
    exact traced.generation
  · intro i results id result closed
    rw [register_closedAt] at closed
    exact traced.numbered i results id result closed
  · intro later here synced
    rw [joined] at here
    cases here
    exact traced.syncedClosed round current synced
  · intro later here _ id listed member found
    rw [joined] at here
    cases here
    rcases found_or id member found with ⟨_, empty⟩ | ⟨other, before⟩
    · exact empty
    · exact traced.blank round current isOpen id
        ((List.mem_insert_iff.mp listed).resolve_left other) member before
  · intro i results last closed
    rw [decided] at last
    rw [register_closedAt] at closed
    have synced : (lg.register memberID args now).syncedAt i = lg.syncedAt i := by
      refine syncedAt_congr ?_ ?_ i
      · rfl
      · rw [joined, current]
        rfl
    rw [synced]
    rcases traced.distributed i results last closed with ⟨unsynced, empty⟩ | supplied
    · refine .inl ⟨unsynced, fun id member found waits => ?_⟩
      rcases found_or id member found with ⟨rfl, _⟩ | ⟨other, before⟩
      · exact absurd entered waits
      · exact empty id member before (earlier id other waits)
    · refine .inr fun id member found waits => ?_
      rcases found_or id member found with ⟨rfl, _⟩ | ⟨other, before⟩
      · exact absurd entered waits
      · exact supplied id member before (earlier id other waits)

theorem Traced.closeRound
    (traced : Traced base calls lg) (order : List String) (round : RebalanceRound)
    (current : lg.round = some round) (isOpen : round.closed = false) (advance : lg.CanAdvance) :
    Traced base calls (lg.closeRound order round) := by
  have decided := decided_inFlight lg round current isOpen
  have generation := closeRound_generation order lg round isOpen advance
  have closedAt := closeRound_closedAt order lg round isOpen
  have ready := closeRound_ready order lg round isOpen traced.ready
  have past := (settle_fields order lg round).2.2
  have unsynced : round.synced = false := by
    by_contra synced
    have closed := traced.syncedClosed round current (by simpa using synced)
    rw [isOpen] at closed
    cases closed
  rw [closeRound_open order lg round isOpen] at generation closedAt ready ⊢
  have counted : (lg.past.length + 1 : Nat) = LiveGroup.decided { lg.settle order round with
      round := some { round with
        closed := true, results := (lg.settle order round).answer order round } } := by
    simp [LiveGroup.decided, past]
  refine ⟨ready, ?_, ?_, ?_, ?_, ?_⟩
  · rw [generation, traced.generation, decided, ← counted]
    push_cast
    ring
  · intro i results id result closed found
    rw [closedAt] at closed
    split at closed
    · next last =>
        cases closed
        rw [answer_lookup, traced.ready.unanswered round current isOpen, AList.lookup_empty] at found
        split at found
        · rw [← Option.some.inj found]
          change (lg.settle order round).persisted.generation = _
          rw [last, ← decided]
          exact generation.trans (by rw [traced.generation])
        · cases found
    · exact traced.numbered i results id result closed found
  · rintro _ ⟨⟩ _
    rfl
  · rintro _ ⟨⟩ ⟨⟩
  · intro i results last _
    rw [← counted] at last
    obtain rfl : i = lg.past.length := by omega
    refine .inl ⟨?_, fun id member found _ => ?_⟩
    · simp [syncedAt, rounds, past, unsynced]
    · change (lg.settle order round).members.lookup id = some member at found
      rw [settle_lookup] at found
      split at found
      · next listed => exact traced.blank round current isOpen id listed member found
      · cases found

theorem Traced.distribute (traced : Traced base calls lg) (args : SyncGroupArgs) (persists : Bool)
    (generation : lg.persisted.generation = args.generation) (told : lg.ToldToLead args.memberID) :
    Traced base (calls ++ [args]) (lg.distribute args.assignments persists) ∧
      ∀ id member, (lg.distribute args.assignments persists).members.lookup id = some member →
        ∃ results, (lg.distribute args.assignments persists).closedAt lg.past.length = some results ∧
          Supplied (calls ++ [args]) args.generation results id member.assignment := by
  obtain ⟨round, current, closed, result, own, leads⟩ := told
  rw [Option.mem_def] at current own
  have counted : lg.decided = lg.past.length + 1 := by simp [decided, current, closed]
  have held : lg.closedAt lg.past.length = some round.results := by
    simp [closedAt_eq, current, closed]
  have closedAt := distribute_closedAt lg args.assignments persists
  have after : ∀ later, (lg.distribute args.assignments persists).round = some later →
      later.closed = true := by
    intro later here
    cases persists with
    | false =>
      change lg.round = some later at here
      rw [current] at here
      cases here
      exact closed
    | true =>
      obtain ⟨before, there, rfl⟩ := Option.map_eq_some_iff.mp here
      rw [current] at there
      cases there
      exact closed
  have decided : (lg.distribute args.assignments persists).decided = lg.decided := by
    cases persists <;> simp [LiveGroup.distribute, LiveGroup.decided, setMembers, current]
  have number : args.generation = base + lg.past.length + 1 := by
    rw [← generation, traced.generation, counted]
    push_cast
    ring
  have fresh : ∀ id bytes, (args.assignments.lookup id).getD [] = bytes →
      Supplied (calls ++ [args]) (base + lg.past.length + 1) round.results id bytes :=
    fun id bytes holds => ⟨args, by simp, number, ⟨result, own, leads⟩, holds⟩
  have waits : ∀ id, ¬ lg.Rejoined id := by
    rintro id ⟨other, here, isOpen, _⟩
    rw [Option.mem_def, current] at here
    cases here
    rw [closed] at isOpen
    cases isOpen
  -- A member keeps its bytes only when the call's map does not name it.
  have supplied : ∀ id member,
      (lg.distribute args.assignments persists).members.lookup id = some member →
        Supplied (calls ++ [args]) (base + lg.past.length + 1) round.results id member.assignment := by
    intro id member found
    change (assign lg.members args.assignments).lookup id = some member at found
    rw [assign_lookup] at found
    obtain ⟨before, there, rfl⟩ := Option.map_eq_some_iff.mp found
    cases named : args.assignments.lookup id with
    | some bytes => exact fresh id bytes (by rw [named]; rfl)
    | none =>
      rcases traced.distributed _ _ counted held with ⟨_, empty⟩ | earlier
      · refine fresh id _ ?_
        change ((args.assignments.lookup id).getD []) = before.assignment
        rw [named, empty id before there (waits id)]
        rfl
      · exact (earlier id before there (waits id)).mono (List.subset_append_left _ _)
  refine ⟨⟨distribute_ready lg args.assignments persists traced.ready, ?_, ?_, ?_, ?_, ?_⟩, ?_⟩
  · rw [decided]
    exact traced.generation
  · intro i results id result shut
    rw [closedAt] at shut
    exact traced.numbered i results id result shut
  · exact fun later here _ => after later here
  · intro later here isOpen
    rw [after later here] at isOpen
    cases isOpen
  · intro i results last shut
    rw [decided, counted] at last
    obtain rfl : i = lg.past.length := by omega
    rw [closedAt, held] at shut
    cases shut
    exact .inr fun id member found _ => supplied id member found
  · intro id member found
    refine ⟨round.results, by rw [closedAt, held], ?_⟩
    rw [number]
    exact supplied id member found

/-- One step in turn keeps the trace; `calls` grows by the `SyncGroup` calls. -/
theorem Change.traced {event : Event} (change : Change lg event lg') (traced : Traced base calls lg)
    (inTurn : lg.InTurn event) (grown : calls ⊆ more)
    (listed : ∀ args now persists, event = .sync args now persists → args ∈ more) :
    Traced base more lg' := by
  have entered : ∀ args now random, Traced base more (lg.entered args now random) := by
    intro args now random
    obtain ⟨⟨members, heartbeats, leader, swept⟩, kept⟩ := sweep_shrunk lg args now
    have shrunk : Traced base more (lg.sweep args now) := by
      refine (traced.mono grown).shrink ?_ ?_ ?_ kept <;> rw [swept] <;> rfl
    exact (shrunk.openRound args now).register _ args now (openRound_round _ args now)
  cases change with
  | beat event heartbeats => exact (traced.mono grown).shrink rfl rfl rfl fun _ _ found => found
  | swept args now random order anonymous =>
    obtain ⟨⟨members, heartbeats, leader, swept⟩, kept⟩ := sweep_shrunk lg args now
    refine (traced.mono grown).shrink ?_ ?_ ?_ kept <;> rw [swept] <;> rfl
  | entered args now random order admitted => exact entered args now random
  | completed args now random order round admitted current isOpen =>
    refine (entered args now random).closeRound order round current isOpen ?_
    rw [CanAdvance, entered_generation]
    exact inTurn
  | distributed args now persists heartbeats generation present leads =>
    have told := (inTurn generation present).2 leads
    have shrunk : Traced base calls { lg with heartbeats := heartbeats } :=
      traced.shrink rfl rfl rfl fun _ _ found => found
    refine (shrunk.distribute args persists generation told).1.mono fun call here => ?_
    rcases List.mem_append.mp here with before | last
    · exact grown before
    · rw [List.mem_singleton.mp last]
      exact listed args now persists rfl
  | left groupID memberID present =>
    obtain ⟨past, round, kept⟩ := leaveGroup_rest lg memberID
    refine (traced.mono grown).shrink past round ?_ kept
    unfold leaveGroup
    split <;> rfl
  | expired groupID order round current isOpen =>
    exact (traced.mono grown).closeRound order round current isOpen inTurn

end LiveGroup

theorem Group.step_syncing (group : Group) (event : Event) {call : SyncCall}
    (waits : call ∈ (group.step event).1.syncing) :
    call ∈ group.syncing ∨ ∃ args now persists round, event = .sync args now persists ∧
      (group.live.syncGroup args now persists).2 = .waits round ∧
      call = ⟨round, args.memberID, args.generation⟩ := by
  cases event with
  | join args now random order =>
    simp only [step, join] at waits
    split at waits <;> exact .inl waits
  | sync args now persists =>
    simp only [step, sync] at waits
    split at waits
    · exact .inl waits
    · exact .inl waits
    · next live round outcome =>
        rcases List.mem_cons.mp waits with rfl | earlier
        · exact .inr ⟨args, now, persists, round, rfl, by rw [outcome], rfl⟩
        · exact .inl earlier
  | joinWakes | joinTimesOut =>
    simp only [step] at waits
    split at waits <;> exact .inl waits
  | syncWakes | syncTimesOut =>
    simp only [step] at waits
    split at waits
    · exact .inl (List.mem_of_mem_erase waits)
    · exact .inl waits
  | _ => exact .inl waits

end KafkaWire.Broker
