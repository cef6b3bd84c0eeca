import KafkaWire.Broker.GroupProcess
import KafkaWire.Lib.PublishRank

/-! Whether a generation number is handed out twice. -/

namespace KafkaWire.Broker

open Publish (Ranked Carried Shared)
open Storage (int32)

theorem LiveGroup.Change.generation {lg lg' : LiveGroup} {event : Event}
    (change : Change lg event lg') : lg'.persisted.generation = lg.persisted.generation ∨
      lg'.persisted.generation = int32 (lg.persisted.generation + 1) := by
  have closed (order : List String) (lg : LiveGroup) (round : RebalanceRound)
      (isOpen : round.closed = false) :
      (lg.closeRound order round).persisted.generation = int32 (lg.persisted.generation + 1) := by
    rw [closeRound_open order lg round isOpen]
    exact (settle_fields order lg round).1
  cases change with
  | beat => exact .inl rfl
  | swept args now =>
    obtain ⟨⟨members, heartbeats, leader, swept⟩, -⟩ := sweep_shrunk lg args now
    rw [swept]
    exact .inl rfl
  | entered args now random => exact .inl (entered_generation lg args now random)
  | completed args now random order round _ _ isOpen =>
    right
    rw [closed order _ round isOpen, entered_generation]
  | distributed => exact .inl rfl
  | left groupID memberID present =>
    rw [leaveGroup, if_neg (not_not.mpr present)]
    exact .inl rfl
  | expired groupID order round _ isOpen => exact .inr (closed order lg round isOpen)

theorem stepEntry_entry (store : OffsetStore) (entry : Option Group) (event : Event) :
    (stepEntry store entry event).1 = entry ∨ (stepEntry store entry event).1 =
      some ((entry.getD (.fresh (store.get event.groupID))).step event).1 := by
  cases event with
  | join args now random order =>
    simp only [stepEntry]
    split
    · exact .inr rfl
    · exact .inl rfl
  | _ =>
    cases entry with
    | none => exact .inl rfl
    | some group => exact .inr rfl

namespace GroupProcess

variable {s : GroupProcess}

theorem recordAfter_generation (event : Event) (mine : event.groupID = s.groupID) :
    (s.recordAfter event).generation = s.shared.memory.generation ∨
      (s.recordAfter event).generation = int32 (s.shared.memory.generation + 1) := by
  have found (group : Group) (here : s.entry = some group) :
      group.live.persisted = s.shared.memory := by
    obtain ⟨old, -, rfl⟩ := Option.map_eq_some_iff.mp here
    rfl
  have stored : OffsetStore.get ⟨(∅ : Table GroupState).insert s.groupID s.shared.memory⟩
      event.groupID = s.shared.memory := by
    rw [OffsetStore.get, mine, AList.lookup_insert]
    rfl
  rw [recordAfter, outcome]
  rcases stepEntry_entry ⟨(∅ : Table GroupState).insert s.groupID s.shared.memory⟩ s.entry event with
    same | stepped
  · rw [same]
    cases here : s.entry with
    | none => exact .inl rfl
    | some group => exact .inl (by rw [← found group here])
  · rw [stepped]
    rw [stored]
    have change := (Group.step_change (s.entry.getD (.fresh s.shared.memory)) event).generation
    cases here : s.entry with
    | none =>
      rw [here] at change
      exact change
    | some group =>
      rw [here] at change
      rw [← found group here]
      exact change

/-- What is on disk is no older than any generation that was handed out, and a generation that is
about to be handed out is newer than those and on its way to the disk. -/
structure Numbered (s : GroupProcess) : Prop where
  ranked : Ranked GroupState.generation { groupID := s.groupID } s.shared
  saved : ∀ gs, s.shared.read { groupID := s.groupID } = some gs → ∀ g ∈ s.handed, g ≤ gs.generation
  descending : s.handed.Pairwise (· > ·)
  closing : ∀ call g, s.lock = some (call, some g) →
    (∀ h ∈ s.handed, h < g) ∧ Carried (fun gs : GroupState => gs.generation = g) call s.shared

theorem boot_numbered (groupID : String) (file : Option GroupState) {handed : List Int}
    (saved : ∀ g ∈ handed, g ≤ (file.getD { groupID := groupID }).generation)
    (descending : handed.Pairwise (· > ·)) : Numbered (boot groupID file handed) := by
  have reads : (boot groupID file handed).shared.read { groupID := groupID } =
      some (file.getD { groupID := groupID }) := by cases file <;> rfl
  refine ⟨.loaded reads rfl, fun gs found => ?_, descending, nofun⟩
  obtain rfl := Option.some.inj (reads.symm.trans found)
  exact saved

theorem Numbered.coordinate (numbered : Numbered s) (event : Event) (call : Nat)
    (next : int32 (s.shared.memory.generation + 1) = s.shared.memory.generation + 1) :
    Numbered (s.coordinate event call) := by
  rw [GroupProcess.coordinate]
  split
  · exact numbered
  · next idle =>
      simp only [not_or, not_not] at idle
      obtain ⟨unlocked, mine, fresh⟩ := idle
      have advance := recordAfter_generation event mine
      rw [next] at advance
      have up : s.shared.memory.generation ≤ (s.recordAfter event).generation := by
        rcases advance with same | more <;> omega
      split
      · have submitted := s.shared.step_submit (fun _ => s.recordAfter event) fresh
        refine ⟨numbered.ranked.step (.submit call fun _ => s.recordAfter event) trivial ?_, ?_,
          numbered.descending, ?_⟩
        · rw [submitted]
          exact up
        · rw [submitted]
          exact numbered.saved
        · intro call' g held
          simp only [Option.some.injEq, Prod.mk.injEq] at held
          obtain ⟨rfl, held⟩ := held
          split at held
          · next closes =>
              obtain rfl := Option.some.inj held
              obtain ⟨gs, reads, low, -⟩ := numbered.ranked.file
              have different : (s.recordAfter event).generation ≠ s.shared.memory.generation := by
                simpa [GroupProcess.closes] using closes
              refine ⟨fun h member => ?_, ?_⟩
              · have bound := numbered.saved gs reads h member
                omega
              · rw [submitted]
                exact ⟨rfl, .inl (AList.lookup_insert _)⟩
          · cases held
      · refine ⟨numbered.ranked.step (.change fun _ => s.recordAfter event) trivial up,
          numbered.saved, numbered.descending, ?_⟩
        intro call' g held
        rw [Bool.not_eq_true, Option.isSome_eq_false_iff, Option.isNone_iff_eq_none] at unlocked
        cases unlocked.symm.trans held

theorem Numbered.publish (numbered : Numbered s) (event : Publish.Event GroupState)
    (exclusive : s.shared.Exclusive event)
    (same : (s.shared.step event).memory.generation = s.shared.memory.generation)
    (reliable : ∀ call, s.closing call = true →
      event ≠ .marshal call false ∧ ¬ s.shared.Failing call event) :
    Numbered (s.publish event) := by
  have ranked := numbered.ranked.step event exclusive same.ge
  have saved : ∀ gs, (s.shared.step event).read { groupID := s.groupID } = some gs →
      ∀ g ∈ s.handed, g ≤ gs.generation := by
    intro gs reads g member
    obtain ⟨old, before, -⟩ := numbered.ranked.file
    exact (numbered.saved old before g member).trans (numbered.ranked.grows event before reads)
  rw [GroupProcess.publish, release]
  dsimp only
  split
  · next unlocked =>
      refine ⟨ranked, saved, numbered.descending, fun call g held => ?_⟩
      cases unlocked.symm.trans held
  · next call generation locked =>
      cases generation with
      | none =>
        split
        · exact ⟨ranked, saved, numbered.descending, by rintro _ _ ⟨⟩⟩
        · refine ⟨ranked, saved, numbered.descending, fun call' g held => ?_⟩
          cases locked.symm.trans held
      | some g =>
        obtain ⟨above, carried⟩ := numbered.closing call g locked
        have closing : s.closing call = true := by simp [GroupProcess.closing, locked]
        obtain ⟨marshals, succeeds⟩ := reliable call closing
        have moved := carried.step numbered.ranked event (same.trans carried.memory)
        have passed : ¬ (event = .marshal call false ∨ s.shared.Failing call event) := by
          rintro (fails | fails)
          · exact marshals fails
          · exact succeeds fails
        split
        · next ok returned =>
            rcases moved with still | ⟨-, -, gs, file, rfl⟩ | ⟨-, failed⟩
            · obtain found | ⟨raw, found, -⟩ | ⟨found, -⟩ := still.value <;>
                rw [returned] at found <;> cases found
            · have reads : (s.shared.step event).read { groupID := s.groupID } = some gs := by
                rw [Shared.read, file]
              refine ⟨ranked, fun gs' reads' h member => ?_, ?_, by rintro _ _ ⟨⟩⟩
              · obtain rfl := Option.some.inj (reads.symm.trans reads')
                rcases List.mem_cons.mp member with rfl | old
                · exact le_rfl
                · exact (above h old).le
              · exact List.pairwise_cons.mpr ⟨above, numbered.descending⟩
            · exact absurd failed passed
        · next unreturned =>
            refine ⟨ranked, saved, numbered.descending, fun call' g' held => ?_⟩
            obtain ⟨rfl, rfl⟩ : call = call' ∧ g = g' := by simpa using locked.symm.trans held
            rcases moved with still | ⟨returned, -⟩ | ⟨-, failed⟩
            · exact ⟨above, still⟩
            · exact absurd returned (unreturned true)
            · exact absurd failed passed

theorem Numbered.restart (numbered : Numbered s) : Numbered s.restart := by
  obtain ⟨gs, reads, -⟩ := numbered.ranked.file
  have saved := numbered.saved gs reads
  rw [Shared.read] at reads
  rw [GroupProcess.restart]
  split
  · next missing =>
      rw [missing] at reads
      cases reads
      exact boot_numbered s.groupID none saved numbered.descending
  · next gs' found =>
      rw [found] at reads
      cases reads
      exact boot_numbered s.groupID (some gs) saved numbered.descending
  · exact numbered

theorem lock_of_closing {call : Nat} (closing : s.closing call = true) :
    ∃ g, s.lock = some (call, some g) := by
  rw [GroupProcess.closing] at closing
  rcases locked : s.lock with _ | ⟨call', _ | g⟩ <;> rw [locked] at closing
  · cases closing
  · simp at closing
  · obtain rfl : call' = call := by simpa using closing
    exact ⟨g, rfl⟩

theorem memory_same {event : Publish.Event GroupState} (unchanged : ∀ f, event ≠ .change f)
    (unsubmitted : ∀ call f, event ≠ .submit call f) :
    (s.shared.step event).memory.generation = s.shared.memory.generation := by
  obtain same | ⟨f, rfl, -⟩ | ⟨call, f, rfl, -⟩ := s.shared.step_memory event
  · rw [same]
  · exact absurd rfl (unchanged f)
  · exact absurd rfl (unsubmitted call f)

theorem Numbered.step (numbered : Numbered s) (event : ProcessEvent) (reliable : s.Reliable event) :
    Numbered (s.step event) := by
  cases event with
  | coordinate event call => exact numbered.coordinate event call reliable
  | commit call made =>
    rw [GroupProcess.step]
    split
    · refine numbered.publish _ trivial ?_ fun _ _ => ⟨by simp, id⟩
      rw [Shared.step]
      split <;> rfl
    · exact numbered
  | marshal call ok =>
    refine numbered.publish _ reliable.1 (memory_same (by simp) (by simp)) fun call' closing => ⟨?_, id⟩
    rintro ⟨⟩
    cases reliable.2 closing
  | write call outcome =>
    refine numbered.publish _ trivial (memory_same (by simp) (by simp)) fun call' closing =>
      ⟨by simp, ?_⟩
    rintro ⟨rfl, failed⟩
    exact failed (reliable closing)
  | rename call ok =>
    refine numbered.publish _ trivial (memory_same (by simp) (by simp)) fun call' closing =>
      ⟨by simp, ?_⟩
    rintro ⟨rfl, failed | ⟨missing, written⟩⟩
    · cases failed.symm.trans (reliable closing)
    · obtain ⟨g, locked⟩ := lock_of_closing closing
      obtain found | ⟨raw, found, -⟩ | ⟨-, raw, there, -⟩ := (numbered.closing call g locked).2.value
      · cases found.symm.trans written
      · cases found.symm.trans written
      · cases missing.symm.trans there
  | restart => exact numbered.restart

theorem step_groupID (event : ProcessEvent) : (s.step event).groupID = s.groupID := by
  have released (s : GroupProcess) : s.release.groupID = s.groupID := by
    rw [release]
    split
    · rfl
    · split <;> rfl
  cases event with
  | coordinate event call =>
    simp only [GroupProcess.step, GroupProcess.coordinate]
    split
    · rfl
    · split <;> rfl
  | commit call made =>
    rw [GroupProcess.step]
    split
    · exact released _
    · rfl
  | restart =>
    simp only [GroupProcess.step, GroupProcess.restart]
    split <;> rfl
  | _ => exact released _

def Rejected (reply : Option Reply) : Prop :=
  reply = some (.code illegalGeneration) ∨ reply = some (.code invalidGroupID) ∨
    reply = some (.sync { errorCode := illegalGeneration }) ∨
    reply = some (.sync { errorCode := invalidGroupID })

theorem older_rejected {generation : Int} (older : s.shared.memory.generation ≠ generation)
    (memberID : String) (now : Int) :
    Rejected (s.outcome (.heartbeat ⟨s.groupID, memberID, generation⟩ now)).2 ∧
      ∀ assignments persists,
        Rejected (s.outcome (.sync ⟨s.groupID, generation, memberID, assignments⟩ now persists)).2 := by
  simp only [outcome, entry]
  cases s.live with
  | none => exact ⟨.inr (.inl rfl), fun _ _ => .inr (.inr (.inr rfl))⟩
  | some group =>
    refine ⟨.inl ?_, fun assignments persists => .inr (.inr (.inl ?_))⟩
    · simp only [Option.map_some, stepEntry, Group.step, LiveGroup.heartbeat, if_pos older]
    · simp only [Option.map_some, stepEntry, Group.step, Group.sync, LiveGroup.syncGroup,
        if_pos older]

end GroupProcess

open GroupProcess in
/-- In every reliable run of a group, over restarts, no generation is handed out by two closed
rounds, and a member of an earlier generation than the last one that was handed out is rejected. -/
theorem generations_handed_once (groupID : String) (file : Option GroupState)
    (events : List ProcessEvent)
    (guarded : Machine.Guarded GroupProcess.step Reliable (boot groupID file []) events) :
    (Machine.exec GroupProcess.step (boot groupID file []) events).handed.Nodup ∧
      ∀ earlier ∈ (Machine.exec GroupProcess.step (boot groupID file []) events).handed.tail,
        ∀ (memberID : String) (now : Int),
          Rejected ((Machine.exec GroupProcess.step (boot groupID file []) events).outcome
            (.heartbeat ⟨groupID, memberID, earlier⟩ now)).2 ∧
          ∀ assignments persists,
            Rejected ((Machine.exec GroupProcess.step (boot groupID file []) events).outcome
              (.sync ⟨groupID, earlier, memberID, assignments⟩ now persists)).2 := by
  have numbered : Numbered (Machine.exec GroupProcess.step (boot groupID file []) events) ∧
      (Machine.exec GroupProcess.step (boot groupID file []) events).groupID = groupID := by
    apply guarded.invariant fun _ s => Numbered s ∧ s.groupID = groupID
    · exact ⟨boot_numbered groupID file nofun List.Pairwise.nil, rfl⟩
    · rintro past s event ⟨numbered, rfl⟩ reliable
      exact ⟨numbered.step event reliable, step_groupID event⟩
  generalize Machine.exec GroupProcess.step (boot groupID file []) events = s at numbered
  obtain ⟨numbered, rfl⟩ := numbered
  refine ⟨numbered.descending.imp ne_of_gt, fun earlier member memberID now => ?_⟩
  obtain ⟨gs, reads, low, -⟩ := numbered.ranked.file
  have newer : earlier < s.shared.memory.generation := by
    have saved := numbered.saved gs reads
    have descending := numbered.descending
    cases handed : s.handed with
    | nil =>
      rw [handed] at member
      cases member
    | cons last rest =>
      rw [handed] at member saved descending
      have bound := saved last List.mem_cons_self
      have below := List.rel_of_pairwise_cons descending member
      omega
  exact older_rejected newer.ne' memberID now

private def rejoined (call : Nat) (round : Nat) : List ProcessEvent :=
  [.coordinate (.join { groupID := "g", memberID := "m" } 0 [] []) 0,
    .coordinate (.expire "g" round []) call]

private def persisted (call : Nat) : List ProcessEvent :=
  [.marshal call true, .write call .done, .rename call true]

theorem restarted_group_advances :
    (Machine.exec GroupProcess.step (.boot "g" none []) (rejoined 1 0 ++ persisted 1 ++
        [.restart] ++ rejoined 1 0 ++ persisted 1)).handed = [2, 1] ∧
      ∀ now, GroupProcess.Rejected ((Machine.exec GroupProcess.step (.boot "g" none [])
        (rejoined 1 0 ++ persisted 1 ++ [.restart] ++ rejoined 1 0 ++ persisted 1)).outcome
          (.heartbeat ⟨"g", "m", 1⟩ now)).2 := by
  have handed : (Machine.exec GroupProcess.step (.boot "g" none []) (rejoined 1 0 ++ persisted 1 ++
      [.restart] ++ rejoined 1 0 ++ persisted 1)).handed = [2, 1] := by decide +kernel
  refine ⟨handed, fun now => ?_⟩
  have earlier := (generations_handed_once "g" none (rejoined 1 0 ++ persisted 1 ++ [.restart] ++
    rejoined 1 0 ++ persisted 1) (by decide +kernel)).2 1 (by rw [handed]; decide) "m" now
  exact earlier.1

private def commitCall (call : Nat) : ProcessEvent := .commit call ⟨"g", "t", 0, 7, 0, "", 0⟩

/-- A generation is handed out twice when the write of the group file fails before a restart, and
when a commit that has marshalled the group earlier renames its file over the newer one. -/
theorem lost_write_repeats_generation :
    (Machine.exec GroupProcess.step (.boot "g" none []) (rejoined 1 0 ++
        [.marshal 1 true, .write 1 .refused, .restart] ++ rejoined 1 0 ++ persisted 1)).handed =
      [1, 1] ∧
    (Machine.exec GroupProcess.step (.boot "g" none []) ([commitCall 5, .marshal 5 true] ++
        rejoined 1 0 ++ persisted 1 ++ [.write 5 .done, .rename 5 true, .restart] ++
        rejoined 1 0 ++ persisted 1)).handed = [1, 1] := by
  decide +kernel

end KafkaWire.Broker
