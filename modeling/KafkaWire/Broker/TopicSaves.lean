import KafkaWire.Broker.TopicSteps
import KafkaWire.Lib.PublishRank

/-! Creations and deletions of different topics, and what `topics.json` holds after them. -/

namespace KafkaWire.Broker

open Machine (Guarded getElem?_set_cases)
open Programs Publish Storage

variable {idx : Nat} {call : TopicCall} {stage : TopicStage}

def TopicCall.looks : TopicCall → Bool
  | .ensure _ _ _ _ => true
  | _ => false

def TopicCall.Creates (b : BrokerState) : TopicCall → Prop
  | .ensure name _ _ _ => b.topics.lookup name = none
  | .create _ _ _ => True
  | .delete _ => False

def TopicStage.Early (b : BrokerState) (call : TopicCall) : TopicStage → Prop
  | .asked | .looked => call.looks = true
  | .creating => True
  | .returned (.error _) => True
  | .returned (.ok _) => call.looks = true ∧ b.topics.lookup call.name ≠ none
  | .saving _ | .forgetting | .dropping _ | .removing _ _ => False

def TopicStage.Late (t : Option Topic) (save : Option (Stage (Table TopicConfig))) : TopicStage → Prop
  | .saving t' => t' = t
  | .forgetting | .dropping _ | .removing _ _ => t = none ∧ save = some (.returned true)
  | .returned (.error _) => True
  | .returned (.ok t') => t' = t ∧ save = some (.returned true)
  | .asked | .looked | .creating => False

inductive CallSaves (b : BrokerState) (files : Shared (Table TopicConfig)) (idx : Nat)
    (call : TopicCall) (stage : TopicStage) : Prop
  | before (unsubmitted : files.calls.lookup idx = none) (early : stage.Early b call)
  | after (t : Option Topic)
      (landing : Landing (fun topics : Table TopicConfig =>
        topics.lookup call.name = t.map Topic.cfg) ∅ idx files)
      (deletes : call.deletes = t.isNone)
      (owner : ∀ topic, t = some topic → topic.cfg.ownerTenantID = call.tenantID)
      (count : ∀ topic, t = some topic → topic.cfg.numPartitions = topic.partitions.length)
      (late : stage.Late t (files.calls.lookup idx))

structure Saves (b : BrokerState) (s : TopicRace) : Prop where
  memory : ∀ name, s.files.memory.lookup name = (s.broker.topics.lookup name).map Topic.cfg
  distinct : (s.calls.map fun entry => entry.1.name).Nodup
  unsubmitted : ∀ idx, s.calls.length ≤ idx → s.files.calls.lookup idx = none
  orderly : Ranked (fun _ => 0) ∅ s.files
  free : ∀ name, b.topics.lookup name = none → s.broker.topics.lookup name = none ∨
    ∃ idx call stage, s.calls[idx]? = some (call, stage) ∧ call.name = name ∧
      idx ∈ s.files.calls
  calls : ∀ idx call stage, s.calls[idx]? = some (call, stage) → CallSaves b s.files idx call stage

/-- Calls are about different topics, and no call takes its snapshot of the registry while another
is between its snapshot and its rename. -/
def TopicRace.SavesApart (s : TopicRace) : TopicEvent → Prop
  | .called call => ∀ entry ∈ s.calls, entry.1.name ≠ call.name
  | .snapshot idx ok => s.files.Exclusive (.marshal idx ok)
  | _ => True

instance (s : TopicRace) (event : TopicEvent) : Decidable (s.SavesApart event) :=
  match event with
  | .called _ => inferInstanceAs (Decidable (∀ entry ∈ s.calls, _))
  | .snapshot idx ok => inferInstanceAs (Decidable (s.files.Exclusive (.marshal idx ok)))
  | .advanced _ _ | .wrote _ _ | .renamed _ _ | .appended _ _ _ _ => isTrue trivial

variable {b : BrokerState} {s : TopicRace}

theorem CallSaves.step
    (saves : CallSaves b s.files idx call stage) (event : Publish.Event (Table TopicConfig))
    (exclusive : s.files.Exclusive event)
    (kept : (s.files.step event).memory.lookup call.name = s.files.memory.lookup call.name)
    (other : ∀ f, event ≠ .submit idx f) : CallSaves b (s.files.step event) idx call stage := by
  cases saves with
  | before unsubmitted early =>
    refine .before ?_ early
    rw [step_lookup_settled event (.inl ⟨unsubmitted, other⟩), unsubmitted]
  | after t landing deletes owner count late =>
    refine .after t (landing.step event exclusive (fun holds => kept.trans holds)
      fun f is => absurd is (other f)) deletes owner count ?_
    have settled (returned : s.files.calls.lookup idx = some (.returned true)) :
        (s.files.step event).calls.lookup idx = some (.returned true) := by
      rw [step_lookup_settled event (.inr ⟨true, returned⟩), returned]
    match stage, late with
    | .saving t', late => exact late
    | .forgetting, late => exact ⟨late.1, settled late.2⟩
    | .dropping _, late => exact ⟨late.1, settled late.2⟩
    | .removing _ _, late => exact ⟨late.1, settled late.2⟩
    | .returned (.error _), late => exact late
    | .returned (.ok t'), late => exact ⟨late.1, settled late.2⟩

section Steps

variable (saves : Saves b s)

include saves

theorem Saves.same_call {idx' : Nat} {call' : TopicCall}
    {stage' : TopicStage} (found : s.calls[idx]? = some (call, stage))
    (found' : s.calls[idx']? = some (call', stage')) (same : call.name = call'.name) : idx = idx' := by
  obtain ⟨inside, -⟩ := List.getElem?_eq_some_iff.mp found
  refine (List.getElem?_inj ((List.length_map _).symm ▸ inside) saves.distinct).mp ?_
  rw [List.getElem?_map, List.getElem?_map, found, found']
  exact congrArg some same

theorem Saves.files_step (event : Publish.Event (Table TopicConfig))
    (exclusive : s.files.Exclusive event) (kept : (s.files.step event).memory = s.files.memory)
    (other : ∀ idx f, event ≠ .submit idx f) :
    Saves b { s with files := s.files.step event } := by
  refine ⟨fun name => ?_, saves.distinct, fun idx beyond => ?_,
    saves.orderly.step event exclusive le_rfl, fun name absent => ?_, fun idx call stage found => ?_⟩
  · rw [← saves.memory name, kept]
  · have unsubmitted := saves.unsubmitted idx beyond
    exact (step_lookup_settled event (.inl ⟨unsubmitted, other idx⟩)).trans unsubmitted
  · rcases saves.free name absent with free | ⟨idx, call, stage, found, named, known⟩
    · exact .inl free
    · exact .inr ⟨idx, call, stage, found, named, mem_calls_step event known⟩
  · exact (saves.calls idx call stage found).step event exclusive (by rw [kept]) (other idx)

theorem Saves.move {old : TopicStage}
    {broker : BrokerState} (same : SameTopics s.broker broker)
    (found : s.calls[idx]? = some (call, old)) (next : CallSaves b s.files idx call stage) :
    Saves b { s with broker := broker, calls := s.calls.set idx (call, stage) } := by
  refine ⟨fun name => ?_, ?_, fun other beyond => ?_, saves.orderly, fun name absent => ?_,
    fun other call' stage' there => ?_⟩
  · rw [same name]
    exact saves.memory name
  · rw [map_set_same (fun entry => entry.1.name) found (call, stage) rfl]
    exact saves.distinct
  · exact saves.unsubmitted other (by rwa [List.length_set] at beyond)
  · rcases saves.free name absent with free | ⟨other, call', stage', there, named, known⟩
    · refine .inl (Option.map_eq_none_iff.mp ((same name).trans ?_))
      rw [free]
      rfl
    · by_cases here : other = idx
      · subst here
        obtain ⟨rfl, rfl⟩ := Prod.mk.inj (Option.some.inj (there.symm.trans found))
        obtain ⟨inside, -⟩ := List.getElem?_eq_some_iff.mp found
        exact .inr ⟨other, call', stage, List.getElem?_set_self inside, named, known⟩
      · refine .inr ⟨other, call', stage', ?_, named, known⟩
        exact (List.getElem?_set_ne (Ne.symm here)).trans there
  · obtain ⟨rfl, is⟩ | ⟨-, there⟩ := getElem?_set_cases there
    · obtain ⟨rfl, rfl⟩ := Prod.mk.inj is
      exact next
    · exact saves.calls other call' stage' there

theorem Saves.waiting {old : TopicStage} {broker : BrokerState} (same : SameTopics s.broker broker)
    (found : s.calls[idx]? = some (call, old)) (unsaved : ∀ t save, ¬ old.Late t save)
    (next : s.files.calls.lookup idx = none → old.Early b call → stage.Early b call) :
    Saves b { s with broker := broker, calls := s.calls.set idx (call, stage) } := by
  refine saves.move same found ?_
  cases saves.calls idx call _ found with
  | before unsubmitted early => exact .before unsubmitted (next unsubmitted early)
  | after t landing deletes owner count late => exact (unsaved _ _ late).elim

theorem Saves.registered {t : Option Topic}
    {broker : BrokerState} (found : s.calls[idx]? = some (call, .creating))
    (made : Registered s.broker broker call t) :
    Saves b
      { broker := broker
        files := s.files.step (.submit idx fun _ => configs broker)
        calls := s.calls.set idx (call, .saving t) } := by
  have unsubmitted : s.files.calls.lookup idx = none := by
    cases saves.calls idx call _ found with
    | before unsubmitted early => exact unsubmitted
    | after t landing deletes owner count late => exact late.elim
  have fresh : idx ∉ s.files.calls := by
    rw [← AList.lookup_isSome, unsubmitted]
    exact Bool.false_ne_true
  have memory : (s.files.step (.submit idx fun _ => configs broker)).memory = configs broker := by
    rw [Shared.step, if_neg fresh]
  have lookup (name : String) (other : name ≠ call.name) :
      (s.files.step (.submit idx fun _ => configs broker)).memory.lookup name =
        s.files.memory.lookup name := by
    rw [memory, configs_lookup, made.topics, if_neg other, saves.memory]
  have different {other : Nat} (apart : other ≠ idx) :
      ∀ f, Publish.Event.submit idx (fun _ => configs broker) ≠ .submit other f := by
    rintro f ⟨⟩
    exact apart rfl
  obtain ⟨inside, -⟩ := List.getElem?_eq_some_iff.mp found
  refine ⟨fun name => ?_, ?_, fun other beyond => ?_, saves.orderly.step (.submit idx fun _ => configs broker) trivial le_rfl,
    fun name absent => ?_, fun other call' stage there => ?_⟩
  · rw [memory, configs_lookup]
  · rw [map_set_same (fun entry => entry.1.name) found (call, .saving t) rfl]
    exact saves.distinct
  · rw [List.length_set] at beyond
    have before := saves.unsubmitted other beyond
    exact (step_lookup_settled _ (.inl ⟨before, different (by omega)⟩)).trans before
  · by_cases here : name = call.name
    · refine .inr ⟨idx, call, _, List.getElem?_set_self inside, here.symm, ?_⟩
      rw [Shared.step, if_neg fresh]
      exact (AList.mem_insert _).mpr (.inl rfl)
    · rcases saves.free name absent with free | ⟨other, call', stage, there, named, known⟩
      · exact .inl (by rw [made.topics, if_neg here, free])
      · have apart : other ≠ idx := by
          rintro rfl
          obtain ⟨rfl, -⟩ := Prod.mk.inj (Option.some.inj (there.symm.trans found))
          exact here named.symm
        exact .inr ⟨other, call', stage, (List.getElem?_set_ne apart.symm).trans there, named,
          mem_calls_step _ known⟩
  · obtain ⟨rfl, is⟩ | ⟨apart, there⟩ := getElem?_set_cases there
    · obtain ⟨rfl, rfl⟩ := Prod.mk.inj is
      refine .after t ?_ made.deletes made.owner made.count rfl
      have holds : (configs broker).lookup call'.name = t.map Topic.cfg := by
        rw [configs_lookup, made.topics, if_pos rfl]
      refine (saves.orderly.unsubmitted unsubmitted).step (.submit other fun _ => configs broker)
        trivial (fun _ => ?_) ?_
      · rw [memory]
        exact holds
      · rintro f ⟨⟩ -
        exact holds
    · have names : call'.name ≠ call.name := fun same => apart (saves.same_call there found same)
      exact (saves.calls other call' stage there).step (.submit idx fun _ => configs broker) trivial
        (lookup _ names) (different apart)

theorem Saves.found_known
    {t : Topic} (found : s.calls[idx]? = some (call, stage))
    (unsubmitted : s.files.calls.lookup idx = none)
    (there : s.broker.topics.lookup call.name = some t) : b.topics.lookup call.name ≠ none := by
  intro absent
  rcases saves.free call.name absent with free | ⟨other, call', stage', there', named, known⟩
  · cases there.symm.trans free
  · obtain rfl := saves.same_call there' found named
    rw [← AList.lookup_isSome, unsubmitted] at known
    exact Bool.false_ne_true known

theorem Saves.advanced {answers : List Answer} {s' : TopicRace}
    (moved : s.Advanced idx answers s') : Saves b s' := by
  have stays : SameTopics s.broker s.broker := fun _ => rfl
  cases moved with
  | waits => exact saves
  | missed call found free => exact saves.waiting stays found (fun _ _ => id) fun _ => id
  | found call t found there =>
    rcases found with found | found
    all_goals exact saves.waiting stays found (fun _ _ => id) fun unsubmitted early =>
      ⟨early, saves.found_known found unsubmitted there⟩
  | allowed call found free auto => exact saves.waiting stays found (fun _ _ => id) fun _ _ => trivial
  | refused call err found =>
    rcases found with ⟨found, -⟩ | ⟨found, -⟩
    all_goals exact saves.waiting stays found (fun _ _ => id) fun _ _ => trivial
  | registered call t broker found checked ran =>
    have made := (onRegistry_spec call { s.broker with script := answers }).of_ok ran
    exact saves.registered found
      ⟨made.topics, made.cfg, made.deletes, made.free, made.owner, made.count⟩
  | failed call err broker found ran =>
    have same := ((onRegistry_spec call { s.broker with script := answers }).of_error ran).1
    exact saves.waiting same found (fun _ _ => id) fun _ _ => trivial
  | saved call t ok found done =>
    refine saves.move stays found ?_
    cases saves.calls idx call _ found with
    | before unsubmitted early => exact early.elim
    | after t' landing deletes owner count late =>
      obtain rfl : t = t' := late
      refine .after t landing deletes owner count ?_
      rw [done]
      cases ok with
      | false => exact trivial
      | true =>
        cases call with
        | delete name => exact ⟨Option.isNone_iff_eq_none.mp deletes.symm, rfl⟩
        | ensure | create => exact ⟨rfl, rfl⟩
  | cleaned call old prog next done broker found step ran =>
    have kept := (TopicRace.cleanUp_ok step { s.broker with script := answers }).of_ok ran
    refine saves.move (.of_eq kept.1) found ?_
    cases saves.calls idx call _ found with
    | before unsubmitted early => cases step <;> exact early.elim
    | after t landing deletes owner count late =>
      refine .after t landing deletes owner count ?_
      cases step with
      | forget => exact late
      | drop forgotten => exact late
      | remove forgotten dropped =>
        dsimp only
        split
        · exact ⟨late.1.symm, late.2⟩
        · exact trivial

theorem Saves.called (call : TopicCall)
    (different : ∀ entry ∈ s.calls, entry.1.name ≠ call.name) : Saves b (s.step (.called call)) := by
  refine ⟨saves.memory, ?_, fun idx beyond => ?_, saves.orderly, fun name absent => ?_,
    fun idx call' stage found => ?_⟩
  · rw [TopicRace.step, List.map_append, List.map_singleton]
    refine List.nodup_append.mpr ⟨saves.distinct, List.nodup_singleton _, ?_⟩
    intro name member name' new
    obtain ⟨entry, there, rfl⟩ := List.mem_map.mp member
    rw [List.mem_singleton.mp new]
    exact different entry there
  · rw [TopicRace.step, List.length_append] at beyond
    exact saves.unsubmitted idx (by omega)
  · rcases saves.free name absent with free | ⟨idx, call', stage, found, named, known⟩
    · exact .inl free
    · obtain ⟨inside, -⟩ := List.getElem?_eq_some_iff.mp found
      exact .inr ⟨idx, call', stage, (List.getElem?_append_left inside).trans found, named, known⟩
  · rw [TopicRace.step, List.getElem?_append] at found
    split at found
    · exact saves.calls idx call' stage found
    · next beyond =>
        obtain ⟨rfl, rfl⟩ := Prod.mk.inj (List.mem_singleton.mp (List.mem_of_getElem? found))
        refine .before (saves.unsubmitted idx (by omega)) ?_
        match call' with
        | .ensure _ _ _ true => exact rfl
        | .ensure _ _ _ false => exact rfl
        | .create _ _ _ => exact trivial
        | .delete _ => exact trivial

theorem Saves.step (event : TopicEvent) (apart : s.SavesApart event) :
    Saves b (s.step event) := by
  have unchanged (event : Publish.Event (Table TopicConfig)) (noChange : ∀ f, event ≠ .change f)
      (noSubmit : ∀ idx f, event ≠ .submit idx f) :
      (s.files.step event).memory = s.files.memory := by
    rcases s.files.step_memory event with same | ⟨f, is, -⟩ | ⟨idx, f, is, -⟩
    · exact same
    · exact absurd is (noChange f)
    · exact absurd is (noSubmit idx f)
  cases event with
  | called call => exact saves.called call apart
  | advanced idx answers => exact saves.advanced (s.advance_advanced idx answers)
  | snapshot idx ok => exact saves.files_step _ apart (unchanged _ nofun nofun) nofun
  | wrote idx outcome => exact saves.files_step _ trivial (unchanged _ nofun nofun) nofun
  | renamed idx ok => exact saves.files_step _ trivial (unchanged _ nofun nofun) nofun
  | appended name partition batches answers =>
    have same := (appended_shapes name partition batches answers s.broker).1.topics
    refine ⟨fun other => (saves.memory other).trans (same other).symm, saves.distinct,
      saves.unsubmitted, saves.orderly, fun other absent => ?_, saves.calls⟩
    rcases saves.free other absent with free | known
    · refine .inl (Option.map_eq_none_iff.mp ((same other).trans ?_))
      rw [free]
      rfl
    · exact .inr known

end Steps

theorem Saves.start (b : BrokerState) : Saves b (.start b) := by
  have none' (idx : Nat) : (∅ : AList fun _ : Nat => Stage (Table TopicConfig)).lookup idx = none :=
    AList.lookup_empty idx
  refine ⟨configs_lookup b, List.nodup_nil, fun idx _ => none' idx, ?_, fun name => .inl,
    fun idx call stage found => nomatch List.getElem?_nil.symm.trans found⟩
  have closed (idx : Nat) : ¬ (TopicRace.start b).files.InWindow idx := by
    rintro (⟨raw, found⟩ | found) <;> cases (none' idx).symm.trans found
  exact .alone 0 b.topicsFile (fun other here => absurd here (closed other)) rfl le_rfl
    (fun raw found => absurd (.inl ⟨raw, found⟩) (closed 0))
    fun found => absurd (.inr found) (closed 0)

/-- If different topics are created and deleted at the same time, and no call takes its snapshot
of the registry while another is between its snapshot and its rename, then the file has every topic
whose creation has returned and none whose deletion has. -/
theorem topics_saved_apart (b : BrokerState) (events : List TopicEvent)
    (apart : Guarded TopicRace.step TopicRace.SavesApart (.start b) events) :
    ∃ file, (TopicRace.run b events).files.read ∅ = some file ∧
      (∀ (idx : Nat) (call : TopicCall) (t : Topic),
        (TopicRace.run b events).calls[idx]? = some (call, .returned (.ok (some t))) →
        call.Creates b →
        file.lookup call.name = some t.cfg ∧ t.cfg.ownerTenantID = call.tenantID ∧
          t.cfg.numPartitions = t.partitions.length) ∧
      ∀ (idx : Nat) (name : String) (result : Option Topic),
        (TopicRace.run b events).calls[idx]? = some (.delete name, .returned (.ok result)) →
        file.lookup name = none := by
  have saves : Saves b (TopicRace.run b events) := by
    apply apart.invariant fun _ s => Saves b s
    · exact .start b
    · intro past s event saves apart
      exact saves.step event apart
  obtain ⟨file, reads, -⟩ := saves.orderly.file
  refine ⟨file, reads, fun idx call t found creates => ?_, fun idx name result found => ?_⟩
  · cases saves.calls idx call _ found with
    | before unsubmitted early =>
      cases call with
      | ensure name partitions tenantID appends => exact absurd creates early.2
      | create name partitions factor => cases early.1
      | delete name => cases early.1
    | after t' landing deletes owner count late =>
      obtain ⟨rfl, returned⟩ := late
      obtain ⟨-, file', reads', holds⟩ := landing.landed returned
      obtain rfl := Option.some.inj (reads.symm.trans reads')
      exact ⟨holds, owner t rfl, count t rfl⟩
  · cases saves.calls idx _ _ found with
    | before unsubmitted early => cases early.1
    | after t' landing deletes owner count late =>
      obtain ⟨rfl, returned⟩ := late
      obtain ⟨-, file', reads', holds⟩ := landing.landed returned
      obtain rfl := Option.some.inj (reads.symm.trans reads')
      rw [Option.isNone_iff_eq_none.mp deletes.symm] at holds
      exact holds

private def producing (name : String) : TopicCall := .ensure name 2 "T" true

private def returnedConfigs (s : TopicRace) : List (TopicCall × Option TopicConfig) :=
  s.calls.map fun entry => match entry with
    | (call, .returned (.ok (some t))) => (call, some t.cfg)
    | (call, _) => (call, none)

private theorem returned_topic {s : TopicRace} {cfg : TopicConfig}
    (shown : (returnedConfigs s)[idx]? = some (call, some cfg)) :
    ∃ t, s.calls[idx]? = some (call, .returned (.ok (some t))) ∧ t.cfg = cfg := by
  rw [returnedConfigs, List.getElem?_map] at shown
  obtain ⟨entry, found, shown⟩ := Option.map_eq_some_iff.mp shown
  split at shown
  · next call' t =>
      obtain ⟨rfl, is⟩ := Prod.mk.inj shown
      exact ⟨t, found, Option.some.inj is⟩
  · cases (Prod.mk.inj shown).2

private def ownedByT : TopicConfig := ⟨2, 1, -1, -1, 1000, "T"⟩

private def arrive : List TopicEvent := [.called (producing "a"), .called (producing "b")]

private def register (idx : Nat) : List TopicEvent :=
  [.advanced idx [], .advanced idx [], .advanced idx []]

private def snapshot (idx : Nat) : List TopicEvent := [.snapshot idx true]

private def publish (idx : Nat) : List TopicEvent :=
  [.wrote idx .done, .renamed idx true, .advanced idx []]

private def oneAfterTheOther : List TopicEvent :=
  arrive ++ register 0 ++ register 1 ++ snapshot 1 ++ publish 1 ++ snapshot 0 ++ publish 0

theorem topic_saved_after_other :
    ∃ t file, (TopicRace.run idleBroker oneAfterTheOther).calls[1]? =
        some (producing "b", .returned (.ok (some t))) ∧
      (TopicRace.run idleBroker oneAfterTheOther).files.read ∅ = some file ∧
      file.lookup "b" = some t.cfg ∧ t.cfg = ownedByT := by
  obtain ⟨t, found, cfg⟩ := returned_topic (show
    (returnedConfigs (TopicRace.run idleBroker oneAfterTheOther))[1]? =
      some (producing "b", some ownedByT) by decide +kernel)
  obtain ⟨file, reads, created, -⟩ :=
    topics_saved_apart idleBroker oneAfterTheOther (by decide +kernel)
  exact ⟨t, file, found, reads, (created 1 _ t found rfl).1, cfg⟩

private def olderRenamedLast : List TopicEvent :=
  arrive ++ register 0 ++ snapshot 0 ++ register 1 ++ snapshot 1 ++ publish 1 ++ publish 0

/-- Both requests have returned their topics, and one of the topics is not in the file. -/
theorem older_snapshot_loses_topic :
    ∃ t u file, (TopicRace.run idleBroker olderRenamedLast).calls.length = 2 ∧
      (TopicRace.run idleBroker olderRenamedLast).calls[0]? =
        some (producing "a", .returned (.ok (some t))) ∧
      (TopicRace.run idleBroker olderRenamedLast).calls[1]? =
        some (producing "b", .returned (.ok (some u))) ∧
      (TopicRace.run idleBroker olderRenamedLast).files.read ∅ = some file ∧
      file.lookup "b" = none := by
  have shown (idx : Nat) (name : String)
      (is : (returnedConfigs (TopicRace.run idleBroker olderRenamedLast))[idx]? =
        some (producing name, some ownedByT)) := returned_topic is
  obtain ⟨t, first, -⟩ := shown 0 "a" (by decide +kernel)
  obtain ⟨u, second, -⟩ := shown 1 "b" (by decide +kernel)
  have lost : ((TopicRace.run idleBroker olderRenamedLast).files.read ∅).map
      (fun file => file.lookup "b") = some none := by decide +kernel
  obtain ⟨file, reads, absent⟩ := Option.map_eq_some_iff.mp lost
  exact ⟨t, u, file, by decide +kernel, first, second, reads, absent⟩

end KafkaWire.Broker
