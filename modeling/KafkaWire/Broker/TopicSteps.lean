import KafkaWire.Broker.RaceEffects
import KafkaWire.Broker.TopicRace

/-! What a step of a creation or a deletion can do. -/

namespace KafkaWire.Broker

open Paths (Path)
open Programs Publish Storage Tiering

variable (name : String)

inductive CleanUp (name : String) : TopicStage → BrokerM Bool → (Bool → TopicStage) → Prop
  | forget : CleanUp name .forgetting (forgetArchive name) .dropping
  | drop (forgotten : Bool) :
      CleanUp name (.dropping forgotten) (dropCached name) (.removing forgotten)
  | remove (forgotten dropped : Bool) :
      CleanUp name (.removing forgotten dropped) (removeTopicDir name) fun removed =>
        .returned (if forgotten && dropped && removed then .ok none
          else .error (.cleanup (!forgotten) (!dropped) (!removed)))

namespace TopicRace

def opens (s : TopicRace) (idx : Nat) (answers : List Answer) : Bool :=
  match s.calls[idx]? with
  | some (call, .creating) =>
    match onRegistry call { s.broker with script := answers } with
    | .error (.openPartition _ _) _ => false
    | _ => true
  | _ => true

inductive Advanced (s : TopicRace) (idx : Nat) (answers : List Answer) : TopicRace → Prop
  | waits (idle : ∀ call stage, s.calls[idx]? = some (call, stage) →
      (∃ result, stage = .returned result) ∨
        (∃ t, stage = .saving t) ∧ ∀ ok, s.files.calls.lookup idx ≠ some (.returned ok)) :
      Advanced s idx answers s
  | missed (call : TopicCall) (stage : s.calls[idx]? = some (call, .asked))
      (free : s.broker.topics.lookup call.name = none) :
      Advanced s idx answers (s.setStage idx call .looked)
  | found (call : TopicCall) (t : Topic)
      (stage : s.calls[idx]? = some (call, .asked) ∨ s.calls[idx]? = some (call, .looked))
      (there : s.broker.topics.lookup call.name = some t) :
      Advanced s idx answers (s.setStage idx call (.returned (.ok (some t))))
  | allowed (call : TopicCall) (stage : s.calls[idx]? = some (call, .looked))
      (free : s.broker.topics.lookup call.name = none)
      (auto : s.broker.cfg.autoCreateTopics = true) :
      Advanced s idx answers (s.setStage idx call .creating)
  | refused (call : TopicCall) (err : BrokerErr)
      (stage : s.calls[idx]? = some (call, .looked) ∧ s.broker.cfg.autoCreateTopics = false ∨
        s.calls[idx]? = some (call, .creating) ∧ call.check = .error err) :
      Advanced s idx answers (s.setStage idx call (.returned (.error err)))
  | registered (call : TopicCall) (t : Option Topic) (b : BrokerState)
      (stage : s.calls[idx]? = some (call, .creating)) (checked : call.check = .ok ())
      (ran : onRegistry call { s.broker with script := answers } = .ok t b) :
      Advanced s idx answers
        { broker := b
          files := s.files.step (.submit idx fun _ => configs b)
          calls := s.calls.set idx (call, .saving t) }
  | failed (call : TopicCall) (err : BrokerErr) (b : BrokerState)
      (stage : s.calls[idx]? = some (call, .creating))
      (ran : onRegistry call { s.broker with script := answers } = .error err b) :
      Advanced s idx answers
        { s with broker := b, calls := s.calls.set idx (call, .returned (.error err)) }
  | saved (call : TopicCall) (t : Option Topic) (ok : Bool)
      (stage : s.calls[idx]? = some (call, .saving t))
      (done : s.files.calls.lookup idx = some (.returned ok)) :
      Advanced s idx answers (s.setStage idx call (saved call t ok))
  | cleaned (call : TopicCall) (old : TopicStage) (prog : BrokerM Bool) (next : Bool → TopicStage)
      (done : Bool) (b : BrokerState) (stage : s.calls[idx]? = some (call, old))
      (step : CleanUp call.name old prog next)
      (ran : prog { s.broker with script := answers } = .ok done b) :
      Advanced s idx answers { s with broker := b, calls := s.calls.set idx (call, next done) }

theorem cleanUp_ok {name : String} {old : TopicStage} {prog : BrokerM Bool}
    {next : Bool → TopicStage} (step : CleanUp name old prog next) (b : BrokerState) :
    Yields prog b (fun _ b' => b'.topics = b.topics ∧ b'.cfg = b.cfg) fun _ _ => False := by
  have archive (default : Unit) (act : Archive → Unit × Archive) (b : BrokerState) :
      Yields (onArchive default act) b (fun _ b' => b'.topics = b.topics ∧ b'.cfg = b.cfg)
        fun _ _ => False := by
    rw [onArchive, yields_modifyGet]
    split <;> exact ⟨rfl, rfl⟩
  cases step with
  | forget =>
    simp only [forgetArchive, yields_bind, yields_answer]
    exact archive _ _ _
  | drop forgotten =>
    simp only [dropCached, yields_bind, yields_answer]
    exact archive _ _ _
  | remove forgotten dropped =>
    simp only [removeTopicDir, yields_bind, yields_config, yields_answer]
    split <;> exact ⟨rfl, rfl⟩

theorem advance_advanced (s : TopicRace) (idx : Nat) (answers : List Answer) :
    s.Advanced idx answers (s.advance idx answers) := by
  have cleaned {call : TopicCall} {old : TopicStage} {prog : BrokerM Bool} {next : Bool → TopicStage}
      (stage : s.calls[idx]? = some (call, old)) (step : CleanUp call.name old prog next) :
      s.Advanced idx answers (s.cleanUp idx call answers prog next) := by
    have ok := cleanUp_ok step { s.broker with script := answers }
    rw [cleanUp]
    split
    · next done b ran => exact .cleaned call old prog next done b stage step ran
    · next err b ran => exact (ok.of_error ran).elim
  rw [advance]
  split
  · next absent => exact .waits fun call stage found => nomatch absent.symm.trans found
  · next call stage =>
      split
      · next t there => exact .found call t (.inl stage) there
      · next free => exact .missed call stage free
  · next call stage =>
      split
      · next t there => exact .found call t (.inr stage) there
      · next free =>
          split
          · next auto => exact .allowed call stage free auto
          · next off => exact .refused call _ (.inl ⟨stage, Bool.not_eq_true _ ▸ off⟩)
  · next call stage =>
      rw [register]
      split
      · next err bad => exact .refused call err (.inr ⟨stage, bad⟩)
      · next good =>
          split
          · next t b ran => exact .registered call t b stage good ran
          · next err b ran => exact .failed call err b stage ran
  · next call t stage =>
      split
      · next ok done => exact .saved call t ok stage done
      · next busy =>
          refine .waits fun call' stage' found => .inr ?_
          obtain ⟨-, rfl⟩ := Prod.mk.inj (Option.some.inj (found.symm.trans stage))
          exact ⟨⟨t, rfl⟩, busy⟩
  · next call stage => exact cleaned stage .forget
  · next call forgotten stage => exact cleaned stage (.drop forgotten)
  · next call forgotten dropped stage => exact cleaned stage (.remove forgotten dropped)
  · next call result stage =>
      refine .waits fun call' stage' found => .inl ⟨result, ?_⟩
      exact (Prod.mk.inj (Option.some.inj (found.symm.trans stage))).2

end TopicRace

theorem map_set_same {α β : Type} (g : α → β) {list : List α} {idx : Nat} {old : α}
    (found : list[idx]? = some old) (new : α) (same : g new = g old) : (list.set idx new).map g = list.map g := by
  obtain ⟨inside, -⟩ := List.getElem?_eq_some_iff.mp found
  rw [List.map_set]
  refine List.ext_getElem? fun other => ?_
  rw [List.getElem?_set]
  split
  · next equal =>
      subst equal
      rw [List.getElem?_map, found, if_pos (by rwa [List.length_map]), Option.map_some, same]
  · rfl

section Registry

def TopicCall.tenantID : TopicCall → String
  | .ensure _ _ tenantID _ => tenantID
  | .create _ _ _ => ""
  | .delete _ => ""

def TopicCall.deletes : TopicCall → Bool
  | .delete _ => true
  | _ => false

theorem registryCreate_count (cfg : TopicConfig) (b : BrokerState) :
    Yields (registryCreate name cfg) b
      (fun t _ => t.cfg.numPartitions = t.partitions.length) fun _ _ => True := by
  rw [registryCreate]
  split
  · trivial
  · simp only [yields_bind, yields_getTopic]
    split
    · trivial
    · simp only [yields_bind, putTopic, yields_modify, yields_pure]
      have none' : OpenedAll b.cfg b.nextLog b.nextLog name [] := by
        intro idx l found
        cases found
      refine (openPartitions_spec name _ [] (Outside.refl b) none').mono ?_ fun _ _ _ => trivial
      rintro parts b' ⟨-, -, length⟩
      rw [length]
      split
      · rfl
      · simp
        omega

theorem registryCreate_failure (cfg : TopicConfig) (b : BrokerState) :
    Yields (registryCreate name cfg) b (fun _ _ => True) fun err b' =>
      b' = b ∧ (name = "" ∨ b.topics.lookup name ≠ none) ∨
        ∃ partition cause, err = .openPartition partition cause := by
  have opening (count : Nat) (partition : Int) (parts : List LogHandle) (b : BrokerState) :
      Yields (openPartitions name count partition parts) b (fun _ _ => True)
        fun err _ => ∃ partition cause, err = .openPartition partition cause := by
    induction count generalizing partition parts b with
    | zero => trivial
    | succ count ih =>
      simp only [openPartitions, yields_bind]
      refine (openPartition_spec name partition b).mono ?_ fun _ _ impossible => impossible.elim
      rintro (err | l) b' -
      · simp only [yields_bind]
        refine (closePartitions_outside parts b').mono ?_ fun _ _ impossible => impossible.elim
        exact fun _ _ _ => ⟨partition, err, rfl⟩
      · exact ih _ _ _
  rw [registryCreate]
  split
  · next empty => exact .inl ⟨rfl, .inl empty⟩
  · simp only [yields_bind, yields_getTopic]
    rcases found : b.topics.lookup name with _ | t
    · simp only [yields_bind, putTopic, yields_modify, yields_pure]
      exact (opening _ _ _ _).mono (fun _ _ _ => trivial) fun _ _ failed => .inr failed
    · exact .inl ⟨rfl, .inr (Option.some_ne_none t)⟩

/-- What is registered under the call's name is what the call has made: a topic whose name was
free, or nothing. -/
structure Registered (b b' : BrokerState) (call : TopicCall) (t : Option Topic) : Prop where
  topics : ∀ name, b'.topics.lookup name = if name = call.name then t else b.topics.lookup name
  cfg : b'.cfg = b.cfg
  deletes : call.deletes = t.isNone
  free : ∀ topic, t = some topic → b.topics.lookup call.name = none
  owner : ∀ topic, t = some topic → topic.cfg.ownerTenantID = call.tenantID
  count : ∀ topic, t = some topic → topic.cfg.numPartitions = topic.partitions.length

def SameTopics (b b' : BrokerState) : Prop :=
  ∀ name, (b'.topics.lookup name).map Topic.cfg = (b.topics.lookup name).map Topic.cfg

theorem SameTopics.of_eq {b b' : BrokerState} (same : b'.topics = b.topics) : SameTopics b b' :=
  fun name => by rw [same]

theorem onRegistry_creates (call : TopicCall) (creates : call.deletes = false) (b : BrokerState) :
    Yields (TopicRace.onRegistry call) b (fun t b' => Registered b b' call t)
      fun _ b' => SameTopics b b' ∧ b'.cfg = b.cfg := by
  have owner (cfg : Config) : (call.config cfg).ownerTenantID = call.tenantID := by
    cases call <;> rfl
  have made : Yields (registryCreate call.name (call.config b.cfg)) b
      (fun t b' => Registered b b' call (some t)) fun _ b' => SameTopics b b' ∧ b'.cfg = b.cfg := by
    have count := registryCreate_count call.name (call.config b.cfg) b
    have created := registryCreate_spec call.name (call.config b.cfg) b
    rcases ran : registryCreate call.name (call.config b.cfg) b with ⟨t, b'⟩ | ⟨err, b'⟩
    · have created := created.of_ok ran
      have count := count.of_ok ran
      rw [Yields, ran]
      refine ⟨fun name => ?_, created.cfg, creates, ?_, ?_, ?_⟩
      · rw [created.topics, Tables.lookup_insert_eq]
      all_goals
        rintro topic ⟨⟩
      · exact created.free
      · exact created.owner.trans (owner b.cfg)
      · exact count
    · have outside := created.of_error ran
      rw [Yields, ran]
      exact ⟨.of_eq outside.topics, outside.cfg⟩
  cases call with
  | delete name => cases creates
  | ensure | create =>
    simp only [TopicRace.onRegistry, yields_bind, yields_config, yields_pure]
    exact made

theorem onRegistry_deletes (b : BrokerState) :
    Yields (TopicRace.onRegistry (.delete name)) b (fun t b' => Registered b b' (.delete name) t)
      fun _ b' => SameTopics b b' ∧ b'.cfg = b.cfg := by
  simp only [TopicRace.onRegistry, yields_bind, yields_pure]
  refine (registryDelete_spec name b).mono ?_ ?_
  · rintro - b' ⟨b'', outside, rfl, -⟩
    refine ⟨fun other => ?_, outside.cfg, rfl, nofun, nofun, nofun⟩
    exact Tables.lookup_erase_eq _ _ _
  · rintro err b' (outside | ⟨t, b'', found, outside, rfl⟩)
    · exact ⟨.of_eq outside.topics, outside.cfg⟩
    · refine ⟨fun other => ?_, outside.cfg⟩
      change ((b.topics.insert name { t with partitions := [] }).lookup other).map Topic.cfg = _
      rw [Tables.lookup_insert_eq]
      split
      · next same => rw [same, found]; rfl
      · rfl

theorem onRegistry_spec (call : TopicCall) (b : BrokerState) :
    Yields (TopicRace.onRegistry call) b (fun t b' => Registered b b' call t)
      fun _ b' => SameTopics b b' ∧ b'.cfg = b.cfg := by
  cases call with
  | delete name => exact onRegistry_deletes name b
  | ensure | create => exact onRegistry_creates _ rfl b

def Topic.shape (t : Topic) : TopicConfig × List (Nat × Int × Path × Nat) :=
  (t.cfg, t.partitions.map fun l => (l.id, l.partition, l.dir, l.generation))

def SameShapes (b b' : BrokerState) : Prop :=
  ∀ name, (b'.topics.lookup name).map Topic.shape = (b.topics.lookup name).map Topic.shape

theorem SameShapes.topics {b b' : BrokerState} (same : SameShapes b b') : SameTopics b b' := by
  intro name
  have shapes := congrArg (Option.map Prod.fst) (same name)
  rwa [Option.map_map, Option.map_map] at shapes

theorem setLog_shapes (idx : Nat) (log : Log) (b : BrokerState) :
    Yields (setLog name idx log) b (fun _ b' => SameShapes b b' ∧ b'.cfg = b.cfg)
      fun _ _ => False := by
  rw [setLog, yields_modify]
  split
  · exact ⟨fun _ => rfl, rfl⟩
  · next t found =>
      refine ⟨fun other => ?_, rfl⟩
      rw [Tables.lookup_insert_eq]
      split
      · next same =>
          rw [same, found, Option.map_some, Option.map_some, Topic.shape, Topic.shape]
          refine congrArg (fun parts => some (t.cfg, parts)) (List.ext_getElem? fun place => ?_)
          rw [List.getElem?_map, List.getElem?_map, List.getElem?_modify]
          rcases t.partitions[place]? with _ | l
          · rfl
          · by_cases here : idx = place <;> simp [here]
      · rfl

theorem appended_shapes (idx : Nat) (batches : List Bytes) (answers : List Answer)
    (b : BrokerState) : SameShapes b (after answers (appendOn name idx batches) b) ∧
      (after answers (appendOn name idx batches) b).cfg = b.cfg := by
  have holds : Yields (appendOn name idx batches) { b with script := answers }
      (fun _ b' => SameShapes b b' ∧ b'.cfg = b.cfg) fun _ b' => SameShapes b b' ∧ b'.cfg = b.cfg := by
    simp only [appendOn, yields_bind, yields_getTopic]
    split
    · exact ⟨fun _ => rfl, rfl⟩
    · split
      · exact ⟨fun _ => rfl, rfl⟩
      · simp only [appendTo, yields_bind, yields_answer, onFiles, yields_modifyGet]
        split
        · exact ⟨fun _ => rfl, rfl⟩
        · simp only [yields_bind]
          refine (setLog_shapes name idx _ _).mono ?_ fun _ _ impossible => impossible.elim
          intro _ b' same
          split <;> exact same
  obtain ⟨-, same⟩ | ⟨-, same⟩ := after_cases holds <;> exact same

end Registry

end KafkaWire.Broker
