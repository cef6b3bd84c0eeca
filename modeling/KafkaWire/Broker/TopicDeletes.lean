import KafkaWire.Broker.TopicDirs
import KafkaWire.Lib.PublishRank

/-! Deletions of a topic while requests create it again, and the directories of its partitions. -/

namespace KafkaWire.Broker

open Machine (Guarded getElem?_set_cases)
open Paths (Path)
open Programs Publish Storage

variable {idx : Nat} {call : TopicCall} {old : TopicStage} {broker : BrokerState}
  {answers : List Answer}

/-- A deletion at this stage has taken the topic from the registry and has its directory still to
remove. -/
def TopicStage.removes : TopicStage → Bool
  | .saving _ | .forgetting | .dropping _ | .removing _ _ => true
  | .asked | .looked | .creating | .returned _ => false

namespace TopicRace

def deleting (s : TopicRace) : Bool :=
  s.calls.any fun entry => entry.1.deletes && entry.2.removes

def deletesAt (s : TopicRace) (idx : Nat) : Bool := s.calls[idx]?.any fun entry => entry.1.deletes

/-- A creation takes its step on the registry while no deletion is under way, and the new logs open;
a deletion removes the directory. -/
def advancesApart (s : TopicRace) (idx : Nat) (answers : List Answer) : Bool :=
  match s.calls[idx]? with
  | some (call, .creating) => call.deletes || (s.opens idx answers && !s.deleting)
  | some (_, .removing _ _) => (answers.headD {}).ok
  | _ => true

/-- All calls are about one topic. It is created only while no deletion is between its step on the
registry and the removal of the directory. The new logs open, the deletions save the registry, and
the directory is removed. -/
def DeletesApart (name : String) (s : TopicRace) : TopicEvent → Prop
  | .called call => call.name = name
  | .appended other _ _ _ => other = name
  | .advanced idx answers => s.advancesApart idx answers = true
  | .snapshot idx ok => s.deletesAt idx = true → ok = true
  | .wrote idx outcome => s.deletesAt idx = true → outcome = .done
  | .renamed idx ok => s.deletesAt idx = true → ok = true ∧ s.files.temp.isSome = true

instance (name : String) (s : TopicRace) (event : TopicEvent) : Decidable (s.DeletesApart name event) :=
  match event with
  | .called call => inferInstanceAs (Decidable (call.name = name))
  | .appended other _ _ _ => inferInstanceAs (Decidable (other = name))
  | .advanced idx answers => inferInstanceAs (Decidable (s.advancesApart idx answers = true))
  | .snapshot idx ok => inferInstanceAs (Decidable (s.deletesAt idx = true → ok = true))
  | .wrote idx outcome => inferInstanceAs (Decidable (s.deletesAt idx = true → outcome = .done))
  | .renamed idx ok =>
    inferInstanceAs (Decidable (s.deletesAt idx = true → ok = true ∧ s.files.temp.isSome = true))

end TopicRace

def TopicStage.Right (call : TopicCall) (save : Option (Stage (Table TopicConfig))) : TopicStage → Prop
  | .asked | .looked | .creating => save = none
  | .saving _ => call.deletes = true → save ≠ some (.returned false)
  | .forgetting | .dropping _ | .removing _ _ => call.deletes = true
  | .returned _ => True

/-- A topic that is registered has the directories that its logs use, and `History` holds of each
log; a topic that is neither registered nor being deleted has none. -/
structure Kept (name : String) (cfg : Config) (History : Nat → Path → Nat → Prop) (s : TopicRace) :
    Prop where
  config : s.broker.cfg = cfg
  unsubmitted : ∀ idx, s.calls.length ≤ idx → s.files.calls.lookup idx = none
  calls : ∀ (idx : Nat) (call : TopicCall) (stage : TopicStage), s.calls[idx]? = some (call, stage) →
    call.name = name ∧ stage.Right call (s.files.calls.lookup idx)
  sound : ∀ path, (topicDir cfg name).under path = true → (s.broker.dirs path).Sound
  registered : ∀ t, s.broker.topics.lookup name = some t → s.deleting = false ∧
    ∀ id partition dir generation, (id, partition, dir, generation) ∈ t.shape.2 →
      (topicDir cfg name).under dir = true ∧ Linked s.broker.dirs dir generation ∧
        History id dir generation
  gone : s.broker.topics.lookup name = none → s.deleting = false →
    ∀ path, (topicDir cfg name).under path = true → (s.broker.dirs path).present = false

variable {name : String} {cfg : Config} {History : Nat → Path → Nat → Prop} {s : TopicRace}

theorem deleting_set (found : s.calls[idx]? = some (call, old)) (stage : TopicStage)
    (same : (call.deletes && stage.removes) = (call.deletes && old.removes))
    (broker : BrokerState) (files : Shared (Table TopicConfig)) :
    TopicRace.deleting ⟨broker, files, s.calls.set idx (call, stage)⟩ = s.deleting := by
  have flags (calls : List (TopicCall × TopicStage)) :
      (calls.any fun entry => entry.1.deletes && entry.2.removes) =
        (calls.map fun entry => entry.1.deletes && entry.2.removes).any id := by
    rw [List.any_map]
    rfl
  rw [TopicRace.deleting, TopicRace.deleting, flags, flags, map_set_same _ found _ same]

theorem deleting_of {stage : TopicStage}
    (found : s.calls[idx]? = some (call, stage)) (deletes : call.deletes = true)
    (removes : stage.removes = true) : s.deleting = true :=
  List.any_eq_true.mpr ⟨_, List.mem_of_getElem? found, by rw [deletes, removes]; rfl⟩

theorem registryDelete_failure (name : String) (b : BrokerState) :
    Yields (registryDelete name) b (fun _ _ => True) fun _ b' =>
      b' = b ∨ ∃ t, b.topics.lookup name = some t ∧
        b'.topics.lookup name = some { t with partitions := [] } := by
  simp only [registryDelete, yields_bind, yields_getTopic]
  rcases found : b.topics.lookup name with _ | t
  · exact .inl rfl
  · simp only [yields_bind]
    refine (closePartitions_outside t.partitions b).mono ?_ fun _ _ impossible => impossible.elim
    rintro (_ | err) b' outside
    · trivial
    · exact .inr ⟨t, rfl, AList.lookup_insert _⟩

theorem onArchive_dirs (act : Tiering.Archive → Unit × Tiering.Archive) (b : BrokerState) :
    Yields (onArchive () act) b (fun _ b' => b'.dirs = b.dirs) fun _ _ => False := by
  rw [onArchive, yields_modifyGet]
  split <;> rfl

theorem cleanUp_dirs {prog : BrokerM Bool} {next : Bool → TopicStage}
    (step : CleanUp name old prog next) (b : BrokerState) :
    Yields prog b
      (fun done b' => b'.dirs = b.dirs ∧ (next done).removes = old.removes ∨
        (∃ forgotten dropped, old = .removing forgotten dropped) ∧
          ((b.script.headD {}).ok = true → b'.dirs = fun path =>
            if (topicDir b.cfg name).under path then
              { b.dirs path with present := false, generation := (b.dirs path).generation + 1 }
            else b.dirs path))
      fun _ _ => True := by
  cases step with
  | forget =>
    simp only [forgetArchive, yields_bind, yields_answer, yields_pure]
    refine (onArchive_dirs _ _).mono (fun _ b' same => .inl ⟨same, rfl⟩) fun _ _ _ => trivial
  | drop forgotten =>
    simp only [dropCached, yields_bind, yields_answer, yields_pure]
    refine (onArchive_dirs _ _).mono (fun _ b' same => .inl ⟨same, rfl⟩) fun _ _ _ => trivial
  | remove forgotten dropped =>
    simp only [removeTopicDir, yields_bind, yields_config, yields_answer]
    split
    · simp only [removeAll, yields_bind, yields_modify, yields_pure]
      exact .inr ⟨⟨forgotten, dropped, rfl⟩, fun _ => trivial⟩
    · next failed => exact .inr ⟨⟨forgotten, dropped, rfl⟩, fun ok => absurd ok failed⟩

section Steps

variable (kept : Kept name cfg History s)

include kept

theorem Kept.mono {History' : Nat → Path → Nat → Prop}
    (more : ∀ id dir generation, History id dir generation → History' id dir generation) :
    Kept name cfg History' s := by
  refine ⟨kept.config, kept.unsubmitted, kept.calls, kept.sound, fun t found => ?_, kept.gone⟩
  obtain ⟨quiet, logs⟩ := kept.registered t found
  refine ⟨quiet, fun id partition dir generation member => ?_⟩
  obtain ⟨under, linked, history⟩ := logs id partition dir generation member
  exact ⟨under, linked, more id dir generation history⟩

theorem Kept.linked {t : Topic}
    (found : s.broker.topics.lookup name = some t) {l : LogHandle} (member : l ∈ t.partitions) :
    Linked s.broker.dirs l.dir l.generation :=
  ((kept.registered t found).2 l.id l.partition l.dir l.generation
    (List.mem_map.mpr ⟨l, member, rfl⟩)).2.1

theorem Kept.move {stage : TopicStage} (found : s.calls[idx]? = some (call, old))
    (right : stage.Right call (s.files.calls.lookup idx))
    (same : (call.deletes && stage.removes) = (call.deletes && old.removes))
    (config : broker.cfg = s.broker.cfg) (touched : AllTouched s.broker broker)
    (topics : ∀ t', broker.topics.lookup name = some t' →
      ∃ t, s.broker.topics.lookup name = some t ∧ t'.shape.2 ⊆ t.shape.2)
    (quiet : broker.topics.lookup name = none →
      s.broker.topics.lookup name = none ∧ broker.dirs = s.broker.dirs) :
    Kept name cfg History { s with broker := broker, calls := s.calls.set idx (call, stage) } := by
  have deleting := deleting_set found stage same broker s.files
  refine ⟨config.trans kept.config, fun other beyond => ?_, fun other call' stage' there => ?_,
    fun path under => (touched path).sound (kept.sound path under), fun t' registered => ?_,
    fun free quiet' path under => ?_⟩
  · exact kept.unsubmitted other (by rwa [List.length_set] at beyond)
  · obtain ⟨rfl, is⟩ | ⟨-, there⟩ := getElem?_set_cases there
    · obtain ⟨rfl, rfl⟩ := Prod.mk.inj is
      exact ⟨(kept.calls other _ _ found).1, right⟩
    · exact kept.calls other call' stage' there
  · obtain ⟨t, before, fewer⟩ := topics t' registered
    obtain ⟨quiet', logs⟩ := kept.registered t before
    refine ⟨deleting.trans quiet', fun id partition dir generation member => ?_⟩
    obtain ⟨under, linked, history⟩ := logs id partition dir generation (fewer member)
    exact ⟨under, touched.linked linked, history⟩
  · obtain ⟨free', dirs⟩ := quiet free
    rw [deleting] at quiet'
    dsimp only
    rw [dirs]
    exact kept.gone free' quiet' path under

theorem Kept.stage (stage : TopicStage) (found : s.calls[idx]? = some (call, old))
    (right : stage.Right call (s.files.calls.lookup idx))
    (same : (call.deletes && stage.removes) = (call.deletes && old.removes)) :
    Kept name cfg History (s.setStage idx call stage) :=
  kept.move found right same rfl (.refl _) (fun t found => ⟨t, found, fun _ => id⟩) fun free => ⟨free, rfl⟩

theorem Kept.submitted
    {t : Option Topic} (broker : BrokerState) (found : s.calls[idx]? = some (call, .creating)) :
    (∀ other, (s.calls.set idx (call, .saving t)).length ≤ other →
      (s.files.step (.submit idx fun _ => configs broker)).calls.lookup other = none) ∧
    ∀ (other : Nat) (call' : TopicCall) (stage : TopicStage),
      (s.calls.set idx (call, .saving t))[other]? = some (call', stage) → call'.name = name ∧
        stage.Right call' ((s.files.step (.submit idx fun _ => configs broker)).calls.lookup other) := by
  obtain ⟨named, unsubmitted⟩ := kept.calls idx call _ found
  have apart {other : Nat} (different : other ≠ idx) :
      (s.files.step (.submit idx fun _ => configs broker)).calls.lookup other =
        s.files.calls.lookup other :=
    step_lookup_other _ fun is => different (Option.some.inj is).symm
  obtain ⟨inside, -⟩ := List.getElem?_eq_some_iff.mp found
  refine ⟨fun other beyond => ?_, fun other call' stage there => ?_⟩
  · rw [List.length_set] at beyond
    rw [apart (by omega)]
    exact kept.unsubmitted other beyond
  · obtain ⟨rfl, is⟩ | ⟨different, there⟩ := getElem?_set_cases there
    · obtain ⟨rfl, rfl⟩ := Prod.mk.inj is
      refine ⟨named, fun _ failed => ?_⟩
      have fresh : other ∉ s.files.calls := by
        rw [← AList.lookup_isSome, show s.files.calls.lookup other = none from unsubmitted]
        exact Bool.false_ne_true
      rw [Shared.step, if_neg fresh] at failed
      cases (AList.lookup_insert _).symm.trans failed
    · rw [apart different]
      exact kept.calls other call' stage there

theorem Kept.created {t : Topic}
    (found : s.calls[idx]? = some (call, .creating)) (quiet : s.deleting = false)
    (made : Registered s.broker broker call (some t)) (touched : AllTouched s.broker broker)
    (opened : ∀ l ∈ t.partitions, Opens s.broker broker call.name l)
    (since : ∀ id dir generation, s.broker.nextLog ≤ id → id < broker.nextLog →
      ((s.broker.dirs dir).contents generation).Bare → History id dir generation) :
    Kept name cfg History
      { broker := broker
        files := s.files.step (.submit idx fun _ => configs broker)
        calls := s.calls.set idx (call, .saving (some t)) } := by
  obtain ⟨named, -⟩ := kept.calls idx call _ found
  obtain ⟨unsubmitted, calls⟩ := kept.submitted (t := some t) broker found
  have creates : call.deletes = false := made.deletes
  have deleting := deleting_set found (.saving (some t)) (by rw [creates]; rfl) broker
    (s.files.step (.submit idx fun _ => configs broker))
  have registered : broker.topics.lookup name = some t := by rw [made.topics, if_pos named.symm]
  have absent := kept.gone (named ▸ made.free t rfl) quiet
  refine ⟨made.cfg.trans kept.config, unsubmitted, calls,
    fun path under => (touched path).sound (kept.sound path under), fun t' there => ?_,
    fun free => nomatch registered.symm.trans free⟩
  obtain rfl := Option.some.inj (registered.symm.trans there)
  refine ⟨deleting.trans quiet, fun id partition dir generation member => ?_⟩
  obtain ⟨l, there, place⟩ := List.mem_map.mp member
  cases place
  have opens := opened l there
  have under : (topicDir cfg name).under l.dir = true := by
    rw [← kept.config, ← named]
    exact opens.dir
  refine ⟨under, opens.linked, since l.id l.dir l.generation opens.fresh opens.taken ?_⟩
  rw [← opens.linked.2, (touched l.dir).generation]
  exact (kept.sound l.dir under).absent (absent l.dir under)

theorem Kept.deleted (found : s.calls[idx]? = some (call, .creating))
    (made : Registered s.broker broker call none) (touched : AllTouched s.broker broker) :
    Kept name cfg History
      { broker := broker
        files := s.files.step (.submit idx fun _ => configs broker)
        calls := s.calls.set idx (call, .saving none) } := by
  obtain ⟨named, -⟩ := kept.calls idx call _ found
  obtain ⟨unsubmitted, calls⟩ := kept.submitted (t := none) broker found
  obtain ⟨inside, -⟩ := List.getElem?_eq_some_iff.mp found
  have free : broker.topics.lookup name = none := by rw [made.topics, if_pos named.symm]
  have deleting := deleting_of (s := ⟨broker, s.files.step (.submit idx fun _ => configs broker),
    s.calls.set idx (call, .saving none)⟩) (List.getElem?_set_self inside) made.deletes rfl
  exact ⟨made.cfg.trans kept.config, unsubmitted, calls,
    fun path under => (touched path).sound (kept.sound path under),
    fun t there => absurd there (by rw [free]; exact nofun),
    fun _ quiet => absurd (deleting.symm.trans quiet) nofun⟩

theorem Kept.removed {forgotten dropped : Bool} (result : Except BrokerErr (Option Topic))
    (found : s.calls[idx]? = some (call, .removing forgotten dropped))
    (topics : broker.topics = s.broker.topics) (config : broker.cfg = s.broker.cfg)
    (dirs : broker.dirs = fun path =>
      if (topicDir cfg name).under path then
        { s.broker.dirs path with
          present := false, generation := (s.broker.dirs path).generation + 1 }
      else s.broker.dirs path) :
    Kept name cfg History
      { s with broker := broker, calls := s.calls.set idx (call, .returned result) } := by
  obtain ⟨named, deletes⟩ := kept.calls idx call _ found
  have deleting := deleting_of found deletes rfl
  refine ⟨config.trans kept.config, fun other beyond => ?_, fun other call' stage there => ?_,
    fun path under => ?_, fun t registered => ?_, fun _ _ path under => ?_⟩
  · exact kept.unsubmitted other (by rwa [List.length_set] at beyond)
  · obtain ⟨rfl, is⟩ | ⟨-, there⟩ := getElem?_set_cases there
    · obtain ⟨rfl, rfl⟩ := Prod.mk.inj is
      exact ⟨named, trivial⟩
    · exact kept.calls other call' stage there
  · have sound := kept.sound path under
    dsimp only
    rw [dirs]
    dsimp only
    rw [if_pos under]
    exact ⟨fun g later => sound.later g (Nat.lt_of_succ_lt later),
      fun _ => sound.later _ (Nat.lt_succ_self _)⟩
  · rw [topics] at registered
    exact nomatch deleting.symm.trans (kept.registered t registered).1
  · dsimp only
    rw [dirs]
    dsimp only
    rw [if_pos under]

theorem Kept.registers {t : Option Topic} (found : s.calls[idx]? = some (call, .creating))
    (ran : TopicRace.onRegistry call { s.broker with script := answers } = .ok t broker)
    (apart : s.advancesApart idx answers = true)
    (since : ∀ id dir generation, s.broker.nextLog ≤ id → id < broker.nextLog →
      ((s.broker.dirs dir).contents generation).Bare → History id dir generation) :
    Kept name cfg History
      { broker := broker
        files := s.files.step (.submit idx fun _ => configs broker)
        calls := s.calls.set idx (call, .saving t) } := by
  obtain ⟨named, -⟩ := kept.calls idx call _ found
  obtain ⟨topics, config, deletes, free, owner, count⟩ :=
    (onRegistry_spec call { s.broker with script := answers }).of_ok ran
  have made : Registered s.broker broker call t := ⟨topics, config, deletes, free, owner, count⟩
  rw [TopicRace.advancesApart, found] at apart
  dsimp only at apart
  rcases t with _ | t
  · refine kept.deleted found made ?_
    cases call with
    | ensure | create => cases deletes
    | delete other =>
      simp only [TopicRace.onRegistry] at ran
      have touched : Yields (do registryDelete other; return (none : Option Topic))
          { s.broker with script := answers } (fun _ => AllTouched s.broker) fun _ _ => True := by
        simp only [yields_bind, yields_pure]
        refine (registryDelete_touched other { s.broker with script := answers } ?_).mono
          (fun _ _ touched => touched) fun _ _ _ => trivial
        intro t there l member
        exact kept.linked (t := t) (named ▸ there) member
      exact touched.of_ok ran
  · rw [show call.deletes = false from deletes, Bool.false_or, Bool.and_eq_true,
      Bool.not_eq_true'] at apart
    have opened : Yields (TopicRace.onRegistry call) { s.broker with script := answers }
        (fun t b' => AllTouched s.broker b' ∧
          ∀ topic, t = some topic → ∀ l ∈ topic.partitions, Opens s.broker b' call.name l)
        fun _ _ => True := by
      cases call with
      | delete other => cases deletes
      | ensure | create =>
        simp only [TopicRace.onRegistry, yields_bind, yields_config, yields_pure]
        refine (registryCreate_touched _ _ { s.broker with script := answers }).mono ?_
          fun _ _ _ => trivial
        rintro topic b' ⟨touched, opens⟩
        refine ⟨touched, ?_⟩
        rintro _ ⟨⟩ l member
        exact ⟨(opens l member).dir, (opens l member).linked, (opens l member).fresh,
          (opens l member).taken⟩
    obtain ⟨touched, opens⟩ := opened.of_ok ran
    exact kept.created found apart.2 made touched (opens t rfl) since

theorem Kept.fails {err : BrokerErr} (found : s.calls[idx]? = some (call, .creating))
    (ran : TopicRace.onRegistry call { s.broker with script := answers } = .error err broker)
    (apart : s.advancesApart idx answers = true) :
    Kept name cfg History
      { s with broker := broker, calls := s.calls.set idx (call, .returned (.error err)) } := by
  obtain ⟨named, -⟩ := kept.calls idx call _ found
  have config := ((onRegistry_spec call { s.broker with script := answers }).of_error ran).2
  rw [TopicRace.advancesApart, found] at apart
  dsimp only at apart
  have weight : (call.deletes && (TopicStage.returned (.error err)).removes) =
      (call.deletes && TopicStage.creating.removes) := rfl
  have unchanged (same : broker = { s.broker with script := answers }) : Kept name cfg History
      { s with broker := broker, calls := s.calls.set idx (call, .returned (.error err)) } := by
    subst same
    exact kept.move found trivial weight rfl (fun _ => .same) (fun t there => ⟨t, there, fun _ => id⟩)
      fun free => ⟨free, rfl⟩
  by_cases deletes : call.deletes = true
  · cases call with
    | ensure | create => cases deletes
    | delete other =>
      have outcome : Yields (TopicRace.onRegistry (.delete other))
          { s.broker with script := answers } (fun _ _ => True) fun _ b' =>
            AllTouched s.broker b' ∧ (b' = { s.broker with script := answers } ∨
              ∃ t, s.broker.topics.lookup other = some t ∧
                b'.topics.lookup other = some { t with partitions := [] }) := by
        simp only [TopicRace.onRegistry, yields_bind, yields_pure]
        have linked (t : Topic) (there : s.broker.topics.lookup other = some t) (l : LogHandle)
            (member : l ∈ t.partitions) : Linked s.broker.dirs l.dir l.generation :=
          kept.linked (t := t) (named ▸ there) member
        have touched := registryDelete_touched other { s.broker with script := answers } linked
        have failure := registryDelete_failure other { s.broker with script := answers }
        rcases ran : registryDelete other { s.broker with script := answers } with ⟨u, b'⟩ | ⟨err, b'⟩
        · rw [Yields, ran]
          trivial
        · have touched := touched.of_error ran
          have failure := failure.of_error ran
          rw [Yields, ran]
          exact ⟨touched, failure⟩
      obtain ⟨touched, same | ⟨t, there, emptied⟩⟩ := outcome.of_error ran
      · exact unchanged same
      · obtain rfl : other = name := named
        refine kept.move found trivial weight config touched (fun t' there' => ?_)
          fun free => by cases emptied.symm.trans free
        obtain rfl := Option.some.inj (emptied.symm.trans there')
        exact ⟨t, there, List.nil_subset _⟩
  · rw [Bool.not_eq_true] at deletes
    rw [deletes, Bool.false_or, Bool.and_eq_true, TopicRace.opens, found] at apart
    have failure : Yields (TopicRace.onRegistry call) { s.broker with script := answers }
        (fun _ _ => True) fun err b' => b' = { s.broker with script := answers } ∨
          ∃ partition cause, err = .openPartition partition cause := by
      cases call with
      | delete other => cases deletes
      | ensure | create =>
        simp only [TopicRace.onRegistry, yields_bind, yields_config, yields_pure]
        refine (registryCreate_failure _ _ _).mono (fun _ _ _ => trivial) ?_
        rintro err b' (⟨same, -⟩ | unopened)
        · exact .inl same
        · exact .inr unopened
    obtain same | ⟨partition, cause, rfl⟩ := failure.of_error ran
    · exact unchanged same
    · dsimp only at apart
      rw [ran] at apart
      cases apart.1

theorem Kept.advanced {s' : TopicRace} (apart : s.advancesApart idx answers = true)
    (since : ∀ id dir generation, s.broker.nextLog ≤ id → id < s'.broker.nextLog →
      ((s.broker.dirs dir).contents generation).Bare → History id dir generation)
    (moved : s.Advanced idx answers s') : Kept name cfg History s' := by
  cases moved with
  | waits => exact kept
  | missed call found free => exact kept.stage .looked found (kept.calls idx call _ found).2 rfl
  | found call t found there =>
    rcases found with found | found <;> exact kept.stage _ found trivial rfl
  | allowed call found free auto => exact kept.stage .creating found (kept.calls idx call _ found).2 rfl
  | refused call err found =>
    rcases found with ⟨found, -⟩ | ⟨found, -⟩ <;> exact kept.stage _ found trivial rfl
  | registered call t broker found checked ran => exact kept.registers found ran apart since
  | failed call err broker found ran => exact kept.fails found ran apart
  | saved call t ok found done =>
    obtain ⟨-, right⟩ := kept.calls idx call _ found
    cases ok with
    | false =>
      have creates : call.deletes = false := by
        by_contra deletes
        exact right (Bool.not_eq_false _ ▸ deletes) done
      exact kept.stage _ found trivial (by rw [creates]; rfl)
    | true =>
      cases call with
      | delete other => exact kept.stage _ found rfl rfl
      | ensure | create => exact kept.stage _ found trivial rfl
  | cleaned call old prog next done broker found step ran =>
    obtain ⟨named, right⟩ := kept.calls idx call _ found
    obtain ⟨topics, config⟩ :=
      (TopicRace.cleanUp_ok step { s.broker with script := answers }).of_ok ran
    rcases (cleanUp_dirs step { s.broker with script := answers }).of_ok ran with
      ⟨same, removes⟩ | ⟨⟨forgotten, dropped, is⟩, removed⟩
    · have right : (next done).Right call (s.files.calls.lookup idx) := by
        cases step with
        | forget => exact right
        | drop forgotten => exact right
        | remove forgotten dropped => exact trivial
      refine kept.move found right (by rw [removes]) config (fun path => ?_) (fun t there => ?_)
        fun free => ⟨topics ▸ free, same⟩
      · rw [same]
        exact .same
      · exact ⟨t, topics ▸ there, fun _ => id⟩
    · cases step with
      | forget => cases is
      | drop forgotten => cases is
      | remove forgotten dropped =>
        rw [TopicRace.advancesApart, found] at apart
        have dirs := removed apart
        refine kept.removed _ found topics config ?_
        rw [dirs, ← kept.config, ← named]

theorem Kept.saves (event : Publish.Event (Table TopicConfig))
    (noSubmit : ∀ idx f, event ≠ .submit idx f)
    (well : ∀ idx, s.deletesAt idx = true → event ≠ .marshal idx false ∧ ¬ s.files.Failing idx event) :
    Kept name cfg History { s with files := s.files.step event } := by
  have settled {idx : Nat} (unsubmitted : s.files.calls.lookup idx = none) :
      (s.files.step event).calls.lookup idx = none :=
    (step_lookup_settled event (.inl ⟨unsubmitted, noSubmit idx⟩)).trans unsubmitted
  refine ⟨kept.config, fun idx beyond => settled (kept.unsubmitted idx beyond),
    fun idx call stage found => ?_, kept.sound, kept.registered, kept.gone⟩
  obtain ⟨named, right⟩ := kept.calls idx call stage found
  refine ⟨named, ?_⟩
  cases stage with
  | asked => exact settled right
  | looked => exact settled right
  | creating => exact settled right
  | saving t =>
    intro deletes failed
    have here : s.deletesAt idx = true := by
      rw [TopicRace.deletesAt, found]
      exact deletes
    rcases step_failed event failed with before | failing
    · exact right deletes before
    · exact failing.elim (well idx here).1 (well idx here).2
  | forgetting | dropping | removing => exact right
  | returned result => exact trivial

theorem Kept.step (event : TopicEvent) (apart : s.DeletesApart name event)
    (since : ∀ id dir generation, s.broker.nextLog ≤ id → id < (s.step event).broker.nextLog →
      ((s.broker.dirs dir).contents generation).Bare → History id dir generation) :
    Kept name cfg History (s.step event) := by
  cases event with
  | called call =>
    have deleting : (s.step (.called call)).deleting = s.deleting := by
      have start : call.start.removes = false := by
        match call with
        | .ensure _ _ _ true => rfl
        | .ensure _ _ _ false => rfl
        | .create _ _ _ => rfl
        | .delete _ => rfl
      rw [TopicRace.step, TopicRace.deleting, List.any_append, List.any_cons, start, Bool.and_false]
      exact Bool.or_false _
    refine ⟨kept.config, fun idx beyond => ?_, fun idx call' stage found => ?_, kept.sound,
      fun t there => deleting ▸ kept.registered t there, fun free quiet =>
        kept.gone free (deleting ▸ quiet)⟩
    · rw [TopicRace.step, List.length_append] at beyond
      exact kept.unsubmitted idx (by omega)
    · rw [TopicRace.step, List.getElem?_append] at found
      split at found
      · exact kept.calls idx call' stage found
      · next beyond =>
          obtain ⟨rfl, rfl⟩ := Prod.mk.inj (List.mem_singleton.mp (List.mem_of_getElem? found))
          refine ⟨apart, ?_⟩
          have unsubmitted := kept.unsubmitted idx (by omega)
          match call' with
          | .ensure _ _ _ true => exact unsubmitted
          | .ensure _ _ _ false => exact unsubmitted
          | .create _ _ _ => exact unsubmitted
          | .delete _ => exact unsubmitted
  | advanced idx answers => exact kept.advanced apart since (s.advance_advanced idx answers)
  | snapshot idx ok =>
    refine kept.saves _ nofun fun other deletes => ⟨?_, not_false⟩
    rintro ⟨⟩
    exact nomatch apart deletes
  | wrote idx outcome =>
    refine kept.saves _ nofun fun other deletes => ⟨nofun, ?_⟩
    rintro ⟨rfl, failed⟩
    exact failed (apart deletes)
  | renamed idx ok =>
    refine kept.saves _ nofun fun other deletes => ⟨nofun, ?_⟩
    rintro ⟨rfl, failed | ⟨absent, -⟩⟩
    · exact nomatch failed.symm.trans (apart deletes).1
    · exact nomatch (absent ▸ (apart deletes).2)
  | appended other partition batches answers =>
    obtain rfl : other = name := apart
    obtain ⟨same, config⟩ := appended_shapes other partition batches answers s.broker
    have touched := appended_touched other partition batches answers s.broker
      fun t there l member => kept.linked there member
    have shape {t' : Topic} (there : (after answers (appendOn other partition batches)
        s.broker).topics.lookup other = some t') : ∃ t, s.broker.topics.lookup other = some t ∧ t.shape = t'.shape := by
      have shapes := same other
      rw [there] at shapes
      exact Option.map_eq_some_iff.mp shapes.symm
    refine ⟨config.trans kept.config, kept.unsubmitted, kept.calls,
      fun path under => (touched path).sound (kept.sound path under), fun t' there => ?_,
      fun free quiet => ?_⟩
    · obtain ⟨t, before, shape⟩ := shape there
      obtain ⟨quiet, logs⟩ := kept.registered t before
      refine ⟨quiet, fun id partition dir generation member => ?_⟩
      obtain ⟨under, linked, history⟩ := logs id partition dir generation (shape ▸ member)
      exact ⟨under, touched.linked linked, history⟩
    · have free : s.broker.topics.lookup other = none := by
        refine Option.map_eq_none_iff.mp ((same other).symm.trans ?_)
        exact Option.map_eq_none_iff.mpr free
      have unused : Yields (appendOn other partition batches) { s.broker with script := answers }
          (fun _ b' => b'.dirs = s.broker.dirs) fun _ b' => b'.dirs = s.broker.dirs := by
        simp only [appendOn, yields_bind, yields_getTopic, free]
        rfl
      have dirs : (after answers (appendOn other partition batches) s.broker).dirs = s.broker.dirs := by
        obtain ⟨-, same⟩ | ⟨-, same⟩ := after_cases unused <;> exact same
      intro path under
      rw [TopicRace.step]
      dsimp only
      rw [dirs]
      exact kept.gone free quiet path under

end Steps

def OpenedEmpty (b : BrokerState) (events : List TopicEvent) (id : Nat) (dir : Path)
    (generation : Nat) : Prop :=
  ∃ front event back, events = front ++ [event] ++ back ∧
    (TopicRace.run b front).broker.nextLog ≤ id ∧
    id < (TopicRace.run b (front ++ [event])).broker.nextLog ∧
    (((TopicRace.run b front).broker.dirs dir).contents generation).Bare

/-- A topic has its directories while it is registered, and no directory otherwise; directories that
are to be made are empty. -/
structure Dirs (name : String) (b : BrokerState) : Prop where
  sound : ∀ path, (topicDir b.cfg name).under path = true → (b.dirs path).Sound
  registered : ∀ t, b.topics.lookup name = some t → ∀ l ∈ t.partitions,
    (topicDir b.cfg name).under l.dir = true ∧ Linked b.dirs l.dir l.generation ∧ l.id < b.nextLog
  gone : b.topics.lookup name = none →
    ∀ path, (topicDir b.cfg name).under path = true → (b.dirs path).present = false

/-- A topic is deleted and created at the same time. If it is created only while no deletion is
between its step on the registry and the removal of the directory, and if the new logs open, the
deletions save the registry and the directory is removed, then in the end a registered topic has the
directories that its logs use, each log that was opened in the run was opened on a directory without
files, and a topic that is not registered has no directory. -/
theorem directories_follow_registry (name : String) (b : BrokerState) (dirs : Dirs name b)
    (events : List TopicEvent)
    (apart : Guarded TopicRace.step (TopicRace.DeletesApart name) (.start b) events)
    (finished : ∀ entry ∈ (TopicRace.run b events).calls, ∃ result, entry.2 = .returned result) :
    (∀ t, (TopicRace.run b events).broker.topics.lookup name = some t → ∀ l ∈ t.partitions,
      Linked (TopicRace.run b events).broker.dirs l.dir l.generation ∧
        (l.id < b.nextLog ∨ OpenedEmpty b events l.id l.dir l.generation)) ∧
    ((TopicRace.run b events).broker.topics.lookup name = none →
      ∀ path, (topicDir b.cfg name).under path = true →
        ((TopicRace.run b events).broker.dirs path).present = false) := by
  have kept : TopicRace.run b events = TopicRace.run b events ∧ Kept name b.cfg
      (fun id dir generation => id < b.nextLog ∨ OpenedEmpty b events id dir generation)
      (TopicRace.run b events) := by
    apply apart.invariant fun past s => s = TopicRace.run b past ∧ Kept name b.cfg
      (fun id dir generation => id < b.nextLog ∨ OpenedEmpty b past id dir generation) s
    · have none' (idx : Nat) : ([] : List (TopicCall × TopicStage))[idx]? = none := List.getElem?_nil
      refine ⟨rfl, rfl, fun idx _ => AList.lookup_empty idx,
        fun idx call stage found => (Option.some_ne_none _ (found.symm.trans (none' idx))).elim,
        dirs.sound, fun t there => ⟨rfl, ?_⟩, fun free _ => dirs.gone free⟩
      intro id partition dir generation member
      obtain ⟨l, there', place⟩ := List.mem_map.mp member
      cases place
      obtain ⟨under, linked, old⟩ := dirs.registered t there l there'
      exact ⟨under, linked, .inl old⟩
    · rintro past s event ⟨rfl, kept⟩ apart
      refine ⟨(Machine.exec_concat _ _ _ _).symm, (kept.mono ?_).step event apart ?_⟩
      · rintro id dir generation (old | ⟨front, opening, back, rfl, later, taken, bare⟩)
        · exact .inl old
        · exact .inr ⟨front, opening, back ++ [event], by rw [List.append_assoc], later, taken, bare⟩
      · intro id dir generation later taken bare
        refine .inr ⟨past, event, [], (List.append_nil _).symm, later, ?_, bare⟩
        rw [TopicRace.run, Machine.exec_concat]
        exact taken
  obtain ⟨-, kept⟩ := kept
  have quiet : (TopicRace.run b events).deleting = false := by
    rw [TopicRace.deleting, List.any_eq_false]
    intro entry member
    obtain ⟨result, is⟩ := finished entry member
    rw [is]
    simp [TopicStage.removes]
  refine ⟨fun t there l member => ?_, fun free => kept.gone free quiet⟩
  obtain ⟨-, linked, history⟩ := (kept.registered t there).2 l.id l.partition l.dir l.generation
    (List.mem_map.mpr ⟨l, member, rfl⟩)
  exact ⟨linked, history⟩

private theorem idleBroker_dirs : Dirs "t" idleBroker := by
  refine ⟨fun _ _ => ⟨fun _ _ => World.bare_empty, fun _ => World.bare_empty⟩, fun t there => ?_,
    fun _ _ _ => rfl⟩
  cases (AList.lookup_empty "t").symm.trans there

private def save (idx : Nat) : List TopicEvent :=
  [.snapshot idx true, .wrote idx .done, .renamed idx true, .advanced idx []]

private def create (idx : Nat) : List TopicEvent := [.advanced idx [], .advanced idx []]

private def cleanUp (idx : Nat) : List TopicEvent :=
  [.advanced idx [], .advanced idx [], .advanced idx []]

private def recorded : List TopicEvent :=
  [.called (.ensure "t" 1 "" false)] ++ create 0 ++ save 0 ++
    [.appended "t" 0 [minimalBatch 0] [], .called (.delete "t"), .called (.ensure "t" 1 "" false)]

/-- For each log of the topic: whether its directory is there, whether it is the one that the log
uses, and how many records the log has. -/
private def logsOf (s : TopicRace) : Option (List (Bool × Bool × Int)) :=
  (s.broker.topics.lookup "t").map fun t => t.partitions.map fun l =>
    ((s.broker.dirs l.dir).present, (s.broker.dirs l.dir).generation == l.generation,
      l.log.highWatermark)

private def allReturned (s : TopicRace) : Bool :=
  s.calls.all fun entry => match entry.2 with
    | .returned _ => true
    | _ => false

private theorem returned_of_all {s : TopicRace} (all : allReturned s = true) :
    ∀ entry ∈ s.calls, ∃ result, entry.2 = .returned result := by
  intro entry member
  have returned := List.all_eq_true.mp all entry member
  split at returned
  · next result is => exact ⟨result, is⟩
  · cases returned

private theorem log_of {s : TopicRace} {present same : Bool} {count : Int}
    (shown : logsOf s = some [(present, same, count)]) :
    ∃ t l, s.broker.topics.lookup "t" = some t ∧ t.partitions = [l] ∧
      (s.broker.dirs l.dir).present = present ∧ l.log.highWatermark = count := by
  obtain ⟨t, found, logs⟩ := Option.map_eq_some_iff.mp shown
  obtain ⟨l, is, place⟩ := List.map_eq_singleton_iff.mp logs
  obtain ⟨there, rest⟩ := Prod.mk.inj place
  exact ⟨t, l, found, is, there, (Prod.mk.inj rest).2⟩

private def createdLater : List TopicEvent :=
  recorded ++ [.advanced 1 []] ++ save 1 ++ cleanUp 1 ++ create 2 ++ save 2

theorem created_later_has_directory :
    ∃ t l, (TopicRace.run idleBroker createdLater).broker.topics.lookup "t" = some t ∧
      t.partitions = [l] ∧ l.log.highWatermark = 0 ∧
      Linked (TopicRace.run idleBroker createdLater).broker.dirs l.dir l.generation := by
  obtain ⟨t, l, found, is, -, empty⟩ := log_of (show
    logsOf (TopicRace.run idleBroker createdLater) = some [(true, true, 0)] by decide +kernel)
  have follows := (directories_follow_registry "t" idleBroker idleBroker_dirs createdLater
    (by decide +kernel) (returned_of_all (by decide +kernel))).1 t found l (is ▸ List.mem_singleton_self l)
  exact ⟨t, l, found, is, empty, follows.1⟩

private def createdBetween : List TopicEvent :=
  recorded ++ [.advanced 1 []] ++ create 2 ++ save 2 ++ save 1 ++ cleanUp 1

/-- The topic is registered, its directory is gone, and its log has the record of the deleted one. -/
theorem created_between_loses_directory :
    (∀ entry ∈ (TopicRace.run idleBroker createdBetween).calls,
      ∃ result, entry.2 = .returned result) ∧
    ∃ t l, (TopicRace.run idleBroker createdBetween).broker.topics.lookup "t" = some t ∧
      t.partitions = [l] ∧
      ((TopicRace.run idleBroker createdBetween).broker.dirs l.dir).present = false ∧
      l.log.highWatermark = 1 :=
  ⟨returned_of_all (by decide +kernel), log_of (show
    logsOf (TopicRace.run idleBroker createdBetween) = some [(false, false, 1)] by decide +kernel)⟩

end KafkaWire.Broker
