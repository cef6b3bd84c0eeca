import KafkaWire.Broker.TopicSteps
import KafkaWire.Storage.Pruning

/-! What an operation on topics leaves behind when it fails. -/

namespace KafkaWire.Broker

open Paths (Path)
open Programs Storage

/-- The topics, their logs and `topics.json` are what they were, and so is every directory that is
not one of the named topic's partitions. -/
structure Undone (name : String) (b b' : BrokerState) : Prop where
  topics : b'.topics = b.topics
  topicsFile : b'.topicsFile = b.topicsFile
  elsewhere : ∀ path, (∀ partition, path ≠ partitionDir b.cfg name partition) →
    b'.dirs path = b.dirs path

theorem Undone.refl (name : String) (b : BrokerState) : Undone name b b :=
  ⟨rfl, rfl, fun _ _ => rfl⟩

section Failing

variable {name : String} {b b' : BrokerState}

structure Partway (name : String) (b b' : BrokerState) : Prop where
  cfg : b'.cfg = b.cfg
  elsewhere : ∀ path, (∀ partition, path ≠ partitionDir b.cfg name partition) →
    b'.dirs path = b.dirs path

def Belongs (cfg : Config) (name : String) (l : LogHandle) : Prop :=
  ∃ partition, l.dir = partitionDir cfg name partition

theorem closePartitions_partway (parts : List LogHandle) (belong : ∀ l ∈ parts, Belongs b.cfg name l)
    (partway : Partway name b b') :
    Yields (closePartitions parts) b' (fun _ => Partway name b) fun _ _ => False := by
  induction parts generalizing b' with
  | nil => exact partway
  | cons l rest ih =>
    obtain ⟨⟨partition, dir⟩, others⟩ := List.forall_mem_cons.mp belong
    simp only [closePartitions, yields_bind, yields_answer, onFiles, yields_modifyGet]
    have step (used : Dir) : Partway name b { b' with
        script := b'.script.tail
        dirs := Function.update b'.dirs l.dir used } :=
      ⟨partway.cfg, fun path apart =>
        (Function.update_of_ne (dir ▸ apart partition) ..).trans (partway.elsewhere path apart)⟩
    refine (ih others (step _)).mono (fun later final kept => ?_) fun _ _ impossible => impossible
    split <;> exact kept

theorem openPartition_partway (partition : Int) (partway : Partway name b b') :
    Yields (openPartition name partition) b'
      (fun opened b'' => Partway name b b'' ∧ ∀ l, opened = .ok l → Belongs b.cfg name l)
      fun _ _ => False := by
  simp only [openPartition, yields_bind, yields_config, yields_answer, makeDir, onFiles,
    yields_modifyGet]
  rw [partway.cfg]
  have elsewhere : ∀ path, (∀ partition, path ≠ partitionDir b.cfg name partition) →
      ∀ made used, Function.update (Function.update b'.dirs (partitionDir b.cfg name partition) made)
        (partitionDir b.cfg name partition) used path = b.dirs path := by
    intro path apart made used
    rw [Function.update_of_ne (apart partition), Function.update_of_ne (apart partition)]
    exact partway.elsewhere path apart
  split
  · simp only [newLogID, yields_bind, yields_modifyGet, yields_pure]
    refine ⟨⟨rfl, fun path apart => elsewhere path apart _ _⟩, ?_⟩
    rintro l ⟨⟩
    exact ⟨partition, rfl⟩
  · exact ⟨⟨rfl, fun path apart => elsewhere path apart _ _⟩, by rintro l ⟨⟩⟩

theorem openPartitions_partway (count : Nat) (partition : Int) (parts : List LogHandle)
    (belong : ∀ l ∈ parts, Belongs b.cfg name l) (partway : Partway name b b') :
    Yields (openPartitions name count partition parts) b' (fun _ _ => True)
      fun err b'' => err ≠ .save ∧ Partway name b b'' := by
  induction count generalizing partition parts b' with
  | zero => trivial
  | succ count ih =>
    simp only [openPartitions, yields_bind]
    refine (openPartition_partway partition partway).mono ?_ fun _ _ impossible => impossible.elim
    rintro (err | l) b'' ⟨partway, one⟩
    · simp only [yields_bind]
      refine (closePartitions_partway parts belong partway).mono (fun _ _ kept => ?_)
        fun _ _ impossible => impossible.elim
      exact ⟨by rintro ⟨⟩, kept⟩
    · refine ih (partition + 1) (parts ++ [l]) (fun other member => ?_) partway
      rcases List.mem_append.mp member with old | new
      · exact belong other old
      · exact List.mem_singleton.mp new ▸ one l rfl

/-- A topic is created that was not there, or nothing is changed but the directories of its
partitions. -/
theorem registryCreate_undone (cfg : TopicConfig) :
    Yields (registryCreate name cfg) b (fun _ b' => b'.topics ≠ b.topics)
      fun err b' => err ≠ .save ∧ Undone name b b' := by
  have failing : Yields (registryCreate name cfg) b (fun _ _ => True)
      fun err b' => err ≠ .save ∧ Partway name b b' := by
    have start : Partway name b b := ⟨rfl, fun _ _ => rfl⟩
    rw [registryCreate]
    split
    · exact ⟨by rintro ⟨⟩, start⟩
    · simp only [yields_bind, yields_getTopic]
      split
      · exact ⟨by rintro ⟨⟩, start⟩
      · simp only [yields_bind, putTopic, yields_modify, yields_pure]
        exact (openPartitions_partway _ 0 [] (by simp) start).mono (fun _ _ _ => trivial)
          fun _ _ failed => failed
  refine (failing.and (registryCreate_spec name cfg b)).mono ?_ ?_
  · rintro t b' ⟨-, created⟩ same
    have free := created.free
    rw [← same, created.topics, AList.lookup_insert] at free
    cases free
  · rintro err b' ⟨⟨unsaved, partway⟩, outside⟩
    exact ⟨unsaved, outside.topics, outside.topicsFile, partway.elsewhere⟩

theorem persistTopics_fails :
    Yields persistTopics b (fun _ _ => True) fun err b' => err = .save ∧ b'.topics = b.topics := by
  simp only [persistTopics, yields_bind, yields_answer]
  split
  · trivial
  · exact ⟨rfl, rfl⟩

theorem created_undone (cfg : TopicConfig) :
    Yields (do let t ← registryCreate name cfg; persistTopics; return t) b (fun _ _ => True)
      fun err b' => Undone name b b' ↔ err ≠ .save := by
  simp only [yields_bind]
  refine (registryCreate_undone cfg).mono (fun t b' changed => ?_)
    fun _ _ failed => iff_of_true failed.2 failed.1
  refine persistTopics_fails.mono (fun _ _ _ => trivial) ?_
  rintro _ b'' ⟨rfl, same⟩
  exact iff_of_false (fun undone => changed (same.symm.trans undone.topics)) fun other => other rfl

theorem ensureTopicForTenant_undone (partitions : Int) (tenantID : String) :
    Yields (ensureTopicForTenant name partitions tenantID) b (fun _ _ => True)
      fun err b' => Undone name b b' ↔ err ≠ .save := by
  simp only [ensureTopicForTenant, yields_bind, yields_getTopic]
  split
  · trivial
  · simp only [yields_bind, yields_config]
    split
    · exact iff_of_true (Undone.refl name b) (by rintro ⟨⟩)
    · simpa only [yields_bind] using created_undone _

theorem createTopic_undone (partitions factor : Int) :
    Yields (createTopic name partitions factor) b (fun _ _ => True)
      fun err b' => Undone name b b' ↔ err ≠ .save := by
  rw [createTopic]
  split
  · exact iff_of_true (Undone.refl name b) (by rintro ⟨⟩)
  · split
    · exact iff_of_true (Undone.refl name b) (by rintro ⟨⟩)
    · simp only [yields_bind, yields_config]
      simpa only [yields_bind] using created_undone _

/-- An error that leaves something changed behind. -/
def Halfway (err : BrokerErr) : Prop := err = .save ∨ ∃ cause, err = .close cause

theorem registryDelete_undone :
    Yields (registryDelete name) b (fun _ b' => b'.topics ≠ b.topics)
      fun err b' => Undone name b b' ↔ ¬ Halfway err := by
  simp only [registryDelete, yields_bind, yields_getTopic]
  cases found : b.topics.lookup name with
  | none => exact iff_of_true (Undone.refl name b) (by rintro (⟨⟨⟩⟩ | ⟨_, ⟨⟩⟩))
  | some t =>
    have erased (b' : BrokerState) (same : b'.topics = b.topics) :
        b'.topics.erase name ≠ b.topics := by
      intro kept
      have gone := congrArg (AList.lookup name) kept
      rw [AList.lookup_erase, found] at gone
      cases gone
    simp only [yields_bind]
    by_cases empty : t.partitions = []
    · rw [empty]
      exact erased b rfl
    · refine (closePartitions_outside t.partitions b).mono ?_ fun _ _ impossible => impossible.elim
      rintro (_ | err) b' outside
      · exact erased b' outside.topics
      · refine iff_of_false (fun undone => ?_) fun fine => fine (.inr ⟨err, rfl⟩)
        have now : (b'.topics.insert name { t with partitions := [] }).lookup name =
            b.topics.lookup name := congrArg (AList.lookup name) undone.topics
        rw [AList.lookup_insert, found] at now
        exact empty (congrArg Topic.partitions (Option.some.inj now)).symm

theorem deleteTopic_undone :
    Yields (deleteTopic name) b (fun _ _ => True) fun err b' =>
      (∃ forget drop remove, err = .cleanup forget drop remove) ∨
        (Undone name b b' ↔ ¬ Halfway err) := by
  rw [deleteTopic]
  split
  · exact .inr (iff_of_true (Undone.refl name b) (by rintro (⟨⟨⟩⟩ | ⟨_, ⟨⟩⟩)))
  · simp only [yields_bind]
    refine registryDelete_undone.mono (fun _ b' changed => ?_) fun _ _ failed => .inr failed
    refine persistTopics_fails.mono ?_ ?_
    rotate_left
    · rintro _ b'' ⟨rfl, same⟩
      exact .inr (iff_of_false (fun undone => changed (same.symm.trans undone.topics))
        fun fine => fine (.inl rfl))
    rintro - b'' -
    refine (TopicRace.cleanUp_ok .forget b'').mono (fun forgotten _ _ => ?_) fun _ _ impossible => impossible.elim
    refine (TopicRace.cleanUp_ok (.drop forgotten) _).mono (fun dropped _ _ => ?_) fun _ _ impossible => impossible.elim
    refine (TopicRace.cleanUp_ok (.remove forgotten dropped) _).mono (fun removed _ _ => ?_) fun _ _ impossible => impossible.elim
    split
    · trivial
    · exact .inl ⟨_, _, _, rfl⟩

end Failing

/-- An operation on topics that fails before it removes files has done nothing, exactly when it was
not the write of `topics.json` that failed, nor the close of a log. -/
theorem failed_call_undone_iff (b : BrokerState) (name : String) :
    (∀ partitions tenantID err b', ensureTopicForTenant name partitions tenantID b = .error err b' →
      (Undone name b b' ↔ err ≠ .save)) ∧
    (∀ partitions factor err b', createTopic name partitions factor b = .error err b' →
      (Undone name b b' ↔ err ≠ .save)) ∧
    (∀ err b', deleteTopic name b = .error err b' →
      (∀ forget drop remove, err ≠ .cleanup forget drop remove) →
        (Undone name b b' ↔ err ≠ .save ∧ ∀ cause, err ≠ .close cause)) := by
  refine ⟨fun partitions tenantID _ _ failed =>
      (ensureTopicForTenant_undone partitions tenantID).of_error failed,
    fun partitions factor _ _ failed => (createTopic_undone partitions factor).of_error failed,
    fun err b' failed early => ?_⟩
  rcases deleteTopic_undone.of_error failed with ⟨_, _, _, late⟩ | undone
  · exact absurd late (early _ _ _)
  · simpa [Halfway, not_or] using undone

def brokerWith (answers : List Answer) : BrokerState := { idleBroker with script := answers }

def failure {α : Type} (name : String) :
    EStateM.Result BrokerErr BrokerState α → Option (BrokerErr × Option Nat)
  | .ok _ _ => none
  | .error err b => some (err, (b.topics.lookup name).map fun t => t.partitions.length)

theorem unopened_topic_undone :
    ∃ err b', createTopic "t" 1 1 (brokerWith [⟨true, false, [⟨0, some 0⟩], {}⟩]) = .error err b' ∧
      Undone "t" (brokerWith [⟨true, false, [⟨0, some 0⟩], {}⟩]) b' := by
  have runs : (failure "t" (createTopic "t" 1 1 (brokerWith [⟨true, false, [⟨0, some 0⟩], {}⟩]))).map
      (fun failed => decide (failed.1 = .save)) = some false := by decide +kernel
  rcases ran : createTopic "t" 1 1 (brokerWith [⟨true, false, [⟨0, some 0⟩], {}⟩]) with _ | ⟨err, b'⟩
  · rw [ran] at runs
    cases runs
  · rw [ran] at runs
    exact ⟨err, b', rfl, ((failed_call_undone_iff _ "t").2.1 1 1 err b' ran).mpr
      (of_decide_eq_false (Option.some.inj runs))⟩

/-- The file cannot be written, and the topic is there all the same. -/
theorem unsaved_topic_registered :
    ∃ b', createTopic "t" 1 1 (brokerWith [{}, ⟨false, false, [], {}⟩]) = .error .save b' ∧
      (brokerWith [{}, ⟨false, false, [], {}⟩]).topics.lookup "t" = none ∧
      (b'.topics.lookup "t").map (fun t => t.partitions.length) = some 1 := by
  have runs : failure "t" (createTopic "t" 1 1 (brokerWith [{}, ⟨false, false, [], {}⟩])) =
      some (.save, some 1) := by decide +kernel
  rcases ran : createTopic "t" 1 1 (brokerWith [{}, ⟨false, false, [], {}⟩]) with _ | ⟨err, b'⟩
  · rw [ran] at runs
    cases runs
  · rw [ran] at runs
    obtain ⟨rfl, there⟩ := Prod.mk.inj (Option.some.inj runs)
    exact ⟨b', rfl, rfl, there⟩

end KafkaWire.Broker
