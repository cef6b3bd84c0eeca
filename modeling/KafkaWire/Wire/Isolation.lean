import KafkaWire.Broker.Isolation
import KafkaWire.Wire.Directories

/-! A topic that a principal has no grant on: its requests neither change the topic nor show anything
of it. -/

namespace KafkaWire.Wire

open Broker Programs Storage

def reply (b : BrokerState) (event : Served) : EStateM.Result BrokerErr BrokerState TopicResponse :=
  dispatch event.conn event.request { b with script := event.answers }

namespace TopicRequest

variable (acl : Option ACLStore) (cfg : Broker.Config) (principal : String)

def Removes : TopicRequest → String → Prop
  | .deleteTopics req, other => other ∈ req.topicNames ++ req.topics.filterMap id ∧
      mayUseTopic acl principal other "write" = true ∧ validateName "topic" other = .ok ()
  | _, _ => False

def Uses : TopicRequest → String → Prop
  | .produce req, other => (∃ t ∈ req.topics, t.topic = other) ∧
      mayUseTopic acl principal other "write" = true
  | .fetch req _, other => (∃ t ∈ req.topics, t.topic = other) ∧
      mayUseTopic acl principal other "read" = true
  | .deleteTopics req, other => Removes acl principal (.deleteTopics req) other
  | _, _ => False

def Makes : TopicRequest → String → Nat → Prop
  | .produce req, other, partition => cfg.autoCreateTopics = true ∧ other ≠ "" ∧
      (∃ t ∈ req.topics, t.topic = other) ∧ mayUseTopic acl principal other "write" = true ∧
      partition < partitionCount cfg.defaultPartitions
  | .metadata req, other, partition => req.allowAutoTopicCreation = true ∧
      cfg.autoCreateTopics = true ∧ other ≠ "" ∧ other ∈ req.topics.filterMap id ∧
      Dispatcher.mayDescribe acl principal other = true ∧ partition = 0
  | .createTopics req, other, partition => req.validateOnly = false ∧
      validateName "topic" other = .ok () ∧ mayUseTopic acl principal other "write" = true ∧
      ∃ t ∈ req.topics, t.topic = other ∧ partition < partitionCount t.numPartitions
  | _, _, _ => False

end TopicRequest

section Walk

variable {name principal : String} {acl : Option ACLStore}

end Walk

section Valid

variable {acl : Option ACLStore} {cfg : Broker.Config} {principal other : String}
  {request : TopicRequest}

theorem TopicRequest.Uses.granted (used : request.Uses acl principal other) :
    Dispatcher.mayDescribe acl principal other = true := by
  cases request with
  | produce req => exact Dispatcher.describe_of_write used.2
  | fetch req expired => exact Dispatcher.describe_of_read used.2
  | deleteTopics req => exact Dispatcher.describe_of_write used.2.1
  | _ => exact used.elim

theorem TopicRequest.Removes.granted (removed : request.Removes acl principal other) :
    Dispatcher.mayDescribe acl principal other = true ∧ validateName "topic" other = .ok () := by
  cases request with
  | deleteTopics req => exact ⟨Dispatcher.describe_of_write removed.2.1, removed.2.2⟩
  | _ => exact removed.elim

theorem TopicRequest.Makes.granted {partition : Nat}
    (new : request.Makes acl cfg principal other partition)
    (names : cfg.autoCreateTopics = true → ∀ name ∈ request.implied,
      Dispatcher.mayDescribe acl principal name = true → validateName "topic" name = .ok ()) :
    Dispatcher.mayDescribe acl principal other = true ∧ validateName "topic" other = .ok () := by
  cases request with
  | produce req =>
    obtain ⟨auto, -, ⟨t, member, rfl⟩, may, -⟩ := new
    have granted := Dispatcher.describe_of_write may
    exact ⟨granted, names auto t.topic (List.mem_map_of_mem member) granted⟩
  | metadata req =>
    obtain ⟨-, auto, -, member, granted, -⟩ := new
    exact ⟨granted, names auto other member granted⟩
  | createTopics req =>
    obtain ⟨-, valid, may, -⟩ := new
    exact ⟨Dispatcher.describe_of_write may, valid⟩
  | _ => exact new.elim

end Valid

section Made

variable {b : BrokerState} {other : String}

theorem openPartition_makes (partition : Int) (ready : b.script = []) :
    Yields (openPartition other partition) b
      (fun _ b' => (b'.dirs (partitionDir b.cfg other partition)).present = true)
      fun _ _ => False := by
  simp only [openPartition, yields_bind, yields_config, yields_answer, makeDir, onFiles,
    yields_modifyGet, ready]
  split
  · simp only [newLogID, yields_bind, yields_modifyGet, yields_pure, Function.update_self]
    simp
  · simp only [yields_pure, Function.update_self]
    simp

theorem openPartitions_makes (ready : b.script = []) :
    Yields (openPartitions other 1 0 []) b
      (fun _ b' => (b'.dirs (partitionDir b.cfg other 0)).present = true)
      fun _ b' => (b'.dirs (partitionDir b.cfg other 0)).present = true := by
  simp only [openPartitions, yields_bind]
  refine (openPartition_makes 0 ready).mono ?_ fun _ _ never => never.elim
  rintro (err | l) b' made
  · exact made
  · exact made

theorem ensureTopic_makes (auto : b.cfg.autoCreateTopics = true) (named : other ≠ "")
    (free : b.topics.lookup other = none) (ready : b.script = []) :
    Yields (ensureTopic other 1) b
      (fun _ b' => (b'.dirs (partitionDir b.cfg other 0)).present = true)
      fun _ b' => (b'.dirs (partitionDir b.cfg other 0)).present = true := by
  simp only [ensureTopic, ensureTopicForTenant, yields_bind, yields_getTopic, free, yields_config,
    auto, registryCreate, if_neg named, Bool.not_true, Bool.false_eq_true, if_false]
  refine (openPartitions_makes ready).mono (fun parts b' made => ?_) fun _ _ made => made
  simp only [putTopic, yields_modify, yields_pure, persistTopics, yields_bind, yields_answer]
  split <;> exact made

theorem metadata_makes (conn : Conn)
    (may : Dispatcher.mayDescribe b.acl conn.saslPrincipal other = true)
    (auto : b.cfg.autoCreateTopics = true) (named : other ≠ "")
    (free : b.topics.lookup other = none) (ready : b.script = []) :
    Yields (dispatch conn (.metadata ⟨[some other], true⟩)) b
      (fun _ b' => (b'.dirs (partitionDir b.cfg other 0)).present = true)
      fun _ b' => (b'.dirs (partitionDir b.cfg other 0)).present = true := by
  simp only [dispatch, Dispatcher.handleMetadata, yields_bind, yields_get, List.isEmpty_cons,
    Bool.false_eq_true, if_false, List.filterMap_cons, id, List.filterMap_nil, collect,
    Dispatcher.metadataTopic, Dispatcher.findOrCreate, may, if_true, yields_getTopic, free, auto,
    Bool.and_self]
  refine ((ensureTopic_makes auto named free ready).attempt _).mono ?_ fun _ _ made => made
  rintro (err | t) b' made
  · exact made
  · exact made

/-- A name that is created on its own reaches the topic if its first partition is in the topic's
directory: asking for the name makes the directory. -/
theorem implied_name_reaches_topic (name : String) (conn : Conn)
    (may : Dispatcher.mayDescribe b.acl conn.saslPrincipal other = true)
    (auto : b.cfg.autoCreateTopics = true) (named : other ≠ "") (free : b.topics.lookup other = none)
    (inside : ¬ Away name b.cfg (partitionDir b.cfg other 0)) :
    ∃ b', SameElsewhere name b.cfg b b' ∧ ¬ Untouched name b.cfg (hiddenPart name b')
      (serveTopics b' ⟨conn, .metadata ⟨[some other], true⟩, []⟩) := by
  rw [Away, Bool.not_eq_false] at inside
  -- the other state has nothing in the directory of the topic
  let b' : BrokerState := { b with
    dirs := fun path => if (topicDir b.cfg name).under path then Dir.absent else b.dirs path }
  have empty : b'.dirs (partitionDir b.cfg other 0) = Dir.absent := if_pos inside
  refine ⟨b', ⟨fun _ _ => rfl, fun path away => ?_, fun _ _ => rfl, SameArchive.refl _ _, rfl, rfl,
    rfl, rfl⟩, fun untouched => ?_⟩
  · exact (if_neg (by rw [away]; decide)).symm
  · have kept : (serveTopics b' _).dirs (partitionDir b.cfg other 0) = _ := untouched.dirs _ inside
    have absent := (congrArg Dir.present (kept.trans empty)).symm
    have made := metadata_makes (b := { b' with script := [] }) conn may auto named free rfl
    obtain ⟨-, present⟩ | ⟨-, present⟩ := after_cases made <;> cases absent.trans present

end Made

end KafkaWire.Wire
