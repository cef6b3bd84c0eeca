import KafkaWire.Broker.Fetch
import KafkaWire.Broker.TopicEffects
import KafkaWire.Lib.TwoRuns

/-! Topics whose directories are their own: the name is one path component, and the logs are in the
directories that are made of it. -/

namespace KafkaWire.Broker

open Paths (Path Plain join under_append join_append)
open Programs Storage Tiering

def Housed (cfg : Config) (name : String) (t : Topic) : Prop :=
  ∀ (idx : Nat) (l : LogHandle), t.partitions[idx]? = some l → l.dir = partitionDir cfg name idx

def Proper (b : BrokerState) : Prop :=
  ∀ name t, b.topics.lookup name = some t →
    validateName "topic" name = .ok () ∧ Housed b.cfg name t

section Directories

variable {cfg : Config} {name name' : String}

theorem plain_topics : Plain "topics" := ⟨by decide, by decide, by decide, by decide⟩

theorem plain_number (i : Int) : Plain (toString i) := (numbered_toString i).plain

theorem joined (cfg : Config) (names : List String) (plain : ∀ name ∈ names, Plain name) :
    join (cfg.dataDir :: names) = ⟨(join [cfg.dataDir]).rooted, (join [cfg.dataDir]).names ++ names⟩ :=
  join_append [cfg.dataDir] names plain

theorem topicsDir_eq (cfg : Config) : topicsDir cfg =
    ⟨(join [cfg.dataDir]).rooted, (join [cfg.dataDir]).names ++ ["topics"]⟩ :=
  joined cfg ["topics"] (by simpa using plain_topics)

theorem partitionDir_plain (plain : Plain name) (partition : Int) :
    partitionDir cfg name partition = ⟨(join [cfg.dataDir]).rooted,
      (join [cfg.dataDir]).names ++ ["topics", name, toString partition]⟩ :=
  joined cfg ["topics", name, toString partition]
    (by simpa using ⟨plain_topics, plain, plain_number partition⟩)

theorem partitionDir_eq (valid : validateName "topic" name = .ok ()) (partition : Int) :
    partitionDir cfg name partition = ⟨(join [cfg.dataDir]).rooted,
      (join [cfg.dataDir]).names ++ ["topics", name, toString partition]⟩ :=
  partitionDir_plain (plain_of_valid valid) partition

theorem partitionDir_under_topicsDir (valid : validateName "topic" name = .ok ()) (partition : Int) :
    (topicsDir cfg).under (partitionDir cfg name partition) = true := by
  have split : (join [cfg.dataDir]).names ++ ["topics", name, toString partition] =
      ((join [cfg.dataDir]).names ++ ["topics"]) ++ [name, toString partition] := by simp
  rw [topicsDir_eq, partitionDir_eq valid, split]
  exact under_append _ _

theorem partitionDir_inj (plain : Plain name) (plain' : Plain name') {partition partition' : Int}
    (same : partitionDir cfg name partition = partitionDir cfg name' partition') :
    name = name' ∧ partition = partition' := by
  rw [partitionDir_plain plain, partitionDir_plain plain', Paths.Path.mk.injEq] at same
  have names := List.append_cancel_left same.2
  simp only [List.cons.injEq, true_and, and_true] at names
  exact ⟨names.1, toString_injective names.2⟩

theorem partitionDir_ne (valid : validateName "topic" name = .ok ())
    (valid' : validateName "topic" name' = .ok ()) (different : name ≠ name')
    (partition partition' : Int) :
    partitionDir cfg name partition ≠ partitionDir cfg name' partition' :=
  fun same => different (partitionDir_inj (plain_of_valid valid) (plain_of_valid valid') same).1

end Directories

structure Confined (acl : Option ACLStore) (cfg : Config) (b : BrokerState) : Prop where
  proper : Proper b
  acl : b.acl = acl
  cfg : b.cfg = cfg

section Kept

variable {acl : Option ACLStore} {cfg : Config} {b b' : BrokerState} {name : String}

theorem Confined.of_topics (confined : Confined acl cfg b) (grants : b'.acl = b.acl)
    (config : b'.cfg = b.cfg) (topics : b'.topics = b.topics) : Confined acl cfg b' := by
  refine ⟨?_, grants.trans confined.acl, config.trans confined.cfg⟩
  rw [Proper, topics, config]
  exact confined.proper

theorem Confined.outside (confined : Confined acl cfg b) (outside : Outside b b') :
    Confined acl cfg b' := confined.of_topics outside.acl outside.cfg outside.topics

theorem Confined.insert {t : Topic} (confined : Confined acl cfg b)
    (valid : validateName "topic" name = .ok ()) (housed : Housed b.cfg name t)
    (grants : b'.acl = b.acl) (config : b'.cfg = b.cfg) (topics : b'.topics = b.topics.insert name t) :
    Confined acl cfg b' := by
  refine ⟨?_, grants.trans confined.acl, config.trans confined.cfg⟩
  intro other t' found
  rw [topics, Tables.lookup_insert_eq] at found
  rw [config]
  split at found
  · next same =>
      cases found
      exact same ▸ ⟨valid, housed⟩
  · exact confined.proper other t' found

theorem Confined.erase (confined : Confined acl cfg b) (other : String) :
    Confined acl cfg { b with topics := b.topics.erase other } := by
  refine ⟨?_, confined.acl, confined.cfg⟩
  intro third t found
  rw [Tables.lookup_erase_eq] at found
  split at found
  · cases found
  · exact confined.proper third t found

theorem keeps_persistTopics : Keeps (Confined acl cfg) persistTopics := by
  intro b confined
  simp only [persistTopics, yields_bind, yields_answer]
  split <;> exact confined.of_topics rfl rfl rfl

theorem keeps_registryCreate (valid : validateName "topic" name = .ok ()) (config : TopicConfig) :
    Keeps (Confined acl cfg) (registryCreate name config) := by
  intro b confined
  refine (registryCreate_spec name config b).mono ?_ fun _ _ => confined.outside
  intro t b' created
  exact confined.insert valid (fun idx l found => (created.opened idx l found).dir) created.acl
    created.cfg created.topics

/-- Names that are not valid are no danger while topics are not created on their own. -/
theorem keeps_ensureTopicForTenant
    (valid : cfg.autoCreateTopics = true → validateName "topic" name = .ok ())
    (partitions : Int) (tenant : String) :
    Keeps (Confined acl cfg) (ensureTopicForTenant name partitions tenant) := by
  intro b confined
  simp only [ensureTopicForTenant, yields_bind, yields_getTopic]
  split
  · exact confined
  · simp only [yields_bind, yields_config]
    rw [confined.cfg]
    by_cases auto : cfg.autoCreateTopics = true
    · rw [auto, if_neg (by decide)]
      simp only [yields_bind]
      refine (keeps_registryCreate (valid auto) _ b confined).mono ?_ fun _ _ failed => failed
      exact fun t b' created => (keeps_persistTopics b' created).mono (fun _ _ kept => kept)
        fun _ _ kept => kept
    · rw [Bool.not_eq_true] at auto
      rw [auto, if_pos (by decide)]
      exact confined

theorem keeps_createTopic (partitions factor : Int) :
    Keeps (Confined acl cfg) (createTopic name partitions factor) := by
  intro b confined
  rw [createTopic]
  split
  · exact confined
  · next valid =>
      split
      · exact confined
      · simp only [yields_bind, yields_config]
        refine (keeps_registryCreate valid _ b confined).mono ?_ fun _ _ failed => failed
        exact fun t b' created => (keeps_persistTopics b' created).mono (fun _ _ kept => kept)
          fun _ _ kept => kept

theorem keeps_registryDelete : Keeps (Confined acl cfg) (registryDelete name) := by
  intro b confined
  refine (registryDelete_spec name b).mono ?_ ?_
  · rintro - b' ⟨b'', outside, rfl, -⟩
    rw [← outside.topics]
    exact (confined.outside outside).erase name
  · rintro - b' (outside | ⟨t, b'', found, outside, rfl⟩)
    · exact confined.outside outside
    · have kept := confined.outside outside
      refine kept.insert (confined.proper name t found).1 (t := { t with partitions := [] }) ?_ rfl rfl
        (by rw [outside.topics])
      intro idx l none'
      cases none'

theorem keeps_onArchive {α : Type} (default : α) (act : Archive → α × Archive) :
    Keeps (Confined acl cfg) (onArchive default act) := by
  intro b confined
  rw [onArchive, yields_modifyGet]
  split <;> exact confined.of_topics rfl rfl rfl

theorem keeps_answer : Keeps (Confined acl cfg) answer := by
  intro b confined
  rw [yields_answer]
  exact confined.of_topics rfl rfl rfl

theorem keeps_config : Keeps (Confined acl cfg) config := fun _ confined => confined

theorem keeps_getTopic : Keeps (Confined acl cfg) (getTopic name) := fun _ confined => confined

theorem keeps_files {l : LogHandle} : Keeps (Confined acl cfg) (files l) := fun _ confined => confined

theorem keeps_onFiles {α : Type} (path : Path) (generation : Nat) (ticks : List Tick)
    (prog : SysM α) : Keeps (Confined acl cfg) (onFiles path generation ticks prog) :=
  fun _ confined => confined.of_topics rfl rfl rfl

theorem keeps_removeAll (path : Path) : Keeps (Confined acl cfg) (removeAll path) :=
  fun _ confined => confined.of_topics rfl rfl rfl

theorem keeps_deleteTopic : Keeps (Confined acl cfg) (deleteTopic name) := by
  rw [deleteTopic]
  split
  · exact keeps_throw _
  · refine keeps_registryDelete.bind fun _ => keeps_persistTopics.bind fun _ => ?_
    refine Keeps.bind ?_ fun forgotten => Keeps.bind ?_ fun dropped => Keeps.bind ?_ fun removed => ?_
    · exact keeps_answer.bind fun a => (keeps_onArchive _ _).bind fun _ => keeps_pure _
    · exact keeps_answer.bind fun a => (keeps_onArchive _ _).bind fun _ => keeps_pure _
    · refine keeps_config.bind fun cfg => keeps_answer.bind fun a => ?_
      split
      · exact (keeps_removeAll _).bind fun _ => keeps_pure _
      · exact keeps_pure _
    · split
      · exact keeps_pure _
      · exact keeps_throw _

theorem keeps_fetchArchived {partition offset maxBytes hwm logStart : Int} {tenant : String} :
    Keeps (Confined acl cfg)
      (fetchArchived name partition offset maxBytes tenant hwm logStart) := by
  refine Keeps.bind (fun _ confined => confined) fun b => ?_
  split
  · exact keeps_pure _
  · refine keeps_answer.bind fun a => (keeps_onArchive _ _).bind fun result => ?_
    split
    · exact keeps_pure _
    · exact keeps_throw _
    · exact keeps_pure _
    · exact keeps_pure _

theorem keeps_fetchAuthorized (partition offset maxBytes : Int) (tenant : String) :
    Keeps (Confined acl cfg) (fetchAuthorized name partition offset maxBytes tenant) := by
  refine keeps_getTopic.bind fun found => ?_
  split
  · exact keeps_pure _
  · split
    · exact keeps_pure _
    · refine keeps_getTopic.bind fun found => ?_
      split
      · exact keeps_pure _
      · split
        · exact keeps_pure _
        · refine keeps_files.bind fun world => ?_
          split
          · exact keeps_pure _
          · exact keeps_throw _
          · split
            · exact keeps_fetchArchived
            · exact keeps_pure _

theorem keeps_listOffsets (partition timestamp : Int) :
    Keeps (Confined acl cfg) (listOffsets name partition timestamp) := by
  refine keeps_getTopic.bind fun found => ?_
  split
  · exact keeps_throw _
  · split
    · exact keeps_throw _
    · split
      · exact keeps_pure _
      · split
        · exact keeps_pure _
        · split <;> exact keeps_pure _

theorem keeps_setLog (name : String) (idx : Nat) (log : Log) : Keeps (Confined acl cfg) (setLog name idx log) := by
  intro b confined
  rw [setLog, yields_modify]
  split
  · exact confined
  · next t found =>
      obtain ⟨valid, housed⟩ := confined.proper name t found
      refine confined.insert valid (fun place l there => ?_) rfl rfl rfl
      rw [List.getElem?_modify] at there
      obtain ⟨old, before, rfl⟩ := Option.map_eq_some_iff.mp there
      have dir := housed place old before
      split <;> exact dir

theorem keeps_appendTo (idx : Nat) (l : LogHandle) (batches : List Bytes) :
    Keeps (Confined acl cfg) (appendTo name idx l batches) := by
  refine keeps_answer.bind fun a => (keeps_onFiles _ _ _ _).bind fun run => ?_
  split
  · exact keeps_throw _
  · refine (keeps_setLog name idx _).bind fun _ => ?_
    split
    · exact keeps_pure _
    · exact keeps_throw _

theorem keeps_appendBatchesAuthorized
    (valid : cfg.autoCreateTopics = true → validateName "topic" name = .ok ())
    (partition : Int) (batches : List Bytes) (tenant : String) :
    Keeps (Confined acl cfg) (appendBatchesAuthorized name partition batches tenant) := by
  refine Keeps.bind ?_ fun t => ?_
  · refine keeps_getTopic.bind fun found => ?_
    split
    · exact keeps_pure _
    · exact keeps_config.bind fun _ => keeps_ensureTopicForTenant valid _ tenant
  · split
    · exact keeps_throw _
    · split
      · exact keeps_throw _
      · exact keeps_appendTo _ _ batches

end Kept

end KafkaWire.Broker
