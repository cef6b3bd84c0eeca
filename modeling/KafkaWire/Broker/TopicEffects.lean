import KafkaWire.Broker.Topics
import KafkaWire.Lib.Tables

/-! What the operations on topics can change. -/

namespace KafkaWire.Broker

open Paths (Path)
open Programs Storage Tiering

variable {b b' : BrokerState}

def after {α : Type} (answers : List Answer) (prog : BrokerM α) (b : BrokerState) : BrokerState :=
  match prog { b with script := answers } with
  | .ok _ b' => b'
  | .error _ b' => b'

theorem after_cases {α : Type} {answers : List Answer} {prog : BrokerM α}
    {post : α → BrokerState → Prop} {failed : BrokerErr → BrokerState → Prop}
    (holds : Yields prog { b with script := answers } post failed) :
    (∃ value, post value (after answers prog b)) ∨ ∃ err, failed err (after answers prog b) := by
  rw [after]
  rcases ran : prog { b with script := answers } with ⟨value, b'⟩ | ⟨err, b'⟩
  · exact .inl ⟨value, holds.of_ok ran⟩
  · exact .inr ⟨err, holds.of_error ran⟩

theorem configs_lookup (b : BrokerState) (name : String) :
    (configs b).lookup name = (b.topics.lookup name).map Topic.cfg :=
  Tables.lookup_map (fun _ => Topic.cfg) _ _

structure Outside (b b' : BrokerState) : Prop where
  cfg : b'.cfg = b.cfg
  acl : b'.acl = b.acl
  topics : b'.topics = b.topics
  topicsFile : b'.topicsFile = b.topicsFile
  archive : b'.archive = b.archive
  nextLog : b.nextLog ≤ b'.nextLog

theorem Outside.refl (b : BrokerState) : Outside b b := ⟨rfl, rfl, rfl, rfl, rfl, le_refl _⟩

theorem Outside.trans {b'' : BrokerState} (first : Outside b b') (second : Outside b' b'') :
    Outside b b'' :=
  ⟨second.cfg.trans first.cfg, second.acl.trans first.acl, second.topics.trans first.topics,
    second.topicsFile.trans first.topicsFile, second.archive.trans first.archive,
    first.nextLog.trans second.nextLog⟩

theorem closePartitions_outside (parts : List LogHandle) (b : BrokerState) :
    Yields (closePartitions parts) b (fun _ => Outside b) fun _ _ => False := by
  induction parts generalizing b with
  | nil => exact Outside.refl b
  | cons l rest ih =>
    simp only [closePartitions, yields_bind, yields_answer, onFiles, yields_modifyGet]
    refine (ih _).mono ?_ fun _ _ impossible => impossible
    intro later b' outside
    have step : Outside b b' := ⟨outside.cfg, outside.acl, outside.topics, outside.topicsFile,
      outside.archive, outside.nextLog⟩
    split <;> exact step

/-- An opened log has one of the numbers given out since `low`, and its files are in the directory
of its partition. -/
structure Opened (cfg : Config) (low high : Nat) (name : String) (partition : Int)
    (l : LogHandle) : Prop where
  dir : l.dir = partitionDir cfg name partition
  partition : l.partition = partition
  fresh : low ≤ l.id
  taken : l.id < high

theorem openPartition_spec (name : String) (partition : Int) (b : BrokerState) :
    Yields (openPartition name partition) b
      (fun opened b' => Outside b b' ∧
        ∀ l, opened = .ok l → Opened b.cfg b.nextLog b'.nextLog name partition l)
      fun _ _ => False := by
  simp only [openPartition, yields_bind, yields_config, yields_answer, makeDir, onFiles,
    yields_modifyGet]
  split
  · simp only [newLogID, yields_bind, yields_modifyGet, yields_pure]
    refine ⟨⟨rfl, rfl, rfl, rfl, rfl, Nat.le_succ _⟩, ?_⟩
    rintro l ⟨⟩
    exact ⟨rfl, rfl, le_refl _, Nat.lt_succ_self _⟩
  · exact ⟨⟨rfl, rfl, rfl, rfl, rfl, le_refl _⟩, nofun⟩

def OpenedAll (cfg : Config) (low high : Nat) (name : String) (parts : List LogHandle) : Prop :=
  ∀ (idx : Nat) (l : LogHandle), parts[idx]? = some l → Opened cfg low high name idx l

theorem openPartitions_spec (name : String) (count : Nat) (parts : List LogHandle)
    (before : Outside b b') (opened : OpenedAll b.cfg b.nextLog b'.nextLog name parts) :
    Yields (openPartitions name count parts.length parts) b'
      (fun all b'' => Outside b b'' ∧ OpenedAll b.cfg b.nextLog b''.nextLog name all ∧
        all.length = parts.length + count)
      fun _ => Outside b := by
  induction count generalizing parts b' with
  | zero => exact ⟨before, opened, rfl⟩
  | succ count ih =>
    simp only [openPartitions, yields_bind]
    refine (openPartition_spec name parts.length b').mono ?_ fun _ _ impossible => impossible.elim
    rintro (err | l) b'' ⟨outside, one⟩
    · simp only [yields_bind]
      refine (closePartitions_outside parts b'').mono ?_ fun _ _ impossible => impossible.elim
      exact fun _ final closed => (before.trans outside).trans closed
    · obtain ⟨dir, partition, fresh, taken⟩ := one l rfl
      have more : OpenedAll b.cfg b.nextLog b''.nextLog name (parts ++ [l]) := by
        intro idx other found
        rcases lt_trichotomy idx parts.length with old | rfl | beyond
        · rw [List.getElem?_append_left old] at found
          obtain ⟨dir, partition, fresh, taken⟩ := opened idx other found
          exact ⟨dir, partition, fresh, taken.trans_le outside.nextLog⟩
        · rw [List.getElem?_concat_length, Option.some.injEq] at found
          subst found
          exact ⟨before.cfg ▸ dir, partition, before.nextLog.trans fresh, taken⟩
        · rw [List.getElem?_eq_none (by simp; omega)] at found
          cases found
      have next := ih (parts ++ [l]) (before.trans outside) more
      rw [List.length_append, List.length_singleton] at next
      refine next.mono ?_ fun _ _ failed => failed
      rintro all final ⟨outside, opened, length⟩
      exact ⟨outside, opened, by omega⟩

structure Created (b b' : BrokerState) (name : String) (cfg : TopicConfig) (t : Topic) : Prop where
  named : name ≠ ""
  free : b.topics.lookup name = none
  owner : t.cfg.ownerTenantID = cfg.ownerTenantID
  opened : OpenedAll b.cfg b.nextLog b'.nextLog name t.partitions
  topics : b'.topics = b.topics.insert name t
  cfg : b'.cfg = b.cfg
  acl : b'.acl = b.acl
  topicsFile : b'.topicsFile = b.topicsFile
  archive : b'.archive = b.archive
  nextLog : b.nextLog ≤ b'.nextLog

theorem registryCreate_spec (name : String) (cfg : TopicConfig) (b : BrokerState) :
    Yields (registryCreate name cfg) b (fun t b' => Created b b' name cfg t) fun _ => Outside b := by
  rw [registryCreate]
  split
  · exact Outside.refl b
  · next named =>
      simp only [yields_bind, yields_getTopic]
      rcases free : b.topics.lookup name with _ | t
      · simp only [yields_bind, putTopic, yields_modify, yields_pure]
        have none' : OpenedAll b.cfg b.nextLog b.nextLog name [] := by
          intro idx l found
          cases found
        refine (openPartitions_spec name _ [] (Outside.refl b) none').mono ?_ fun _ _ failed => failed
        rintro parts b' ⟨outside, opened, -⟩
        exact ⟨named, free, rfl, opened, by rw [← outside.topics], outside.cfg, outside.acl,
          outside.topicsFile, outside.archive, outside.nextLog⟩
      · exact Outside.refl b

/-- What a topic's deletion leaves of the registry: everything but the topic, which is gone, or is
there without its logs when they could not be closed. -/
theorem registryDelete_spec (name : String) (b : BrokerState) :
    Yields (registryDelete name) b
      (fun _ b' => ∃ b'', Outside b b'' ∧ b' = { b'' with topics := b.topics.erase name } ∧
        (b.topics.lookup name).isSome = true)
      (fun _ b' => Outside b b' ∨ ∃ t b'', b.topics.lookup name = some t ∧ Outside b b'' ∧
        b' = { b'' with topics := b.topics.insert name { t with partitions := [] } }) := by
  simp only [registryDelete, yields_bind, yields_getTopic]
  rcases found : b.topics.lookup name with _ | t
  · exact .inl (Outside.refl b)
  · simp only [yields_bind]
    refine (closePartitions_outside t.partitions b).mono ?_ fun _ _ impossible => impossible.elim
    rintro (_ | err) b' outside
    · exact ⟨b', outside, by rw [← outside.topics], rfl⟩
    · exact .inr ⟨t, b', rfl, outside, by rw [← outside.topics]⟩

/-- Every topic of `b'` was one of `b`, with the same configuration and no new logs, or it is new
with new logs and the owner `fresh`. The topics of `b` stay, but for one. -/
structure Evolves (gone : Option String) (fresh : String) (b b' : BrokerState) : Prop where
  archive : b'.archive = b.archive
  nextLog : b.nextLog ≤ b'.nextLog
  topics : ∀ name t', b'.topics.lookup name = some t' →
    (∃ t, b.topics.lookup name = some t ∧ t'.cfg = t.cfg ∧
      ∀ l' ∈ t'.partitions, ∃ l ∈ t.partitions, l.id = l'.id) ∨
    (t'.cfg.ownerTenantID = fresh ∧ ∀ l' ∈ t'.partitions, b.nextLog ≤ l'.id ∧ l'.id < b'.nextLog)
  kept : ∀ name t, some name ≠ gone → b.topics.lookup name = some t →
    ∃ t', b'.topics.lookup name = some t' ∧ t'.cfg = t.cfg

theorem Evolves.of_topics (gone : Option String) (fresh : String)
    (archive : b'.archive = b.archive) (same : b'.topics = b.topics)
    (later : b.nextLog ≤ b'.nextLog) : Evolves gone fresh b b' := by
  refine ⟨archive, later, fun name t found => .inl ⟨t, same ▸ found, rfl, fun l member => ⟨l, member, rfl⟩⟩, ?_⟩
  intro name t _ found
  exact ⟨t, same.symm ▸ found, rfl⟩

theorem Outside.evolves (gone : Option String) (fresh : String)
    (outside : Outside b b') : Evolves gone fresh b b' :=
  .of_topics gone fresh outside.archive outside.topics outside.nextLog

theorem Evolves.of_replaced {name : String} {t t' : Topic} (fresh : String)
    (found : b.topics.lookup name = some t) (same : t'.cfg = t.cfg)
    (old : ∀ l' ∈ t'.partitions, ∃ l ∈ t.partitions, l.id = l'.id)
    (archive : b'.archive = b.archive) (topics : b'.topics = b.topics.insert name t')
    (later : b.nextLog ≤ b'.nextLog) : Evolves none fresh b b' := by
  refine ⟨archive, later, ?_, ?_⟩
  · intro other t'' there
    rw [topics, Tables.lookup_insert_eq] at there
    split at there
    · next here =>
        cases there
        exact .inl ⟨t, here ▸ found, same, old⟩
    · exact .inl ⟨t'', there, rfl, fun l member => ⟨l, member, rfl⟩⟩
  · intro other t'' _ there
    rw [topics, Tables.lookup_insert_eq]
    split
    · next here =>
        subst here
        cases found.symm.trans there
        exact ⟨t', rfl, same⟩
    · exact ⟨t'', there, rfl⟩

theorem Created.evolves {name : String} {cfg : TopicConfig} {t : Topic}
    (created : Created b b' name cfg t) : Evolves none cfg.ownerTenantID b b' := by
  refine ⟨created.archive, created.nextLog, ?_, ?_⟩
  · intro other t' found
    rw [created.topics, Tables.lookup_insert_eq] at found
    split at found
    · cases found
      refine .inr ⟨created.owner, fun l member => ?_⟩
      obtain ⟨idx, found⟩ := List.mem_iff_getElem?.mp member
      exact ⟨(created.opened idx l found).fresh, (created.opened idx l found).taken⟩
    · exact .inl ⟨t', found, rfl, fun l member => ⟨l, member, rfl⟩⟩
  · intro other t' _ found
    have different : other ≠ name := by
      rintro rfl
      rw [created.free] at found
      cases found
    exact ⟨t', by rw [created.topics, AList.lookup_insert_ne different, found], rfl⟩

end KafkaWire.Broker
