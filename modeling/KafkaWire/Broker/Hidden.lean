import KafkaWire.Broker.Confined
import KafkaWire.Broker.HiddenArchive

/-! Two brokers that differ in one topic only, and the calls that neither see the difference nor
touch the topic. -/

namespace KafkaWire.Broker

open Paths (Path)
open Programs Storage Tiering

/-- What a broker has of a topic: the registered topic, its directories, its record in the file of
topics, its entries in the archive, and the store that its objects are in. -/
structure Hidden where
  topic : Option Topic
  dirs : Path → Dir
  recorded : Option TopicConfig
  archived : Option (List SegmentEntry)
  stored : Option FS

def hiddenPart (name : String) (b : BrokerState) : Hidden where
  topic := b.topics.lookup name
  dirs := b.dirs
  recorded := b.topicsFile.lookup name
  archived := b.archive.map fun a => a.manifest.allForTopic name
  stored := b.archive.map Archive.store

/-- The broker still has of the topic what it had. The file of topics is written anew from time to
time; it then has the registered configuration. -/
structure Untouched (name : String) (cfg : Config) (hidden : Hidden) (b : BrokerState) : Prop where
  topic : b.topics.lookup name = hidden.topic
  dirs : ∀ path, (topicDir cfg name).under path = true → b.dirs path = hidden.dirs path
  recorded : b.topicsFile.lookup name = hidden.recorded ∨
    b.topicsFile.lookup name = hidden.topic.map Topic.cfg
  archived : (b.archive.map fun a => a.manifest.allForTopic name) = hidden.archived
  stored : b.archive.map Archive.store = hidden.stored

/-- The two brokers differ in the topic only. What was restored into the cache is the same: all
topics share the cache, and its size decides what is evicted from it. -/
structure SameElsewhere (name : String) (cfg : Config) (b b' : BrokerState) : Prop where
  topics : ∀ other, other ≠ name → b.topics.lookup other = b'.topics.lookup other
  dirs : ∀ path, (topicDir cfg name).under path = false → b.dirs path = b'.dirs path
  topicsFile : ∀ other, other ≠ name → b.topicsFile.lookup other = b'.topicsFile.lookup other
  archive : Option.Rel (SameArchive name) b.archive b'.archive
  nextLog : b.nextLog = b'.nextLog
  script : b.script = b'.script
  grants : b.acl = b'.acl
  config : b.cfg = b'.cfg

def Away (name : String) (cfg : Config) (path : Path) : Prop := (topicDir cfg name).under path = false

def LogsAway (name : String) (cfg : Config) (t : Topic) : Prop :=
  ∀ l ∈ t.partitions, Away name cfg l.dir

/-- A topic that is not to be reached, by calls that may use the open logs of the topics in `held` and
make the partitions in `made`. -/
structure Walls where
  name : String
  acl : Option ACLStore
  cfg : Config
  held : String → Prop
  made : String → Nat → Prop
  hidden : Hidden
  hidden' : Hidden

/-- The files of what may be used and made are outside the directory of the topic. -/
structure Isolated (w : Walls) (b b' : BrokerState) : Prop where
  same : SameElsewhere w.name w.cfg b b'
  left : Untouched w.name w.cfg w.hidden b
  right : Untouched w.name w.cfg w.hidden' b'
  grants : b.acl = w.acl
  config : b.cfg = w.cfg
  logs : ∀ other t, w.held other → b.topics.lookup other = some t → LogsAway w.name w.cfg t
  rooms : ∀ other partition, w.made other partition → b.topics.lookup other = none →
    Away w.name w.cfg (partitionDir w.cfg other partition)

section Changes

variable {w : Walls} {b b' : BrokerState} (iso : Isolated w b b')

include iso

theorem Isolated.onDirs (change : (Path → Dir) → Path → Dir)
    (alike : ∀ dirs dirs' path, (∀ path, (topicDir w.cfg w.name).under path = false →
      dirs path = dirs' path) → (topicDir w.cfg w.name).under path = false →
      change dirs path = change dirs' path)
    (kept : ∀ dirs path, (topicDir w.cfg w.name).under path = true → change dirs path = dirs path) :
    Isolated w { b with dirs := change b.dirs }
      { b' with dirs := change b'.dirs } :=
  { iso with
    same := { iso.same with dirs := fun path away => alike _ _ path iso.same.dirs away }
    left := { iso.left with
      dirs := fun path inside => (kept _ path inside).trans (iso.left.dirs path inside) }
    right := { iso.right with
      dirs := fun path inside => (kept _ path inside).trans (iso.right.dirs path inside) } }

end Changes

section Apart

variable {cfg : Config} {name other : String}

end Apart

section Calls

variable {w : Walls}

theorem Isolated.update {b b' : BrokerState} (iso : Isolated w b b')
    {path : Path} (away : Away w.name w.cfg path) (change : Dir → Dir) :
    Isolated w
      { b with dirs := Function.update b.dirs path (change (b.dirs path)) }
      { b' with dirs := Function.update b'.dirs path (change (b'.dirs path)) } := by
  refine iso.onDirs (fun dirs => Function.update dirs path (change (dirs path))) ?_ ?_
  · intro dirs dirs' other alike apart
    simp only [Function.update_apply]
    split
    · rw [alike path away]
    · exact alike other apart
  · intro dirs other inside
    refine Function.update_of_ne ?_ _ _
    rintro rfl
    rw [away] at inside
    cases inside

end Calls

end KafkaWire.Broker
