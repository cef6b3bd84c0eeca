import KafkaWire.Lib.Machine
import KafkaWire.Tiering.Cached
import KafkaWire.Tiering.Restorer
import KafkaWire.Tiering.Uploader

/-! The life of an archive: segments are uploaded, deleted locally and restored into the cache, and
topics are deleted. A restore takes its entry from the manifest first and fills the cache later; the
steps of `DeleteTopic` come one by one, and go on when one of them fails. -/

namespace KafkaWire.Tiering

open Paths (Plain)
open Broker (validateName)

/-- An archive with the restores that are under way, the offset where the local log of each partition
starts, and the entries that the manifest file has. -/
structure Archiving where
  archive : Archive
  restoring : List SegmentEntry
  starts : String → Int → Int
  saved : List SegmentEntry

inductive ArchiveEvent
  /-- An upload has put the object in place and records the segment. -/
  | archived (seg : SegmentSource) (run : UploadRun) (now : Int) (flushed : Bool)
  /-- Retention deletes the local segments below `start`. -/
  | expired (topic : String) (partition start : Int)
  | lookedUp (topic : String) (partition baseOffset : Int)
  | downloaded (entry : SegmentEntry) (attempt : Attempt)
  | opened (entry : SegmentEntry) (now : Int)
  | forgotten (topic : String) (flushed : Bool)
  | dropped (topic : String) (run : Cache.DropRun)
  /-- The topic's directory is removed, or what could be removed of it; its logs now start anew. -/
  | removed (topic : String) (starts : Int → Int)
  /-- The broker starts again with entries of its manifest file. -/
  | restarted (kept : List SegmentEntry)

def FS.put (fs : FS) (key : String) (data : Bytes) : FS :=
  match objectPath key with
  | some path => { fs with objects := fs.objects.insert path data }
  | none => fs

theorem FS.put_objects {fs : FS} {key : String} {path : List String} (data : Bytes)
    (place : objectPath key = some path) :
    (fs.put key data).objects = fs.objects.insert path data := by
  rw [FS.put, place]

namespace Archiving

variable (cfg : Config)

def withManifest (s : Archiving) (manifest : Manifest) (flushed : Bool) : Archiving :=
  { s with
    archive := { s.archive with manifest := manifest }
    saved := if flushed then manifest.completed else s.saved }

def step (s : Archiving) : ArchiveEvent → Archiving
  | .archived seg run now flushed =>
    withManifest
      { s with archive := { s.archive with store := s.archive.store.put run.key run.file.data } }
      (s.archive.manifest.addCompleted (UploadStage.entry cfg s.archive.crypto seg run now)) flushed
  | .expired topic partition start =>
    { s with
      starts := fun t p => if t = topic ∧ p = partition then start else s.starts t p }
  | .lookedUp topic partition baseOffset =>
    { s with
      restoring := s.restoring ++ (s.archive.manifest.lookup topic partition baseOffset).toList }
  | .downloaded entry attempt => { s with archive := (s.archive.downloadOnce entry attempt).2 }
  | .opened entry now =>
    { s with
      archive :=
        { s.archive with
          cache := (s.archive.cache.openTenant entry.tenantID entry.topic entry.partition
            entry.baseOffset now).2 } }
  | .forgotten topic flushed => s.withManifest (s.archive.manifest.forgetTopic topic) flushed
  | .dropped topic run =>
    { s with archive := { s.archive with cache := s.archive.cache.dropTopic topic run } }
  | .removed topic starts =>
    { s with starts := fun t p => if t = topic then starts p else s.starts t p }
  | .restarted kept =>
    { s with
      restoring := []
      archive := { s.archive with manifest := { s.archive.manifest with completed := kept } } }

/-- What the broker does: it uploads the sealed segments of the local log, deletes from the front,
and turns to the archive for offsets below the local log only. -/
def Enabled (s : Archiving) : ArchiveEvent → Prop
  | .archived seg run _ _ =>
    run.key = UploadStage.key cfg seg ∧ run.tenantID = UploadStage.tenantID cfg seg ∧
      run.sha = s.archive.crypto.sha256 run.file.data ∧
      s.starts seg.topic seg.partition ≤ seg.baseOffset
  | .expired topic partition start => s.starts topic partition ≤ start
  | .lookedUp topic partition baseOffset => baseOffset < s.starts topic partition
  | .downloaded entry _ => entry ∈ s.restoring
  | .restarted kept => kept.Sublist s.saved
  | _ => True

/-- The names are path components. No download reaches the cache after its topic was deleted: its
entry is in the manifest and its segment is not in the local log. When the directory of a topic is
removed, the cache has no file of it, and a restart brings no entry back that was forgotten. -/
def Fitting (s : Archiving) : ArchiveEvent → Prop
  | .archived seg run _ _ =>
    validateName "topic" seg.topic = .ok () ∧ (run.tenantID = "" ∨ Plain run.tenantID)
  | .downloaded entry _ =>
    entry ∈ s.archive.manifest.completed ∧
      entry.baseOffset < s.starts entry.topic entry.partition
  | .removed topic _ =>
    s.archive.cache.filesUnder (s.archive.cache.topicDirs s.archive.cache.tenants topic) = []
  | .restarted kept => ∀ entry ∈ kept, entry ∈ s.archive.manifest.completed
  | _ => True

instance (s : Archiving) : (event : ArchiveEvent) → Decidable (s.Enabled cfg event)
  | .archived _ _ _ _ => inferInstanceAs (Decidable (_ ∧ _ ∧ _ ∧ _))
  | .expired _ _ _ => inferInstanceAs (Decidable (_ ≤ _))
  | .lookedUp _ _ _ => inferInstanceAs (Decidable (_ < _))
  | .downloaded _ _ => inferInstanceAs (Decidable (_ ∈ _))
  | .restarted _ => inferInstanceAs (Decidable (List.Sublist _ _))
  | .opened _ _ | .forgotten _ _ | .dropped _ _ | .removed _ _ => inferInstanceAs (Decidable True)

instance (s : Archiving) : (event : ArchiveEvent) → Decidable (s.Fitting event)
  | .archived _ _ _ _ => inferInstanceAs (Decidable (_ ∧ _))
  | .downloaded _ _ => inferInstanceAs (Decidable (_ ∧ _))
  | .removed _ _ => inferInstanceAs (Decidable (s.archive.cache.filesUnder _ = []))
  | .restarted kept => inferInstanceAs (Decidable (∀ entry ∈ kept, _))
  | .expired _ _ _ | .lookedUp _ _ _ | .opened _ _ | .forgotten _ _ | .dropped _ _ =>
    inferInstanceAs (Decidable True)

/-- An entry as `uploadOne` records it, with the object that it names. -/
structure Stored (a : Archive) (e : SegmentEntry) : Prop where
  valid : validateName "topic" e.topic = .ok ()
  owner : e.tenantID = "" ∨ Plain e.tenantID
  signed : e.verifySignature a.crypto a.hmacKey = true
  object : ∃ front data,
    objectPath e.s3Key = some (front ++ copyNames e.topic e.partition e.baseOffset) ∧
      a.store.objects.lookup (front ++ copyNames e.topic e.partition e.baseOffset) = some data ∧
      a.crypto.sha256 data = e.sha256

/-- The entries do not overlap, and a restored file is one of a segment that is not in the local
log; if that segment is archived, the file has its digest. -/
structure Sound (cfg : Config) (s : Archiving) : Prop where
  key : s.archive.hmacKey = cfg.hmacKey
  disjoint : s.archive.manifest.completed.Pairwise fun e e' => Manifest.replacedBy e' e = false
  saved : s.saved.Pairwise fun e e' => Manifest.replacedBy e' e = false
  stored : ∀ e ∈ s.archive.manifest.completed, Stored s.archive e
  cached : ∀ path file, s.archive.cache.files.lookup path = some file →
    ∃ tenant topic partition baseOffset,
      path = s.archive.cache.pathTenant tenant topic partition baseOffset ∧
      validateName "topic" topic = .ok () ∧ (tenant = "" ∨ Plain tenant) ∧
      baseOffset < s.starts topic partition ∧
      ∀ e ∈ s.archive.manifest.completed, e.topic = topic → e.partition = partition →
        e.baseOffset = baseOffset →
        e.tenantID = tenant ∧ s.archive.crypto.sha256 file.data = e.sha256

end Archiving

theorem Manifest.replacedBy_comm (first second : SegmentEntry) :
    replacedBy first second = replacedBy second first := by
  simp only [replacedBy, eq_comm, Bool.and_comm]

theorem Manifest.eq_of_replacedBy {entries : List SegmentEntry}
    (disjoint : entries.Pairwise fun e e' => replacedBy e' e = false) {e e' : SegmentEntry}
    (member : e ∈ entries) (member' : e' ∈ entries) (overlap : replacedBy e' e = true) : e = e' := by
  by_contra different
  have symmetric : Std.Symm fun e e' => replacedBy e' e = false :=
    ⟨fun a b apart => by rw [replacedBy_comm]; exact apart⟩
  have apart := disjoint.forall member member' different
  rw [apart] at overlap
  cases overlap

theorem Manifest.replacedBy_of_base {e e' : SegmentEntry} (topic : e.topic = e'.topic)
    (partition : e.partition = e'.partition) (base : e.baseOffset = e'.baseOffset) :
    replacedBy e e' = true := by
  simp [replacedBy, topic, partition, base]

theorem Manifest.mem_addCompleted {m : Manifest} {entry e : SegmentEntry}
    (member : e ∈ (m.addCompleted entry).completed) :
    e ∈ m.completed ∧ replacedBy entry e = false ∨ e = entry := by
  simpa [addCompleted, List.mem_filter] using member

theorem Manifest.addCompleted_disjoint {m : Manifest} (entry : SegmentEntry)
    (disjoint : m.completed.Pairwise fun e e' => replacedBy e' e = false) :
    (m.addCompleted entry).completed.Pairwise fun e e' => replacedBy e' e = false := by
  refine List.pairwise_append.mpr ⟨disjoint.filter _, List.pairwise_singleton _ _, ?_⟩
  intro e member e' last
  rw [List.mem_singleton.mp last]
  simpa using (List.mem_filter.mp member).2

namespace Archiving

variable {cfg : Config} {s : Archiving}

theorem Stored.congr {a a' : Archive} {e : SegmentEntry} (stored : Stored a e)
    (crypto : a'.crypto = a.crypto) (key : a'.hmacKey = a.hmacKey)
    (objects : a'.store.objects = a.store.objects) : Stored a' e where
  valid := stored.valid
  owner := stored.owner
  signed := by rw [crypto, key]; exact stored.signed
  object := by rw [crypto, objects]; exact stored.object

theorem Stored.put {a : Archive} {e : SegmentEntry} (stored : Stored a e) {path : String}
    {front : List String} {topic : String} {partition baseOffset : Int} (data : Bytes)
    (manifest : Manifest) (where' : objectPath path = some (front ++ copyNames topic partition baseOffset))
    (other : ¬ (e.topic = topic ∧ e.partition = partition ∧ e.baseOffset = baseOffset)) :
    Stored { a with store := a.store.put path data, manifest := manifest } e := by
  obtain ⟨start, old, place, found, digest⟩ := stored.object
  refine ⟨stored.valid, stored.owner, stored.signed, start, old, place, ?_, digest⟩
  rw [FS.put_objects _ where', AList.lookup_insert_ne]
  · exact found
  · intro same
    obtain ⟨-, topics, partitions, bases⟩ := append_copyNames_injective same
    exact other ⟨topics, partitions, bases⟩

theorem verifySignature_entry (crypto : Crypto) (seg : SegmentSource) (run : UploadRun) (now : Int) :
    (UploadStage.entry cfg crypto seg run now).verifySignature crypto cfg.hmacKey = true := by
  simp only [SegmentEntry.verifySignature, UploadStage.entry]
  by_cases unkeyed : cfg.hmacKey.isEmpty = true
  · simp [unkeyed]
  · simp [unkeyed]

theorem downloadOnce_cases (a : Archive) (entry : SegmentEntry) (attempt : Attempt) :
    (a.downloadOnce entry attempt).2 = a ∨
      ∃ data cache, a.cache.putTenantStream a.crypto entry.tenantID entry.topic entry.partition
          entry.baseOffset data entry.sha256 attempt.now = some cache ∧
        (a.downloadOnce entry attempt).2 = { a with cache := cache } := by
  rw [Archive.downloadOnce]
  split
  · next object _ _ =>
      split
      · exact .inl rfl
      · next cache put _ => exact .inr ⟨_, cache, put, rfl⟩
      · next cache put _ => exact .inr ⟨_, cache, put, rfl⟩
      · exact .inl rfl
  · exact .inl rfl

section Steps

variable (sound : Sound cfg s)

include sound

theorem Sound.flushed {entries : List SegmentEntry}
    (disjoint : entries.Pairwise fun e e' => Manifest.replacedBy e' e = false) (flushed : Bool) :
    (if flushed then entries else s.saved).Pairwise fun e e' => Manifest.replacedBy e' e = false := by
  split
  · exact disjoint
  · exact sound.saved

theorem Sound.archived (seg : SegmentSource) (run : UploadRun) (now : Int)
    (flushed : Bool) (enabled : s.Enabled cfg (.archived seg run now flushed))
    (fitting : s.Fitting (.archived seg run now flushed)) :
    Sound cfg (s.step cfg (.archived seg run now flushed)) := by
  obtain ⟨key, tenant, sha, ahead⟩ := enabled
  obtain ⟨valid, owner⟩ := fitting
  obtain ⟨front, place⟩ := objectPath_key cfg.keyPrefix (UploadStage.tenantID cfg seg)
    seg.partition seg.baseOffset valid
  have place' : objectPath run.key = some (front ++ copyNames seg.topic seg.partition seg.baseOffset) := by
    rw [key]
    exact place
  have disjoint := Manifest.addCompleted_disjoint
    (UploadStage.entry cfg s.archive.crypto seg run now) sound.disjoint
  refine ⟨sound.key, disjoint, sound.flushed disjoint flushed, ?_, ?_⟩
  · intro e member
    rcases Manifest.mem_addCompleted member with ⟨old, apart⟩ | rfl
    · refine (sound.stored e old).put run.file.data _ place' ?_
      rintro ⟨topic, partition, base⟩
      rw [Manifest.replacedBy_of_base topic.symm partition.symm base.symm] at apart
      cases apart
    · refine ⟨valid, owner, ?_, front, run.file.data, place', ?_, sha.symm⟩
      · show SegmentEntry.verifySignature _ s.archive.hmacKey _ = true
        rw [sound.key]
        exact verifySignature_entry _ seg run now
      · show (s.archive.store.put run.key run.file.data).objects.lookup
          (front ++ copyNames seg.topic seg.partition seg.baseOffset) = some run.file.data
        rw [FS.put_objects _ place', AList.lookup_insert]
  · intro path file found
    obtain ⟨tenant', topic, partition, base, here, valid', owner', below, match'⟩ :=
      sound.cached path file found
    refine ⟨tenant', topic, partition, base, here, valid', owner', below, ?_⟩
    intro e member topics partitions bases
    rcases Manifest.mem_addCompleted member with ⟨old, -⟩ | rfl
    · exact match' e old topics partitions bases
    · -- the segment is in the local log, so no restored file can be of it
      have topics : seg.topic = topic := topics
      have partitions : seg.partition = partition := partitions
      have bases : seg.baseOffset = base := bases
      rw [topics, partitions] at ahead
      omega

theorem Sound.expired (topic : String) (partition start : Int)
    (enabled : s.Enabled cfg (.expired topic partition start)) :
    Sound cfg (s.step cfg (.expired topic partition start)) := by
  refine ⟨sound.key, sound.disjoint, sound.saved, sound.stored, ?_⟩
  intro path file found
  obtain ⟨tenant, topic', partition', base, here, valid, owner, below, match'⟩ :=
    sound.cached path file found
  refine ⟨tenant, topic', partition', base, here, valid, owner, ?_, match'⟩
  have onwards : s.starts topic partition ≤ start := enabled
  simp only [step]
  split
  · next same =>
      rw [same.1, same.2] at below
      omega
  · exact below

theorem Sound.recached (cache : Cache) (dir : cache.dir = s.archive.cache.dir)
    (fewer : ∀ path file, cache.files.lookup path = some file →
      ∃ old, s.archive.cache.files.lookup path = some old ∧ old.data = file.data) :
    Sound cfg { s with archive := { s.archive with cache := cache } } := by
  refine ⟨sound.key, sound.disjoint, sound.saved,
    fun e member => (sound.stored e member).congr rfl rfl rfl, ?_⟩
  intro path file found
  obtain ⟨old, before, data⟩ := fewer path file found
  obtain ⟨tenant, topic, partition, base, here, rest⟩ := sound.cached path old before
  rw [data] at rest
  refine ⟨tenant, topic, partition, base, ?_, rest⟩
  rw [here, Cache.pathTenant, Cache.pathTenant, dir]

theorem Sound.opened (entry : SegmentEntry) (now : Int) :
    Sound cfg (s.step cfg (.opened entry now)) := by
  apply sound.recached
  · rw [Cache.openTenant]
    split <;> rfl
  · intro path file found
    rw [Cache.openTenant] at found
    split at found
    · exact ⟨file, found, rfl⟩
    · next old before =>
        rw [Tables.lookup_insert_eq] at found
        split at found
        · next same => exact ⟨old, by rw [same]; exact before, by rw [← Option.some.inj found]⟩
        · exact ⟨file, found, rfl⟩

theorem Sound.restarted (kept : List SegmentEntry)
    (enabled : s.Enabled cfg (.restarted kept)) (fitting : s.Fitting (.restarted kept)) :
    Sound cfg (s.step cfg (.restarted kept)) := by
  refine ⟨sound.key, sound.saved.sublist enabled, sound.saved,
    fun e member => (sound.stored e (fitting e member)).congr rfl rfl rfl, ?_⟩
  intro path file found
  obtain ⟨tenant, topic, partition, base, here, valid, owner, below, match'⟩ :=
    sound.cached path file found
  exact ⟨tenant, topic, partition, base, here, valid, owner, below,
    fun e member => match' e (fitting e member)⟩

theorem Sound.forgotten (topic : String) (flushed : Bool) :
    Sound cfg (s.step cfg (.forgotten topic flushed)) := by
  have fewer : (s.archive.manifest.forgetTopic topic).completed.Sublist
      s.archive.manifest.completed := List.filter_sublist
  have disjoint := sound.disjoint.sublist fewer
  refine ⟨sound.key, disjoint, sound.flushed disjoint flushed,
    fun e member => (sound.stored e (fewer.subset member)).congr rfl rfl rfl, ?_⟩
  intro path file found
  obtain ⟨tenant, topic', partition, base, here, valid, owner, below, match'⟩ :=
    sound.cached path file found
  exact ⟨tenant, topic', partition, base, here, valid, owner, below,
    fun e member => match' e (fewer.subset member)⟩

theorem Sound.dropped (topic : String) (run : Cache.DropRun) :
    Sound cfg (s.step cfg (.dropped topic run)) :=
  sound.recached _ rfl fun _ file found => ⟨file, Cache.dropTopic_sub found, rfl⟩

theorem Sound.removed (topic : String) (starts : Int → Int)
    (fitting : s.Fitting (.removed topic starts)) : Sound cfg (s.step cfg (.removed topic starts)) := by
  refine ⟨sound.key, sound.disjoint, sound.saved, sound.stored, ?_⟩
  intro path file found
  obtain ⟨tenant, topic', partition, base, here, valid, owner, below, match'⟩ :=
    sound.cached path file found
  refine ⟨tenant, topic', partition, base, here, valid, owner, ?_, match'⟩
  simp only [step]
  split
  · next same =>
      -- no file of the topic is left, so this one cannot be of it
      have left := Cache.mem_filesUnder valid owner (here ▸ found)
      rw [same, show Cache.filesUnder _ _ = [] from fitting] at left
      exact absurd left List.not_mem_nil
  · exact below

theorem Sound.downloaded (hex : ∀ data, s.archive.crypto.sha256 data ≠ "")
    (entry : SegmentEntry) (attempt : Attempt) (fitting : s.Fitting (.downloaded entry attempt)) :
    Sound cfg (s.step cfg (.downloaded entry attempt)) := by
  obtain ⟨current, below⟩ := fitting
  have stored := sound.stored entry current
  rw [step]
  rcases downloadOnce_cases s.archive entry attempt with same | ⟨data, cache, put, after⟩
  · rw [same]
    exact sound
  · obtain ⟨digest, dir, -, files⟩ := Cache.putTenantStream_spec put
    rw [after]
    refine ⟨sound.key, sound.disjoint, sound.saved,
      fun e member => (sound.stored e member).congr rfl rfl rfl, ?_⟩
    intro path file found
    rcases files path file found with ⟨here, rfl⟩ | before
    · refine ⟨entry.tenantID, entry.topic, entry.partition, entry.baseOffset, ?_, stored.valid,
        stored.owner, below, ?_⟩
      · rw [here, Cache.pathTenant, Cache.pathTenant, dir]
      · intro e member topic partition base
        have same := Manifest.eq_of_replacedBy sound.disjoint current member
          (Manifest.replacedBy_of_base topic partition base)
        obtain ⟨-, object, -, -, named⟩ := stored.object
        rw [← same]
        exact ⟨rfl, digest (named ▸ hex object)⟩
    · obtain ⟨tenant, topic, partition, base, here, rest⟩ := sound.cached path file before
      refine ⟨tenant, topic, partition, base, ?_, rest⟩
      rw [here, Cache.pathTenant, Cache.pathTenant, dir]

theorem Sound.step (hex : ∀ data, s.archive.crypto.sha256 data ≠ "")
    (event : ArchiveEvent) (enabled : s.Enabled cfg event) (fitting : s.Fitting event) :
    Sound cfg (s.step cfg event) := by
  cases event with
  | archived seg run now flushed => exact sound.archived seg run now flushed enabled fitting
  | expired topic partition start => exact sound.expired topic partition start enabled
  | lookedUp topic partition base =>
    exact ⟨sound.key, sound.disjoint, sound.saved, sound.stored, sound.cached⟩
  | downloaded entry attempt => exact sound.downloaded hex entry attempt fitting
  | opened entry now => exact sound.opened entry now
  | forgotten topic flushed => exact sound.forgotten topic flushed
  | dropped topic run => exact sound.dropped topic run
  | removed topic starts => exact sound.removed topic starts fitting
  | restarted kept => exact sound.restarted kept enabled fitting

end Steps

def start (cfg : Config) (crypto : Crypto) (dir : String) (maxBytes : Int) : Archiving where
  archive := ⟨{}, ⟨dir, maxBytes, ∅⟩, ⟨∅, ∅, ∅⟩, crypto, cfg.hmacKey⟩
  restoring := []
  starts := fun _ _ => 0
  saved := []

end Archiving

end KafkaWire.Tiering
