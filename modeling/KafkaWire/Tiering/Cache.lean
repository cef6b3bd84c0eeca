import KafkaWire.Lib.Paths
import KafkaWire.Tiering.Manifest

/-! The directory of segments that were restored from cold storage. -/

namespace KafkaWire.Tiering

open Paths (Path)

structure CachedFile where
  data : Bytes
  mtime : Int
  deriving DecidableEq, Repr

structure Cache where
  dir : String
  maxBytes : Int
  files : AList (fun _ : Path => CachedFile)

def evictionGrace : Int := 60 * 1000000000

namespace Cache

def pathTenant (c : Cache) (tenant topic : String) (partition baseOffset : Int) : Path :=
  let file := Storage.segmentFilename baseOffset .log
  if tenant = "" then Paths.join [c.dir, topic, toString partition, file]
  else Paths.join [c.dir, "tenants", tenant, topic, toString partition, file]

def tenants (c : Cache) : List String :=
  let root := Paths.join [c.dir, "tenants"]
  c.files.keys.filterMap fun path =>
    if root.under path then path.names[root.names.length]? else none

def topicDirs (c : Cache) (tenants : List String) (topic : String) : List Path :=
  Paths.join [c.dir, topic] :: tenants.map fun tenant => Paths.join [c.dir, "tenants", tenant, topic]

def filesUnder (c : Cache) (dirs : List Path) : List Path :=
  c.files.keys.filter fun path => dirs.any fun dir => dir.under path

/-- `unlisted` are the tenants that `ReadDir` misses; its error is not looked at. The first `RemoveAll`
that fails ends the call, and the files `left` stay in its directory. -/
structure DropRun where
  unlisted : List String := []
  failed : Option (Nat × List Path) := none

def droppedFiles (c : Cache) (topic : String) (run : DropRun) : List Path :=
  let dirs := c.topicDirs (c.tenants.filter fun tenant => decide (tenant ∉ run.unlisted)) topic
  match run.failed with
  | none => c.filesUnder dirs
  | some (place, left) => c.filesUnder (dirs.take place) ++
      (c.filesUnder (dirs[place]?.toList)).filter fun path => decide (path ∉ left)

def dropTopic (c : Cache) (topic : String) (run : DropRun := {}) : Cache :=
  { c with files := (c.droppedFiles topic run).foldl (fun files path => files.erase path) c.files }

def hasTenant (c : Cache) (tenant topic : String) (partition baseOffset : Int) : Bool :=
  (c.files.lookup (c.pathTenant tenant topic partition baseOffset)).isSome

def sizeBytes (c : Cache) : Int := (c.files.entries.map fun entry => (entry.2.data.length : Int)).sum

/-- The files in the order of their age; one that was used within the grace period is passed over. -/
def evictLoop (cutoff : Int) : List (Path × CachedFile) → Cache → Cache
  | [], c => c
  | (path, file) :: rest, c =>
    if c.sizeBytes ≤ c.maxBytes then c
    else if file.mtime > cutoff then evictLoop cutoff rest c
    else evictLoop cutoff rest { c with files := c.files.erase path }

def evictLockedIfNeeded (c : Cache) (now : Int) : Cache :=
  let files := c.files.entries.map fun entry => (entry.1, entry.2)
  evictLoop (now - evictionGrace)
    (files.insertionSort fun first second => first.2.mtime ≤ second.2.mtime) c

/-- A download goes to a temporary file first and is renamed once its digest is right. -/
def putTenantStream (crypto : Crypto) (c : Cache) (tenant topic : String)
    (partition baseOffset : Int) (data : Bytes) (expectedSha256 : String) (now : Int) :
    Option Cache :=
  if expectedSha256 ≠ "" ∧ crypto.sha256 data ≠ expectedSha256 then none
  else
    let path := c.pathTenant tenant topic partition baseOffset
    some (evictLockedIfNeeded { c with files := c.files.insert path ⟨data, now⟩ } now)

def openTenant (c : Cache) (tenant topic : String) (partition baseOffset : Int) (now : Int) :
    Option Bytes × Cache :=
  let path := c.pathTenant tenant topic partition baseOffset
  match c.files.lookup path with
  | none => (none, c)
  | some file => (some file.data, { c with files := c.files.insert path { file with mtime := now } })

end Cache

end KafkaWire.Tiering
