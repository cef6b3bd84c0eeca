import KafkaWire.Tiering.Cache
import KafkaWire.Tiering.FileStore

/-! Restoring an archived segment into the cache. -/

namespace KafkaWire.Tiering

/-- What becomes of a download that has the right digest. A file that is renamed into place stays
there when the eviction after it fails. -/
inductive CacheWrite
  | stored | refused | unevicted
  deriving DecidableEq, Repr

/-- What one attempt at a download meets: whether the store answers, other bytes than the
object's if the download is damaged, what the cache does, and whether the time is up afterwards. -/
structure Attempt where
  available : Bool := true
  damaged : Option Bytes := none
  write : CacheWrite := .stored
  expired : Bool := false
  now : Int := 0
  deriving DecidableEq, Repr

inductive RestoreErr
  | notArchived
  | signature
  | unavailable
  | cachePut
  | expired
  | panic
  deriving DecidableEq, Repr

structure Archive where
  manifest : Manifest
  cache : Cache
  store : FS
  crypto : Crypto
  hmacKey : Bytes

namespace Archive

/-- Both the message of a download that is done and the error of one with the wrong digest hold
`SHA256[:12]`. -/
def downloadOnce (a : Archive) (entry : SegmentEntry) (attempt : Attempt) :
    Option RestoreErr × Archive :=
  let short := entry.sha256.utf8ByteSize < 12
  match attempt.available, a.store.get entry.s3Key with
  | true, some object =>
    match a.cache.putTenantStream a.crypto entry.tenantID entry.topic entry.partition
      entry.baseOffset (attempt.damaged.getD object) entry.sha256 attempt.now, attempt.write with
    | _, .refused => (some .cachePut, a)
    | some cache, .stored => (if short then some .panic else none, { a with cache := cache })
    | some cache, .unevicted => (some .cachePut, { a with cache := cache })
    | none, _ => (some (if short then .panic else .cachePut), a)
  | _, _ => (some .unavailable, a)

def attemptLoop (entry : SegmentEntry) :
    Nat → List Attempt → RestoreErr → Archive → Option RestoreErr × Archive × List Attempt
  | 0, attempts, last, a => (some last, a, attempts)
  | _ + 1, [], last, a => (some last, a, [])
  | left + 1, attempt :: attempts, _, a =>
    match a.downloadOnce entry attempt with
    | (none, a') => (none, a', attempts)
    | (some err, a') =>
      if err = .panic ∨ attempt.expired then (some err, a', attempts)
      else attemptLoop entry left attempts err a'

/-- At most three attempts; `attempts` ends early where the time runs out in between. -/
def doRestore (a : Archive) (entry : SegmentEntry) (attempts : List Attempt) :
    Option RestoreErr × Archive × List Attempt :=
  if entry.verifySignature a.crypto a.hmacKey then attemptLoop entry 3 attempts .expired a
  else (some .signature, a, attempts)

/-- `Restore` looks for a restored copy among the segments without a tenant. -/
def restore (a : Archive) (topic : String) (partition baseOffset : Int) (attempts : List Attempt) :
    Option RestoreErr × Archive × List Attempt :=
  if a.cache.hasTenant "" topic partition baseOffset then (none, a, attempts)
  else
    match a.manifest.lookup topic partition baseOffset with
    | none => (some .notArchived, a, attempts)
    | some entry => a.doRestore entry attempts

end Archive

end KafkaWire.Tiering
