import KafkaWire.Tiering.Cached
import KafkaWire.Tiering.Restorer

/-! What `Restore` leaves in the cache: a copy with the digest of its entry, or nothing new. The
digest must be long enough for the messages that show its first twelve bytes, where one is made. -/

namespace KafkaWire.Tiering

theorem Crypto.named {crypto : Crypto} (hex : ∀ data, (crypto.sha256 data).utf8ByteSize = 64)
    (data : Bytes) : crypto.sha256 data ≠ "" := by
  intro empty
  have long := hex data
  rw [empty] at long
  cases long

namespace Archive

variable {a a' : Archive} {entry : SegmentEntry} {attempt : Attempt} {err : RestoreErr}

theorem downloadOnce_done (done : a.downloadOnce entry attempt = (none, a')) :
    12 ≤ entry.sha256.utf8ByteSize ∧ ∃ data cache,
      a.cache.putTenantStream a.crypto entry.tenantID entry.topic entry.partition entry.baseOffset
        data entry.sha256 attempt.now = some cache ∧ a' = { a with cache := cache } := by
  rw [downloadOnce] at done
  split at done
  · next object _ _ =>
      split at done
      · cases done
      · next cache put _ =>
          obtain ⟨message, after⟩ := Prod.mk.inj done
          split at message
          · cases message
          · next long => exact ⟨Nat.le_of_not_lt long, _, cache, put, after.symm⟩
      · cases done
      · cases done
  · cases done

def Verified (a : Archive) (entry : SegmentEntry) : Prop :=
  ∃ file, a.cache.files.lookup
    (a.cache.pathTenant entry.tenantID entry.topic entry.partition entry.baseOffset) = some file ∧
      a.crypto.sha256 file.data = entry.sha256

theorem downloadOnce_verified (done : a.downloadOnce entry attempt = (none, a')) :
    a'.Verified entry := by
  obtain ⟨long, data, cache, put, rfl⟩ := downloadOnce_done done
  obtain ⟨right, dir, found, -⟩ := Cache.putTenantStream_spec put
  refine ⟨⟨data, attempt.now⟩, ?_, right ?_⟩
  · rw [← found, Cache.pathTenant, Cache.pathTenant, dir]
  · rintro empty
    rw [empty] at long
    cases long

def Present (a : Archive) (entry : SegmentEntry) : Prop :=
  a.cache.hasTenant entry.tenantID entry.topic entry.partition entry.baseOffset = true

/-- The attempt brings bytes, and the cache takes them for those of the segment or does not. -/
def Brings (a : Archive) (entry : SegmentEntry) (attempt : Attempt) (taken : Bool) : Prop :=
  attempt.available = true ∧ ∃ object, a.store.get entry.s3Key = some object ∧
    taken = decide (entry.sha256 = "" ∨
      a.crypto.sha256 (attempt.damaged.getD object) = entry.sha256)

/-- The attempt comes to a message with the first twelve bytes of the digest. -/
def Slices (a : Archive) (entry : SegmentEntry) (attempt : Attempt) : Prop :=
  a.Brings entry attempt true ∧ attempt.write = .stored ∨
    a.Brings entry attempt false ∧ attempt.write ≠ .refused

/-- The attempt ends in an error with the file in place. -/
def Leaves (a : Archive) (entry : SegmentEntry) (attempt : Attempt) : Prop :=
  a.Brings entry attempt true ∧ attempt.write = .unevicted

theorem putTenantStream_none_iff {c : Cache} {crypto : Crypto} {tenant topic expected : String}
    {partition baseOffset now : Int} {data : Bytes} :
    c.putTenantStream crypto tenant topic partition baseOffset data expected now = none ↔
      ¬ (expected = "" ∨ crypto.sha256 data = expected) := by
  rw [Cache.putTenantStream]
  split <;> simp_all

/-- Everything that one attempt can end in. -/
theorem downloadOnce_ends (a : Archive) (entry : SegmentEntry) (attempt : Attempt) :
    (¬ a.Slices entry attempt ∧ ¬ a.Leaves entry attempt ∧
      ∃ err, err ≠ .panic ∧ a.downloadOnce entry attempt = (some err, a)) ∨
    (¬ a.Slices entry attempt ∧ a.Leaves entry attempt ∧ ∃ data cache,
      a.cache.putTenantStream a.crypto entry.tenantID entry.topic entry.partition entry.baseOffset
        data entry.sha256 attempt.now = some cache ∧
      a.downloadOnce entry attempt = (some .cachePut, { a with cache := cache })) ∨
    (a.Slices entry attempt ∧ ¬ a.Leaves entry attempt ∧
      if entry.sha256.utf8ByteSize < 12 then (a.downloadOnce entry attempt).1 = some .panic
      else (a.downloadOnce entry attempt).1 = none ∨
        a.downloadOnce entry attempt = (some .cachePut, a)) := by
  cases available : attempt.available with
  | false =>
    refine .inl ⟨by simp [Slices, Brings, available], by simp [Leaves, Brings, available],
      .unavailable, by rintro ⟨⟩, ?_⟩
    rw [downloadOnce, available]
  | true =>
    cases object : a.store.get entry.s3Key with
    | none =>
      refine .inl ⟨by simp [Slices, Brings, object], by simp [Leaves, Brings, object],
        .unavailable, by rintro ⟨⟩, ?_⟩
      simp [downloadOnce, object]
    | some data =>
      have brings (taken : Bool) : a.Brings entry attempt taken ↔ taken = decide (entry.sha256 = "" ∨
          a.crypto.sha256 (attempt.damaged.getD data) = entry.sha256) := by
        simp [Brings, available, object]
      cases put : a.cache.putTenantStream a.crypto entry.tenantID entry.topic entry.partition
        entry.baseOffset (attempt.damaged.getD data) entry.sha256 attempt.now with
      | none =>
        have wrong := putTenantStream_none_iff.mp put
        cases write : attempt.write with
        | refused =>
          refine .inl ⟨by simp [Slices, brings, wrong, write], by simp [Leaves, brings, wrong],
            .cachePut, by rintro ⟨⟩, ?_⟩
          simp [downloadOnce, available, object, put, write]
        | stored | unevicted =>
          refine .inr (.inr ⟨by simp [Slices, brings, wrong, write], by simp [Leaves, brings, wrong],
            ?_⟩)
          split <;> simp_all [downloadOnce]
      | some cache =>
        have right : entry.sha256 = "" ∨
            a.crypto.sha256 (attempt.damaged.getD data) = entry.sha256 := by
          by_contra wrong
          rw [putTenantStream_none_iff.mpr wrong] at put
          cases put
        cases write : attempt.write with
        | refused =>
          refine .inl ⟨by simp [Slices, brings, right, write], by simp [Leaves, write],
            .cachePut, by rintro ⟨⟩, ?_⟩
          simp [downloadOnce, available, object, put, write]
        | stored =>
          refine .inr (.inr ⟨by simp [Slices, brings, right, write], by simp [Leaves, write], ?_⟩)
          split <;> simp_all [downloadOnce]
        | unevicted =>
          refine .inr (.inl ⟨by simp [Slices, brings, right, write],
            by simp [Leaves, brings, right, write], _, cache, put, ?_⟩)
          simp [downloadOnce, available, object, put, write]

/-- What the attempts that are made, the first ones of the list, come to. -/
structure Attempted (a : Archive) (entry : SegmentEntry) (made : List Attempt)
    (result : Option RestoreErr) (a' : Archive) : Prop where
  panics : result = some .panic ↔ entry.sha256.utf8ByteSize < 12 ∧ ∃ t ∈ made, a.Slices entry t
  verified : result = none → a'.Verified entry
  present : ∀ err, result = some err → err ≠ .panic →
    (a'.Present entry ↔ a.Present entry ∨ ∃ t ∈ made, a.Leaves entry t)

theorem Attempted.none_made (a : Archive) {err : RestoreErr} (tame : err ≠ .panic) :
    Attempted a entry [] (some err) a :=
  ⟨by simp [tame], by rintro ⟨⟩, by simp⟩

theorem Attempted.cons {cache : Cache} {made : List Attempt} {result : Option RestoreErr}
    (later : Attempted { a with cache := cache } entry made result a')
    (safe : ¬ (entry.sha256.utf8ByteSize < 12 ∧ a.Slices entry attempt))
    (present : Present { a with cache := cache } entry ↔
      a.Present entry ∨ a.Leaves entry attempt) :
    Attempted a entry (attempt :: made) result a' := by
  refine ⟨later.panics.trans ⟨?_, ?_⟩, later.verified, fun err failed tame =>
    (later.present err failed tame).trans ?_⟩
  · rintro ⟨short, t, member, slices⟩
    exact ⟨short, t, List.mem_cons_of_mem _ member, slices⟩
  · rintro ⟨short, t, member, slices⟩
    obtain rfl | member := List.mem_cons.mp member
    · exact absurd ⟨short, slices⟩ safe
    · exact ⟨short, t, member, slices⟩
  · rw [present]
    simp only [List.mem_cons, exists_eq_or_imp, or_assoc]
    exact Iff.rfl

theorem attemptLoop_attempted (left : Nat) (attempts : List Attempt) (last : RestoreErr) (a : Archive)
    (calm : last ≠ .panic) :
    ∃ made, attempts = made ++ (attemptLoop entry left attempts last a).2.2 ∧
      Attempted a entry made (attemptLoop entry left attempts last a).1
        (attemptLoop entry left attempts last a).2.1 := by
  induction left generalizing attempts last a with
  | zero => exact ⟨[], rfl, .none_made a calm⟩
  | succ left ih =>
    cases attempts with
    | nil => exact ⟨[], rfl, .none_made a calm⟩
    | cons t attempts =>
      -- an attempt that fails is the last one, or one before the others
      have goesOn {err : RestoreErr} {cache : Cache} (tame : err ≠ .panic)
          (failed : a.downloadOnce entry t = (some err, { a with cache := cache }))
          (safe : ¬ (entry.sha256.utf8ByteSize < 12 ∧ a.Slices entry t))
          (present : Present { a with cache := cache } entry ↔ a.Present entry ∨ a.Leaves entry t) :
          ∃ made, t :: attempts = made ++ (attemptLoop entry (left + 1) (t :: attempts) last a).2.2 ∧
            Attempted a entry made (attemptLoop entry (left + 1) (t :: attempts) last a).1
              (attemptLoop entry (left + 1) (t :: attempts) last a).2.1 := by
        rw [attemptLoop, failed]
        simp only [tame, false_or]
        split
        · exact ⟨[t], rfl, (Attempted.none_made _ tame).cons safe present⟩
        · obtain ⟨made, shape, later⟩ := ih attempts err { a with cache := cache } tame
          exact ⟨t :: made, by rw [List.cons_append, ← shape], later.cons safe present⟩
      obtain ⟨slices, leaves, err, tame, failed⟩ | ⟨slices, leaves, data, cache, put, failed⟩ |
        ⟨slices, leaves, ended⟩ := downloadOnce_ends a entry t
      · exact goesOn tame failed (fun both => slices both.2) (by simp [leaves, Present])
      · have placed : Present { a with cache := cache } entry := by
          obtain ⟨-, dir, found, -⟩ := Cache.putTenantStream_spec put
          rw [Present, Cache.hasTenant, Cache.pathTenant, dir]
          exact Option.isSome_iff_exists.mpr ⟨_, found⟩
        exact goesOn (by rintro ⟨⟩) failed (fun both => slices both.2)
          (iff_of_true placed (.inr leaves))
      · split at ended
        · next short =>
            refine ⟨[t], ?_⟩
            rcases ran : a.downloadOnce entry t with ⟨result, a'⟩
            rw [ran] at ended
            obtain rfl : result = some .panic := ended
            rw [attemptLoop, ran]
            simp only [true_or, if_true]
            exact ⟨rfl, by simp [short, slices], by rintro ⟨⟩, by simp⟩
        · next long =>
            obtain done | failed := ended
            · refine ⟨[t], ?_⟩
              rcases ran : a.downloadOnce entry t with ⟨result, a'⟩
              rw [ran] at done
              obtain rfl : result = none := done
              rw [attemptLoop, ran]
              exact ⟨rfl, by simp [long], fun _ => downloadOnce_verified ran, by rintro _ ⟨⟩⟩
            · exact goesOn (by rintro ⟨⟩) failed (fun both => long both.1) (by simp [leaves, Present])

/-- What a call of `Restore` should do for the entry: it does not panic, a copy that it reports has the
digest, and with an error no file is at the path of the entry that was not there before. -/
structure Guaranteed (a : Archive) (entry : SegmentEntry)
    (outcome : Option RestoreErr × Archive × List Attempt) : Prop where
  calm : outcome.1 ≠ some .panic
  verified : outcome.1 = none → outcome.2.1.Verified entry
  absent : outcome.1 ≠ none → outcome.2.1.Present entry → a.Present entry

theorem Attempted.guaranteed_iff {made rest : List Attempt} {result : Option RestoreErr}
    (done : Attempted a entry made result a') :
    a.Guaranteed entry (result, a', rest) ↔
      (12 ≤ entry.sha256.utf8ByteSize ∨ ∀ t ∈ made, ¬ a.Slices entry t) ∧
        (result = none ∨ a.Present entry ∨ ∀ t ∈ made, ¬ a.Leaves entry t) := by
  constructor
  · intro kept
    constructor
    · by_contra bad
      rw [not_or, not_le, not_forall] at bad
      obtain ⟨short, t, slices⟩ := bad
      rw [Classical.not_imp, not_not] at slices
      exact kept.calm (done.panics.mpr ⟨short, t, slices⟩)
    · cases result with
      | none => exact .inl rfl
      | some err =>
        have tame : err ≠ .panic := fun same => kept.calm (congrArg some same)
        by_cases there : a.Present entry
        · exact .inr (.inl there)
        · refine .inr (.inr fun t member leaves => there (kept.absent (by rintro ⟨⟩) ?_))
          exact (done.present err rfl tame).mpr (.inr ⟨t, member, leaves⟩)
  · rintro ⟨unsliced, unleft⟩
    have calm : result ≠ some .panic := by
      intro panicked
      obtain ⟨short, t, member, slices⟩ := done.panics.mp panicked
      exact unsliced.elim (fun long => absurd short (not_lt.mpr long))
        fun none' => none' t member slices
    refine ⟨calm, done.verified, fun failed there => ?_⟩
    obtain ⟨err, rfl⟩ := Option.ne_none_iff_exists'.mp failed
    have tame : err ≠ .panic := fun same => calm (congrArg some same)
    obtain old | ⟨t, member, leaves⟩ := (done.present err rfl tame).mp there
    · exact old
    · obtain ⟨⟨⟩⟩ | old | none' := unleft
      · exact old
      · exact absurd leaves (none' t member)

/-- `Restore` does what it should exactly when a file that it takes for the copy has the digest, and
otherwise no attempt that it makes comes to a message with twelve bytes of a shorter digest, nor, if
they all fail, leaves a new file behind. -/
theorem restore_guaranteed_iff (a : Archive) (topic : String) (partition baseOffset : Int)
    (attempts : List Attempt) (entry : SegmentEntry)
    (archived : a.manifest.lookup topic partition baseOffset = some entry) :
    ∃ made, attempts = made ++ (a.restore topic partition baseOffset attempts).2.2 ∧
      (a.Guaranteed entry (a.restore topic partition baseOffset attempts) ↔
        if a.cache.hasTenant "" topic partition baseOffset then a.Verified entry
        else (12 ≤ entry.sha256.utf8ByteSize ∨ ∀ t ∈ made, ¬ a.Slices entry t) ∧
          ((a.restore topic partition baseOffset attempts).1 = none ∨ a.Present entry ∨
            ∀ t ∈ made, ¬ a.Leaves entry t)) := by
  rw [restore]
  split
  · exact ⟨[], rfl, fun kept => kept.verified rfl,
      fun verified => ⟨by rintro ⟨⟩, fun _ => verified, fun other => absurd rfl other⟩⟩
  · rw [archived]
    dsimp only
    rw [doRestore]
    split
    · obtain ⟨made, shape, done⟩ : ∃ made, attempts = made ++ _ ∧ Attempted a entry made _ _ :=
        attemptLoop_attempted 3 attempts .expired a (by rintro ⟨⟩)
      exact ⟨made, shape, done.guaranteed_iff⟩
    · exact ⟨[], rfl, by simp, fun _ => ⟨by rintro ⟨⟩, by rintro ⟨⟩, fun _ there => there⟩⟩

end Archive

def restoredDigest : String := "039058c6f2c0cb492c533b0a4d14ef77cc0f78abccced5287d84a1a2011cfb81"

def restoredEntry (tenantID sha256 : String) : SegmentEntry where
  topic := "orders"
  partition := 0
  baseOffset := 0
  nextOffset := 10
  sizeBytes := 3
  sha256 := sha256
  s3Key := "orders/0/0"
  uploadedAt := 0
  tenantID := tenantID

def oneArchived (entry : SegmentEntry) (files : AList fun _ : Paths.Path => CachedFile) : Archive where
  manifest := { completed := [entry] }
  cache := ⟨"/cache", 1000, files⟩
  store := ⟨(∅ : AList _).insert ["orders", "0", "0"] [1, 2, 3], ∅, ∅⟩
  crypto := ⟨fun data => if data = [1, 2, 3] then restoredDigest else "", fun _ text => text⟩
  hmacKey := []

/-- The first download is damaged, the second is not. -/
theorem second_download_verified :
    let a := oneArchived (restoredEntry "acme" restoredDigest) ∅
    a.Guaranteed (restoredEntry "acme" restoredDigest)
      (a.restore "orders" 0 0 [{ damaged := some [9] }, {}]) := by
  intro a
  have done : (a.restore "orders" 0 0 [{ damaged := some [9] }, {}]).1 = none := by decide +kernel
  have missing : a.cache.hasTenant "" "orders" 0 0 = false := by decide +kernel
  obtain ⟨made, -, guaranteed⟩ := a.restore_guaranteed_iff "orders" 0 0
    [{ damaged := some [9] }, {}] (restoredEntry "acme" restoredDigest) rfl
  refine guaranteed.mpr ?_
  rw [missing, if_neg Bool.false_ne_true]
  exact ⟨.inl (by decide +kernel), .inl done⟩

def sharedCopy : Archive :=
  oneArchived (restoredEntry "acme" restoredDigest)
    ((∅ : AList _).insert (Cache.pathTenant ⟨"/cache", 1000, ∅⟩ "" "orders" 0 0) ⟨[9], 0⟩)

/-- Without a digest the download is not verified and ends in a panic, with the file in place; and a
file without a tenant passes for the copy of a tenant's segment. -/
theorem short_digest_panics :
    ((oneArchived (restoredEntry "" "") ∅).restore "orders" 0 0 [{ damaged := some [9] }]).1 =
      some .panic ∧
    ((oneArchived (restoredEntry "" "") ∅).restore "orders" 0 0
      [{ damaged := some [9] }]).2.1.cache.hasTenant "" "orders" 0 0 = true ∧
    (sharedCopy.restore "orders" 0 0 [{}]).1 = none ∧
    (sharedCopy.restore "orders" 0 0 [{}]).2.1.cache.hasTenant "acme" "orders" 0 0 = false := by
  decide +kernel

end KafkaWire.Tiering
