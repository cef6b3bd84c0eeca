import KafkaWire.Tiering.Cached

/-! What tells archived segments apart: the keys of the objects and the paths that keys are mapped
to, the paths in the cache, and the messages that are signed. -/

namespace KafkaWire.Tiering

open Paths

structure SegmentID where
  tenantID : String
  topic : String
  partition : Int
  baseOffset : Int
  sha256 : String
  deriving DecidableEq, Repr

namespace SegmentID

def key (keyPrefix : String) (id : SegmentID) : String :=
  segmentKeyTenant keyPrefix id.tenantID id.topic id.partition id.baseOffset

def path (c : Cache) (id : SegmentID) : Path :=
  c.pathTenant id.tenantID id.topic id.partition id.baseOffset

/-- What `SegmentSignature` feeds to the keyed digest. -/
def message (id : SegmentID) : String :=
  s!"v1|{id.tenantID}|{id.topic}|{id.partition}|{id.baseOffset}|{id.sha256}"

def place (id : SegmentID) : String × String × Int × Int :=
  (id.tenantID, id.topic, id.partition, id.baseOffset)

structure Valid (id : SegmentID) : Prop where
  tenant : id.tenantID = "" ∨ Broker.validateName "tenant" id.tenantID = .ok ()
  topic : Broker.validateName "topic" id.topic = .ok ()

/-- The components that follow the prefix of the key and the directory of the cache. -/
def names (id : SegmentID) : List String :=
  ownerNames id.tenantID ++ copyNames id.topic id.partition id.baseOffset

variable {id other : SegmentID}

theorem Valid.owner (valid : id.Valid) : id.tenantID = "" ∨ Plain id.tenantID :=
  valid.tenant.imp_right Broker.plain_of_valid

theorem Valid.names (valid : id.Valid) : ∀ name ∈ id.names,
    Plain name ∧ ∀ c ∈ name.toList, Broker.nameCharacter c = true := by
  intro name member
  rcases List.mem_append.mp member with above | below
  · refine ⟨plain_ownerNames valid.owner name above, ?_⟩
    rw [ownerNames] at above
    split at above
    · cases above
    · next named =>
        rcases List.mem_cons.mp above with rfl | last
        · exact List.all_eq_true.mp (by decide +kernel)
        · rw [List.mem_singleton.mp last]
          exact Broker.characters_of_valid (valid.tenant.resolve_left named)
  · exact copyNames_spec valid.topic id.partition id.baseOffset name below

theorem place_of_names (same : id.names = other.names) : id.place = other.place := by
  obtain ⟨owners, topics, partitions, bases⟩ := append_copyNames_injective same
  rw [place, place, ownerNames_injective owners, topics, partitions, bases]

theorem key_eq_of_place (keyPrefix : String) (same : id.place = other.place) :
    id.key keyPrefix = other.key keyPrefix := by
  simp only [place, Prod.mk.injEq] at same
  obtain ⟨tenants, topics, partitions, bases⟩ := same
  rw [key, key, tenants, topics, partitions, bases]

theorem key_toList (keyPrefix : String) : ∃ root : List Char, ∀ id : SegmentID,
    (id.key keyPrefix).toList = root ++ id.names.flatMap fun name => '/' :: name.toList := by
  refine ⟨(if keyPrefix.endsWith "/" then (keyPrefix.dropEnd 1).toString else keyPrefix).toList,
    fun id => ?_⟩
  rw [key, segmentKeyTenant, names, ownerNames]
  by_cases shared : id.tenantID = "" <;> simp [shared, copyNames]

theorem key_split (keyPrefix : String) : ∃ root : List Char, ∀ id : SegmentID, id.Valid →
    split (slashed (id.key keyPrefix).toList) = split root ++ id.names := by
  obtain ⟨root, texts⟩ := key_toList keyPrefix
  refine ⟨slashed root, fun id valid => ?_⟩
  rw [texts, slashed_split root (fun name member => (valid.names name member).1) fun name member back =>
    absurd ((valid.names name member).2 '\\' back) (by decide)]

end SegmentID

theorem delimited_injective {d : Char} {first first' rest rest' : List Char} (clear : d ∉ first)
    (clear' : d ∉ first') (same : first ++ d :: rest = first' ++ d :: rest') :
    first = first' ∧ rest = rest' := by
  induction first generalizing first' with
  | nil =>
    cases first' with
    | nil => exact ⟨rfl, (List.cons.inj same).2⟩
    | cons c first' => exact absurd (by rw [(List.cons.inj same).1]; simp) clear'
  | cons c first ih =>
    cases first' with
    | nil => exact absurd (by rw [(List.cons.inj same).1]; simp) clear
    | cons c' first' =>
      obtain ⟨heads, tails⟩ := List.cons.inj same
      obtain ⟨firsts, rests⟩ := ih (fun here => clear (List.mem_cons_of_mem _ here))
        (fun here => clear' (List.mem_cons_of_mem _ here)) tails
      exact ⟨by rw [heads, firsts], rests⟩

theorem SegmentID.message_injective {id other : SegmentID} (valid : id.Valid) (valid' : other.Valid)
    (same : id.message = other.message) : id = other := by
  have bar {text : String} (characters : ∀ c ∈ text.toList, Broker.nameCharacter c = true) :
      '|' ∉ text.toList := fun here => absurd (characters '|' here) (by decide)
  have tenant {id : SegmentID} (valid : id.Valid) : '|' ∉ id.tenantID.toList := by
    rcases valid.tenant with empty | named
    · simp [empty]
    · exact bar (Broker.characters_of_valid named)
  have shape (id : SegmentID) : id.message.toList = "v1|".toList ++ (id.tenantID.toList ++ '|' ::
      (id.topic.toList ++ '|' :: ((toString id.partition).toList ++ '|' ::
        ((toString id.baseOffset).toList ++ '|' :: id.sha256.toList)))) := by
    simp [message, toString]
  have texts := congrArg String.toList same
  rw [shape, shape] at texts
  obtain ⟨tenants, texts⟩ := delimited_injective (tenant valid) (tenant valid')
    (List.append_cancel_left texts)
  obtain ⟨topics, texts⟩ := delimited_injective (bar (Broker.characters_of_valid valid.topic))
    (bar (Broker.characters_of_valid valid'.topic)) texts
  obtain ⟨partitions, texts⟩ := delimited_injective (bar (numbered_toString id.partition).2)
    (bar (numbered_toString other.partition).2) texts
  obtain ⟨bases, digests⟩ := delimited_injective (bar (numbered_toString id.baseOffset).2)
    (bar (numbered_toString other.baseOffset).2) texts
  cases id
  cases other
  rw [SegmentID.mk.injEq]
  exact ⟨String.toList_injective tenants, String.toList_injective topics,
    toString_injective (String.toList_injective partitions),
    toString_injective (String.toList_injective bases), String.toList_injective digests⟩

/-- Valid names make keys, cache files and signed messages that belong to one segment only. -/
theorem segments_told_apart (keyPrefix : String) (c : Cache) (id other : SegmentID)
    (valid : id.Valid) (valid' : other.Valid) :
    (id.key keyPrefix = other.key keyPrefix → id.place = other.place) ∧
      (id.path c = other.path c → id.place = other.place) ∧
      (id.message = other.message → id = other) ∧
      ∀ crypto hmacKey, segmentSignature crypto hmacKey id.tenantID id.topic id.partition
        id.baseOffset id.sha256 = crypto.hmac hmacKey id.message := by
  refine ⟨fun same => ?_, fun same => ?_, SegmentID.message_injective valid valid', fun _ _ => rfl⟩
  · obtain ⟨root, pieces⟩ := SegmentID.key_split keyPrefix
    have names := pieces id valid
    rw [same, pieces other valid'] at names
    exact (SegmentID.place_of_names (List.append_cancel_left names)).symm
  · obtain ⟨tenants, topics, partitions, bases⟩ :=
      Cache.pathTenant_injective valid.topic valid'.topic valid.owner valid'.owner same
    rw [SegmentID.place, SegmentID.place, tenants, topics, partitions, bases]

/-- A shared topic called like the directory of the tenants, and a tenant's topic. -/
theorem tenants_topic_told_apart :
    SegmentID.key "p/" ⟨"", "tenants", 0, 7, "00"⟩ ≠ SegmentID.key "p/" ⟨"a", "tenants", 0, 7, "00"⟩ := by
  have valid (name kind : String) (listed : name = "a" ∨ name = "tenants") :
      Broker.validateName kind name = .ok () := by
    rw [Broker.validateName]
    rcases listed with rfl | rfl <;> rfl
  intro same
  have places := (segments_told_apart "p/" ⟨"/cache", 0, ∅⟩ ⟨"", "tenants", 0, 7, "00"⟩
    ⟨"a", "tenants", 0, 7, "00"⟩ ⟨.inl rfl, valid _ _ (.inr rfl)⟩
    ⟨.inr (valid _ _ (.inl rfl)), valid _ _ (.inr rfl)⟩).1 same
  exact absurd places (by decide)

section ObjectFiles

def objectsDir (root : String) : Path := join [root, "objects"]

/-- The text is "objstore/fs: key %q escapes the archive root". -/
inductive KeyErr
  | escapesRoot (key : String)
  deriving DecidableEq

/-- `FS.objectPath`: the key, cleaned as a rooted path, below the directory of the objects. -/
def objectFile (root key : String) : Except KeyErr Path :=
  let cleaned := join [String.ofList ('/' :: slashed key.toList)]
  let file := join [root, "objects", cleaned.text]
  if ((objectsDir root).text.toList ++ ['/']).isPrefixOf file.text.toList then .ok file
  else .error (.escapesRoot key)

def keyNames (key : String) : List String := clean true (split (slashed key.toList))

theorem keyNames_plain (key : String) : ∀ name ∈ keyNames key, Plain name :=
  clean_plain _ (split_single _)

theorem join_key (key : String) :
    join [String.ofList ('/' :: slashed key.toList)] = ⟨true, keyNames key⟩ := by
  have pieces : split ('/' :: slashed key.toList) = "" :: split (slashed key.toList) :=
    split_append [] _
  have kept : ([String.ofList ('/' :: slashed key.toList)].filter fun text => text ≠ "") =
      [String.ofList ('/' :: slashed key.toList)] := by
    rw [List.filter_eq_self]
    intro text member
    rw [List.mem_singleton.mp member]
    simp [← String.toList_inj]
  simp only [join, kept, List.head?_cons, Option.any_some, isRooted, String.toList_ofList,
    List.flatMap_singleton, components, pieces]
  rfl

theorem objectsDir_names (root : String) : (objectsDir root).names ≠ [] := by
  have shape := join_append [root] ["objects"] (by decide)
  rw [objectsDir, show [root, "objects"] = [root] ++ ["objects"] from rfl, shape]
  simp

theorem objectFile_eq (root key : String) : objectFile root key =
    if keyNames key = [] then .error (.escapesRoot key)
    else .ok ⟨(objectsDir root).rooted, (objectsDir root).names ++ keyNames key⟩ := by
  have nonempty : ([root, "objects"].filter fun text => text ≠ "") ≠ [] := by
    refine List.ne_nil_of_mem (a := "objects") (List.mem_filter.mpr ⟨by simp, by decide⟩)
  have file := join_text [root, "objects"] (keyNames key) (keyNames_plain key) nonempty
  have text := Path.text_append (objectsDir root).rooted (objectsDir root).names (keyNames key)
    (objectsDir_names root)
  rw [objectFile, join_key, show [root, "objects", Path.text ⟨true, keyNames key⟩] =
    [root, "objects"] ++ [Path.text ⟨true, keyNames key⟩] from rfl, file, ← objectsDir, text]
  cases keyNames key with
  | nil =>
    rw [if_pos rfl, if_neg]
    rw [List.isPrefixOf_iff_prefix]
    intro longer
    have bound := longer.length_le
    simp at bound
  | cons name names =>
    rw [if_neg (List.cons_ne_nil _ _), if_pos]
    rw [List.isPrefixOf_iff_prefix]
    exact ⟨name.toList ++ names.flatMap fun name => '/' :: name.toList, by simp⟩

/-- The model of the store counts the names below that directory. -/
theorem objectPath_eq (root key : String) : objectPath key = (objectFile root key).toOption.map
    fun file => file.names.drop (objectsDir root).names.length := by
  have path : objectPath key = if keyNames key = [] then none else some (keyNames key) := by
    unfold objectPath
    dsimp only
    split
    · next empty => exact (if_pos empty).symm
    · next nonempty => exact (if_neg nonempty).symm
  rw [path, objectFile_eq]
  split
  · rfl
  · simp [Except.toOption]

/-- Whatever the key is, its file is strictly inside the directory of the objects, and the keys of
different segments have different files. -/
theorem object_files_inside (root : String) :
    (∀ key file, objectFile root key = .ok file → ∃ names, names ≠ [] ∧
      (∀ name ∈ names, Plain name) ∧
      file = ⟨(objectsDir root).rooted, (objectsDir root).names ++ names⟩) ∧
    ∀ keyPrefix id other, SegmentID.Valid id → SegmentID.Valid other →
      id.key keyPrefix ≠ other.key keyPrefix →
      ∃ file file', objectFile root (id.key keyPrefix) = .ok file ∧
        objectFile root (other.key keyPrefix) = .ok file' ∧ file ≠ file' := by
  constructor
  · intro key file found
    rw [objectFile_eq] at found
    split at found
    · cases found
    · next nonempty => exact ⟨keyNames key, nonempty, keyNames_plain key, (Except.ok.inj found).symm⟩
  · intro keyPrefix id other valid valid' different
    obtain ⟨front, pieces⟩ := SegmentID.key_split keyPrefix
    have files (id : SegmentID) (valid : id.Valid) : objectFile root (id.key keyPrefix) =
        .ok ⟨(objectsDir root).rooted, (objectsDir root).names ++ (clean true (split front) ++ id.names)⟩ := by
      rw [objectFile_eq, keyNames, pieces id valid,
        clean_append true _ _ fun name member => (valid.names name member).1, if_neg]
      simp [SegmentID.names, copyNames]
    refine ⟨_, _, files id valid, files other valid', fun same => ?_⟩
    have below := List.append_cancel_left (List.append_cancel_left (Paths.Path.mk.inj same).2)
    exact different (SegmentID.key_eq_of_place keyPrefix (SegmentID.place_of_names below))

end ObjectFiles

end KafkaWire.Tiering
