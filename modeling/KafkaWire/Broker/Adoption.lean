import KafkaWire.Broker.Confined
import KafkaWire.Broker.TopicRace
import Mathlib.Data.List.Sort

/-! The topics that a broker takes over from its disk when it starts. They are taken from the
directories that are there, and a partition is found by its place among them. -/

namespace KafkaWire.Broker

open Paths (Path Plain)
open Programs Storage Tiering

structure DirEntry where
  name : String
  isDir : Bool

structure TopicEntry extends DirEntry where
  contents : Option (List DirEntry)

def scanSign : List Char → Bool × List Char
  | '+' :: rest => (false, rest)
  | '-' :: rest => (true, rest)
  | rest => (false, rest)

/-- `isSpace` of the package `fmt` -/
def isSpace (c : Char) : Bool :=
  [(0x09, 0x0d), (0x20, 0x20), (0x85, 0x85), (0xa0, 0xa0), (0x1680, 0x1680), (0x2000, 0x200a),
    (0x2028, 0x2029), (0x202f, 0x202f), (0x205f, 0x205f), (0x3000, 0x3000)].any
      fun range => range.1 ≤ c.toNat && c.toNat ≤ range.2

/-- `Sscanf` with `%d` into an `int32`. What follows the number is not looked at. -/
def scanIndex (name : String) : Option Int :=
  -- a line break ends the scan with an error
  let text := name.toList.dropWhile fun c => isSpace c && c != '\n'
  let (negative, rest) := scanSign text
  let digits := rest.takeWhile Char.isDigit
  let size : Int := Nat.ofDigitChars 10 digits 0
  let value := if negative then -size else size
  if digits = [] ∨ value < -2 ^ 31 ∨ 2 ^ 31 ≤ value then none else some value

def openFound (name : String) : List DirEntry → BrokerM (List LogHandle)
  | [] => return []
  | e :: rest => do
      match if e.isDir then scanIndex e.name else none with
      | none => openFound name rest
      | some idx =>
        match ← openPartition name idx with
        | .error err => throw (.openPartition idx err)
        | .ok l => return l :: (← openFound name rest)

/-- `sort.Slice` by the number of the partition. -/
def sortParts (parts : List LogHandle) : List LogHandle :=
  parts.insertionSort fun first second => first.partition ≤ second.partition

/-- The configuration under which a directory is adopted, and the defaults where it has none. -/
def adoptedConfig (cfg : Config) (persisted : Option TopicConfig) (found : Nat) : TopicConfig :=
  let tcfg := persisted.getD
    { numPartitions := cfg.defaultPartitions
      replicationFactor := cfg.defaultRepFactor
      retentionMS := -1
      retentionBytes := -1
      segmentBytes := cfg.storage.segmentBytes
      ownerTenantID := "" }
  if (found : Int) ≠ tcfg.numPartitions ∧ tcfg.numPartitions = 0 then
    { tcfg with numPartitions := found }
  else tcfg

/-- The part of `LoadState` that recovers the topics. -/
def loadTopics : List TopicEntry → BrokerM Unit
  | [] => return ()
  | e :: rest => do
      match if e.isDir then e.contents else none with
      | none => loadTopics rest
      | some entries => do
          let b ← get
          let parts ← openFound e.name entries
          let tcfg := adoptedConfig b.cfg (b.topicsFile.lookup e.name) parts.length
          putTopic e.name ⟨tcfg, sortParts parts⟩
          loadTopics rest

def indices (entries : List DirEntry) : List Int :=
  entries.filterMap fun e => if e.isDir then scanIndex e.name else none

structure Found (cfg : Config) (name : String) (idxs : List Int) (parts : List LogHandle) : Prop where
  numbers : (parts.map LogHandle.partition).Perm idxs
  dirs : ∀ l ∈ parts, l.dir = partitionDir cfg name l.partition

section Loading

variable {b b' : BrokerState} {name : String}

theorem openFound_spec (entries : List DirEntry) (outside : Outside b b') :
    Yields (openFound name entries) b'
      (fun parts b'' => Outside b b'' ∧ Found b.cfg name (indices entries) parts)
      fun _ _ => True := by
  induction entries generalizing b' with
  | nil => exact ⟨outside, .refl _, nofun⟩
  | cons e rest ih =>
    rw [openFound, indices, List.filterMap_cons]
    split
    · next none' =>
        simp only [none']
        exact ih outside
    · next idx found =>
        simp only [found, yields_bind]
        refine (openPartition_spec name idx b').mono ?_ fun _ _ impossible => impossible.elim
        rintro (err | l) b'' ⟨later, opened⟩
        · trivial
        · simp only [yields_bind, yields_pure]
          refine (ih (outside.trans later)).mono ?_ fun _ _ _ => trivial
          rintro parts final ⟨outside', found'⟩
          have one := opened l rfl
          refine ⟨outside', ?_, List.forall_mem_cons.mpr ⟨?_, found'.dirs⟩⟩
          · rw [List.map_cons, one.partition]
            exact found'.numbers.cons idx
          · rw [one.dir, one.partition, outside.cfg]

theorem Found.sorted {cfg : Config} {idxs : List Int} {parts : List LogHandle}
    (found : Found cfg name idxs parts) : Found cfg name idxs (sortParts parts) := by
  have perm := List.perm_insertionSort (fun first second : LogHandle =>
    first.partition ≤ second.partition) parts
  exact ⟨(perm.map _).trans found.numbers, fun l member => found.dirs l (perm.mem_iff.mp member)⟩

theorem sortParts_numbers (parts : List LogHandle) : (sortParts parts).map LogHandle.partition =
    (parts.map LogHandle.partition).insertionSort (· ≤ ·) :=
  List.map_insertionSort _ _ _ _ fun _ _ _ _ => Iff.rfl

def Adopted (cfg : Config) (listing : List TopicEntry) (b : BrokerState) : Prop :=
  ∀ name t, b.topics.lookup name = some t → ∃ e ∈ listing, e.name = name ∧ ∃ entries,
    e.contents = some entries ∧ Found cfg name (indices entries) t.partitions ∧
      (t.partitions.map LogHandle.partition).Pairwise (· ≤ ·)

theorem loadTopics_adopted {cfg : Config} {listing : List TopicEntry} (rest : List TopicEntry)
    (listed : rest ⊆ listing) (same : b.cfg = cfg) (adopted : Adopted cfg listing b) :
    Yields (loadTopics rest) b (fun _ => Adopted cfg listing) fun _ _ => True := by
  induction rest generalizing b with
  | nil => exact adopted
  | cons e rest ih =>
    obtain ⟨here, others⟩ := List.cons_subset.mp listed
    rw [loadTopics]
    split
    · exact ih others same adopted
    · next entries found =>
        simp only [yields_bind, yields_get, putTopic, yields_modify]
        refine (openFound_spec entries (Outside.refl b)).mono ?_ fun _ _ _ => trivial
        rintro parts b' ⟨outside, opened⟩
        refine ih others (outside.cfg.trans same) fun name t there => ?_
        rw [Tables.lookup_insert_eq] at there
        split at there
        · next isName =>
            cases there
            refine ⟨e, here, isName.symm, entries, ?_, ?_, ?_⟩
            · split at found
              · exact found
              · cases found
            · rw [isName, ← same]
              exact opened.sorted
            · rw [sortParts_numbers]
              exact List.pairwise_insertionSort _ _
        · rw [outside.topics] at there
          exact adopted name t there

/-- A directory that is found is registered, and stays so. -/
theorem loadTopics_registers (rest : List TopicEntry) (names : List String)
    (registered : ∀ name ∈ names, (b.topics.lookup name).isSome = true)
    (found : ∀ e ∈ rest, e.isDir = true ∧ e.contents.isSome = true) :
    Yields (loadTopics rest) b (fun _ b' => ∀ name ∈ names ++ rest.map (fun e => e.name),
      (b'.topics.lookup name).isSome = true) fun _ _ => True := by
  induction rest generalizing b names with
  | nil => exact fun name member => registered name (by simpa using member)
  | cons e rest ih =>
    obtain ⟨⟨isDir, isSome⟩, others⟩ := List.forall_mem_cons.mp found
    obtain ⟨entries, contents⟩ := Option.isSome_iff_exists.mp isSome
    rw [loadTopics, isDir, contents]
    simp only [if_true, yields_bind, yields_get, putTopic, yields_modify]
    refine (openFound_spec entries (Outside.refl b)).mono ?_ fun _ _ _ => trivial
    rintro parts b' ⟨outside, -⟩
    refine (ih (names ++ [e.name]) (fun name member => ?_) others).mono
      (fun _ _ all name member => all name (by simpa using member)) fun _ _ _ => trivial
    dsimp only
    rw [Tables.lookup_insert_eq]
    split
    · rfl
    · next apart =>
        rw [outside.topics]
        refine registered name ?_
        rcases List.mem_append.mp member with old | new
        · exact old
        · exact absurd (List.mem_singleton.mp new) apart

end Loading

/-- The directories of some of a topic's partitions, as they are left when the creation or the
deletion of the topic is interrupted. -/
structure Leftover (e : TopicEntry) (held : List Nat) : Prop where
  plain : Plain e.name
  isDir : e.isDir = true
  contents : e.contents = some (held.map fun i => ⟨toString (i : Int), true⟩)
  distinct : held.Nodup
  small : ∀ i ∈ held, i < 2 ^ 31

theorem scanIndex_toString {i : Nat} (small : i < 2 ^ 31) : scanIndex (toString (i : Int)) = some (i : Int) := by
  have digits : (toString (i : Int)).toList = i.repr.toList := by
    rw [toString_toList, numeral, if_neg (by omega)]
    rfl
  have all (c : Char) (member : c ∈ i.repr.toList) : c.isDigit = true := digit_of_mem_repr member
  have value := ofDigitChars_padded 0 i
  rw [List.replicate_zero, List.nil_append] at value
  rw [scanIndex, digits]
  cases shape : i.repr.toList with
  | nil => exact absurd (String.toList_eq_nil_iff.mp shape) Nat.repr_ne_empty
  | cons c rest =>
    rw [shape] at all value
    have first := all c List.mem_cons_self
    have unsigned : scanSign (c :: rest) = (false, c :: rest) := by
      unfold scanSign
      split
      · next same => exact absurd ((List.cons.inj same).1 ▸ first) (by decide)
      · next same => exact absurd ((List.cons.inj same).1 ▸ first) (by decide)
      · rfl
    have visible : isSpace c = false := by
      have range : 48 ≤ c.val.toNat ∧ c.val.toNat ≤ 57 := by
        simpa [Char.isDigit, UInt32.le_iff_toNat_le] using first
      simp only [isSpace, Char.toNat, List.any_cons, List.any_nil, Bool.or_eq_false_iff,
        Bool.and_eq_false_iff, decide_eq_false_iff_not, and_true]
      omega
    rw [List.dropWhile_cons_of_neg (by simp [visible])]
    simp only [unsigned, List.takeWhile_eq_self_iff.mpr all, value, Bool.false_eq_true, if_false]
    rw [if_neg]
    rintro (none' | low | high)
    · cases none'
    · omega
    · omega

theorem Leftover.indices {e : TopicEntry} {held : List Nat} (left : Leftover e held)
    {entries : List DirEntry} (contents : e.contents = some entries) :
    indices entries = held.map fun i : Nat => (i : Int) := by
  obtain rfl := Option.some.inj (left.contents.symm.trans contents)
  rw [Broker.indices, List.filterMap_map, ← List.filterMap_eq_map]
  refine List.filterMap_congr fun i member => ?_
  simp only [Function.comp_apply, if_true]
  exact scanIndex_toString (left.small i member)

section Places

variable {cfg : Config} {e : TopicEntry} {held : List Nat} {entries : List DirEntry} {t : Topic}

theorem Topic.partition_getElem? {i : Int} {l : LogHandle} (found : t.partition i = some l) :
    0 ≤ i ∧ t.partitions[i.toNat]? = some l := by
  rw [Topic.partition] at found
  split at found
  · cases found
  · exact ⟨by omega, found⟩

theorem Leftover.dirs_nodup (left : Leftover e held) (contents : e.contents = some entries)
    (found : Found cfg e.name (Broker.indices entries) t.partitions) :
    (t.partitions.map LogHandle.dir).Nodup := by
  have numbers := found.numbers
  rw [left.indices contents] at numbers
  have distinct := numbers.nodup_iff.mpr (left.distinct.map Nat.cast_injective)
  have dirs : t.partitions.map LogHandle.dir =
      (t.partitions.map LogHandle.partition).map (partitionDir cfg e.name) := by
    rw [List.map_map]
    exact List.map_congr_left found.dirs
  rw [dirs]
  exact distinct.map fun i j same => (partitionDir_inj left.plain left.plain same).2

/-- Every log is in its place exactly where no directory below another is missing. -/
theorem Leftover.placed_iff (left : Leftover e held) (contents : e.contents = some entries)
    (found : Found cfg e.name (Broker.indices entries) t.partitions)
    (sorted : (t.partitions.map LogHandle.partition).Pairwise (· ≤ ·)) :
    (∀ i l, t.partition i = some l → l.partition = i ∧ l.dir = partitionDir cfg e.name i) ↔
      held.Perm (List.range held.length) := by
  have numbers := found.numbers
  rw [left.indices contents] at numbers
  have count : t.partitions.length = held.length := by simpa using numbers.length_eq
  have inOrder : ((List.range held.length).map fun i : Nat => (i : Int)).Pairwise (· ≤ ·) :=
    List.pairwise_map.mpr (List.pairwise_lt_range.imp fun less => by omega)
  constructor
  · intro placed
    have places : t.partitions.map LogHandle.partition =
        (List.range held.length).map fun i : Nat => (i : Int) := by
      refine List.ext_getElem (by simp [count]) fun i low high => ?_
      simp only [List.getElem_map, List.getElem_range]
      rw [List.length_map] at low
      exact (placed i t.partitions[i] (List.getElem?_eq_getElem low)).1
    rw [places] at numbers
    exact ((List.map_perm_map_iff Nat.cast_injective).mp numbers).symm
  · intro gapless i l at'
    have places := (numbers.trans (gapless.map _)).eq_of_pairwise' sorted inOrder
    obtain ⟨low, there⟩ := t.partition_getElem? at'
    have number : (t.partitions.map LogHandle.partition)[i.toNat]? = some l.partition := by
      rw [List.getElem?_map, there]
      rfl
    rw [places, List.getElem?_map, Option.map_eq_some_iff] at number
    obtain ⟨n, ranged, same⟩ := number
    obtain ⟨_, rfl⟩ := List.getElem?_eq_some_iff.mp ranged
    have isPlace : l.partition = i := by
      rw [← same, List.getElem_range]
      omega
    exact ⟨isPlace, isPlace ▸ found.dirs l (List.mem_of_getElem? there)⟩

end Places

/-- Whatever partition directories an interrupted creation or deletion has left, none is opened
twice; each is the partition of its number exactly where none below another is missing; and a topic is
registered exactly when its directory is there. -/
theorem adopted_partitions_iff (b b' : BrokerState) (listing : List TopicEntry) (fresh : b.topics = ∅)
    (distinct : (listing.map fun e => e.name).Nodup)
    (left : ∀ e ∈ listing, ∃ held, Leftover e held) (ran : loadTopics listing b = .ok () b') :
    (∀ name t name' t' i i' l l', b'.topics.lookup name = some t → b'.topics.lookup name' = some t' →
      t.partition i = some l → t'.partition i' = some l' → l.dir = l'.dir →
        name = name' ∧ i = i') ∧
    (∀ e ∈ listing, ∀ held, Leftover e held → ∀ t, b'.topics.lookup e.name = some t →
      ((∀ i l, t.partition i = some l → l.partition = i ∧ l.dir = partitionDir b.cfg e.name i) ↔
        held.Perm (List.range held.length))) ∧
    (∀ name, b'.topics.lookup name = none ↔ name ∉ listing.map fun e => e.name) := by
  have adopted : Adopted b.cfg listing b' :=
    (loadTopics_adopted listing (List.Subset.refl _) rfl (fun name t there => by
      rw [fresh] at there
      cases there)).of_ok ran
  refine ⟨?_, ?_, ?_⟩
  · intro name t name' t' i i' l l' found found' at' at'' same
    obtain ⟨e, here, rfl, entries, contents, logs, -⟩ := adopted name t found
    obtain ⟨e', here', rfl, entries', contents', logs', -⟩ := adopted name' t' found'
    obtain ⟨held, left₁⟩ := left e here
    obtain ⟨held', left₂⟩ := left e' here'
    obtain ⟨low, there⟩ := t.partition_getElem? at'
    obtain ⟨low', there'⟩ := t'.partition_getElem? at''
    have dirs := logs.dirs l (List.mem_of_getElem? there)
    have dirs' := logs'.dirs l' (List.mem_of_getElem? there')
    obtain ⟨names, -⟩ := partitionDir_inj left₁.plain left₂.plain (dirs.symm.trans (same.trans dirs'))
    refine ⟨names, ?_⟩
    obtain rfl := Option.some.inj (found.symm.trans (names ▸ found'))
    have nodup := left₁.dirs_nodup contents logs
    have at₁ : (t.partitions.map LogHandle.dir)[i.toNat]? = some l.dir := by
      rw [List.getElem?_map, there]
      rfl
    have at₂ : (t.partitions.map LogHandle.dir)[i'.toNat]? = some l.dir := by
      rw [List.getElem?_map, there', same]
      rfl
    have inside := (List.getElem?_eq_some_iff.mp at₁).1
    have places := (List.getElem?_inj inside nodup).mp (at₁.trans at₂.symm)
    omega
  · intro e here held left' t found
    obtain ⟨e', here', same, entries, contents, logs, sorted⟩ := adopted e.name t found
    obtain rfl : e' = e := List.inj_on_of_nodup_map distinct here' here same
    exact left'.placed_iff contents logs sorted
  · intro name
    constructor
    · intro none' listed
      have registered := (loadTopics_registers listing [] (by simp) fun e here => by
        obtain ⟨held, left'⟩ := left e here
        exact ⟨left'.isDir, by rw [left'.contents]; rfl⟩).of_ok ran name listed
      rw [none'] at registered
      cases registered
    · intro missing
      by_contra there
      obtain ⟨t, found⟩ := Option.ne_none_iff_exists'.mp there
      obtain ⟨e, here, rfl, -⟩ := adopted name t found
      exact missing (List.mem_map.mpr ⟨e, here, rfl⟩)

def listed (name : String) (held : List Nat) : TopicEntry :=
  ⟨⟨name, true⟩, some (held.map fun i => ⟨toString (i : Int), true⟩)⟩

def places (name : String) : EStateM.Result BrokerErr BrokerState Unit → Option (List Path)
  | .ok _ b => (b.topics.lookup name).map fun t => t.partitions.map LogHandle.dir
  | .error _ _ => none

/-- The directories are found in the order of their names. -/
theorem two_partitions_placed :
    ∃ b' t, loadTopics [listed "t" [1, 0]] idleBroker = .ok () b' ∧ b'.topics.lookup "t" = some t ∧
      (∃ l, t.partition 1 = some l) ∧
      ∀ i l, t.partition i = some l → l.dir = partitionDir idleBroker.cfg "t" i := by
  have runs : places "t" (loadTopics [listed "t" [1, 0]] idleBroker) =
      some [partitionDir idleBroker.cfg "t" 0, partitionDir idleBroker.cfg "t" 1] := by decide +kernel
  have left : Leftover (listed "t" [1, 0]) [1, 0] := ⟨by decide, rfl, rfl, by decide, by decide⟩
  rcases ran : loadTopics [listed "t" [1, 0]] idleBroker with ⟨_, b'⟩ | _
  · rw [ran] at runs
    obtain ⟨t, found, dirs⟩ := Option.map_eq_some_iff.mp runs
    have placed := ((adopted_partitions_iff idleBroker b' _ rfl (by decide)
      (by simpa using ⟨_, left⟩) ran).2.1 _ List.mem_cons_self [1, 0] left t found).mpr (by decide)
    refine ⟨b', t, rfl, found, ?_, fun i l at' => (placed i l at').2⟩
    have two : t.partitions.length = 2 := by simpa using congrArg List.length dirs
    exact ⟨_, List.getElem?_eq_getElem (l := t.partitions) (i := 1) (by omega)⟩
  · rw [ran] at runs
    cases runs

/-- A deletion was saved, and was interrupted when the directory of the first partition was gone.
The topic is there again, and the log of the second directory is its first partition. -/
theorem deleted_topic_shifted :
    ∃ b', loadTopics [listed "t" [1]] idleBroker = .ok () b' ∧
      idleBroker.topicsFile.lookup "t" = none ∧
      ((b'.topics.lookup "t").bind fun t => (t.partition 0).map LogHandle.dir) =
        some (partitionDir idleBroker.cfg "t" 1) := by
  have runs : places "t" (loadTopics [listed "t" [1]] idleBroker) =
      some [partitionDir idleBroker.cfg "t" 1] := by decide +kernel
  rcases ran : loadTopics [listed "t" [1]] idleBroker with ⟨_, b'⟩ | _
  · rw [ran] at runs
    obtain ⟨t, found, dirs⟩ := Option.map_eq_some_iff.mp runs
    refine ⟨b', rfl, rfl, ?_⟩
    rw [found, Option.bind_some, Topic.partition, if_neg (by decide), ← List.getElem?_map, dirs]
    rfl
  · rw [ran] at runs
    cases runs

end KafkaWire.Broker
