import KafkaWire.Lib.Chunks
import KafkaWire.Tiering.Uploader

/-! The parts of an upload as pieces of one segment file. -/

namespace KafkaWire.Tiering

open Chunks

variable {existing : List Part} {partSize : Nat} {header : Broker.Table String}

def UploadDir.CutBy (dir : UploadDir) (data : Bytes) (size : Nat) : Prop :=
  ∀ number, ∀ bytes ∈ dir.parts.lookup number,
    ∃ k, number = k + 1 ∧ bytes = chunk data size k ∧ bytes ≠ []

def UploadDir.Filled (dir : UploadDir) (data : Bytes) (size count : Nat) : Prop :=
  ∀ k < count, dir.parts.lookup (k + 1) = some (chunk data size k)

def FS.Cut (fs : FS) (sizes : Set Nat) (data : Bytes) (uploadID : String) : Prop :=
  ∀ dir ∈ fs.uploads.lookup uploadID, ∃ size ∈ sizes, 0 < size ∧ dir.CutBy data size

section Dirs

variable {dir : UploadDir} {data : Bytes} {size count : Nat}

theorem UploadDir.CutBy.insert (cut : dir.CutBy data size) (k : Nat)
    (nonempty : chunk data size k ≠ []) :
    UploadDir.CutBy ⟨dir.header, dir.parts.insert (k + 1) (chunk data size k)⟩ data size := by
  intro number bytes member
  by_cases same : number = k + 1
  · subst same
    rw [AList.lookup_insert, Option.mem_some_iff] at member
    exact ⟨k, rfl, member.symm, member ▸ nonempty⟩
  · rw [AList.lookup_insert_ne same] at member
    exact cut number bytes member

theorem UploadDir.Filled.insert (filled : dir.Filled data size count) :
    UploadDir.Filled ⟨dir.header, dir.parts.insert (count + 1) (chunk data size count)⟩ data size
      (count + 1) := by
  intro k inside
  by_cases last : k = count
  · rw [last, AList.lookup_insert]
  · rw [AList.lookup_insert_ne (by omega)]
    exact filled k (by omega)

theorem lookup_erase_foldl (gone : List Nat) (parts : AList (fun _ : Nat => Bytes)) (number : Nat) :
    ∀ bytes ∈ (gone.foldl (fun parts number => parts.erase number) parts).lookup number,
      bytes ∈ parts.lookup number := by
  induction gone generalizing parts with
  | nil => exact fun _ member => member
  | cons first gone ih =>
    intro bytes member
    have found := ih _ bytes member
    by_cases same : number = first
    · rw [same, AList.lookup_erase] at found
      exact absurd found (by simp)
    · rwa [AList.lookup_erase_ne same] at found

theorem mapM_lookup (parts : AList (fun _ : Nat => Bytes)) (bytes : Nat → Bytes) (numbers : List Nat)
    (found : ∀ k ∈ numbers, parts.lookup (k + 1) = some (bytes k)) :
    (numbers.map (· + 1)).mapM (fun number => parts.lookup number) = some (numbers.map bytes) := by
  induction numbers with
  | nil => rfl
  | cons k numbers ih =>
    rw [List.map_cons, List.mapM_cons, found k List.mem_cons_self,
      ih fun other member => found other (List.mem_cons_of_mem _ member)]
    rfl

theorem UploadDir.Filled.concat (filled : dir.Filled data size count) (parts : List Part)
    (numbers : parts.map Part.number = (List.range count).map (· + 1)) :
    dir.concat parts = some (data.take (count * size)) := by
  have sorted : ((List.range count).map (· + 1)).Pairwise (· ≤ ·) := by
    rw [List.pairwise_map]
    exact List.pairwise_lt_range.imp fun less => by omega
  rw [UploadDir.concat, numbers, sorted.insertionSort_eq,
    mapM_lookup dir.parts (chunk data size) _ fun k member => filled k (List.mem_range.mp member),
    Option.map_some, flatten_chunks]

end Dirs

theorem FS.listParts_eq {fs : FS} {uploadID : String}
    (listed : fs.listParts uploadID = some existing) :
    ∃ dir, fs.uploads.lookup uploadID = some dir ∧
      existing = (dir.parts.keys.insertionSort (· ≤ ·)).map fun number =>
        ⟨number, partETag number ((dir.parts.lookup number).getD []).length,
          ((dir.parts.lookup number).getD []).length⟩ := by
  cases found : fs.uploads.lookup uploadID with
  | none => simp [FS.listParts, found] at listed
  | some dir =>
    simp only [FS.listParts, found] at listed
    exact ⟨dir, rfl, (Option.some.inj listed).symm⟩

theorem trusted_get (partSize : Nat) (existing : List Part) (i : Nat) (rest : List Part) (j : Nat)
    (part : Part) (found : (trusted partSize existing i rest)[j]? = some part) :
    rest[j]? = some part ∧ part.number = i + j + 1 ∧
      (i + j < existing.length - 1 → part.size = partSize) := by
  induction rest generalizing i j with
  | nil => simp [trusted] at found
  | cons first rest ih =>
    rw [trusted] at found
    split at found
    · simp at found
    · next inLine =>
        simp only [not_or, not_not, not_and] at inLine
        cases j with
        | zero =>
          obtain rfl : first = part := by simpa using found
          exact ⟨rfl, inLine.1, fun inside => inLine.2 inside⟩
        | succ j =>
          obtain ⟨there, number, same⟩ := ih (i + 1) j (by simpa using found)
          exact ⟨there, by omega, fun inside => same (by omega)⟩

theorem trusted_numbers (partSize : Nat) (existing : List Part) :
    (trusted partSize existing 0 existing).map Part.number =
      (List.range (trusted partSize existing 0 existing).length).map (· + 1) := by
  refine List.ext_getElem (by simp) fun j inside _ => ?_
  rw [List.length_map] at inside
  obtain ⟨-, number, -⟩ := trusted_get _ _ _ _ j _ (List.getElem?_eq_getElem inside)
  simp [number]

/-- A first part that is stored alone fits a part size if it is that long, or is the whole file
and no longer. -/
def FitsPartSize (data : Bytes) (partSize : Nat) : List Part → Prop
  | [part] => part.number = 1 →
      part.size = partSize ∨ (part.size = data.length ∧ data.length ≤ partSize)
  | _ => True

instance (data : Bytes) (partSize : Nat) : DecidablePred (FitsPartSize data partSize)
  | [] => isTrue trivial
  | [part] => inferInstanceAs (Decidable (part.number = 1 →
      part.size = partSize ∨ (part.size = data.length ∧ data.length ≤ partSize)))
  | _ :: _ :: _ => isTrue trivial

theorem chunk_zero_of_fits {data : Bytes} {size : Nat}
    (fits : (chunk data size 0).length = partSize ∨
      ((chunk data size 0).length = data.length ∧ data.length ≤ partSize)) :
    chunk data size 0 = chunk data partSize 0 := by
  rw [chunk_zero, List.length_take] at fits
  rw [chunk_zero, chunk_zero]
  rcases fits with same | ⟨whole, short⟩
  · rw [← same]
    rcases Nat.le_total size data.length with inside | beyond
    · rw [Nat.min_eq_left inside]
    · rw [Nat.min_eq_right beyond, List.take_of_length_le beyond, List.take_length]
  · rw [List.take_of_length_le (by omega), List.take_of_length_le short]

theorem UploadDir.CutBy.size_eq {dir : UploadDir} {data : Bytes} {size : Nat}
    (positive : 0 < size) (cut : dir.CutBy data size) {other : Nat} {first second : Bytes}
    (one : dir.parts.lookup 1 = some first) (two : dir.parts.lookup other = some second)
    (distinct : other ≠ 1) (long : first.length = partSize) : size = partSize := by
  obtain ⟨k, number, rfl, -⟩ := cut 1 first one
  obtain rfl : k = 0 := by omega
  obtain ⟨k, rfl, rfl, nonempty⟩ := cut other second two
  rw [Ne, chunk_eq_nil_iff data size k positive] at nonempty
  have beyond : size ≤ k * size := Nat.le_mul_of_pos_left size (by omega)
  rw [chunk_length] at long
  omega

theorem FS.listParts_spec {fs : FS} {uploadID : String}
    (listed : fs.listParts uploadID = some existing) :
    ∃ dir numbers, fs.uploads.lookup uploadID = some dir ∧ numbers.Nodup ∧
      (∀ number, number ∈ numbers ↔ number ∈ dir.parts) ∧
      existing.map Part.number = numbers ∧
      ∀ part ∈ existing, ∃ bytes, dir.parts.lookup part.number = some bytes ∧
        part.size = bytes.length := by
  obtain ⟨dir, found, rfl⟩ := FS.listParts_eq listed
  have perm := List.perm_insertionSort (· ≤ ·) dir.parts.keys
  refine ⟨dir, dir.parts.keys.insertionSort (· ≤ ·), found,
    perm.nodup_iff.mpr dir.parts.keys_nodup, fun number => ?_, ?_, ?_⟩
  · rw [perm.mem_iff, AList.mem_keys]
  · rw [List.map_map]
    exact List.map_id _
  · intro part member
    obtain ⟨number, isKey, rfl⟩ := List.mem_map.mp member
    obtain ⟨bytes, stored⟩ := Option.isSome_iff_exists.mp
      (AList.lookup_isSome.mpr (AList.mem_keys.mp (perm.mem_iff.mp isKey)))
    exact ⟨bytes, stored, by simp [stored]⟩

theorem cutBy_of_trusted {dir : UploadDir} {data : Bytes} {size : Nat}
    {numbers : List Nat} (positive : 0 < size) (cut : dir.CutBy data size)
    (nodup : numbers.Nodup) (keys : ∀ number, number ∈ numbers ↔ number ∈ dir.parts)
    (shape : existing.map Part.number = numbers)
    (stored : ∀ part ∈ existing, ∃ bytes, dir.parts.lookup part.number = some bytes ∧
      part.size = bytes.length)
    (fits : FitsPartSize data partSize existing)
    (first : Part) (kept : (trusted partSize existing 0 existing)[0]? = some first) :
    dir.CutBy data partSize := by
  obtain ⟨isFirst, number, sized⟩ := trusted_get _ _ _ _ _ _ kept
  match existing, shape with
  | [], _ => simp at isFirst
  | [part], shape =>
    obtain rfl : part = first := by simpa using isFirst
    obtain ⟨bytes, found, long⟩ := stored part List.mem_cons_self
    rw [number] at found
    intro other bytes' member
    have isKey : other ∈ numbers := (keys other).mpr (AList.lookup_isSome.mp (by simp [Option.mem_def.mp member]))
    obtain rfl : other = 1 := by simpa [← shape, number] using isKey
    obtain rfl : bytes = bytes' := Option.some.inj (found.symm.trans member)
    obtain ⟨k, one, rfl, nonempty⟩ := cut 1 bytes found
    obtain rfl : k = 0 := by omega
    refine ⟨0, rfl, chunk_zero_of_fits ?_, nonempty⟩
    rw [← long]
    exact fits number
  | part :: second :: rest, shape =>
    obtain rfl : part = first := by simpa using isFirst
    obtain ⟨bytes, found, long⟩ := stored part List.mem_cons_self
    obtain ⟨bytes', found', -⟩ := stored second (List.mem_cons_of_mem _ List.mem_cons_self)
    rw [number] at found
    have distinct : second.number ≠ 1 := by
      rw [← shape] at nodup
      simp only [List.map_cons, List.nodup_cons, List.mem_cons, not_or] at nodup
      omega
    have same := cut.size_eq positive found found' distinct
      (long.symm.trans (sized (by simp)))
    exact same ▸ cut

/-- Where the only part fits, the trusted parts are the first pieces at the new part size, and so
is everything else in the directory. -/
theorem trusted_filled {fs : FS} {data : Bytes} {uploadID : String}
    {sizes : Set Nat} (cut : fs.Cut sizes data uploadID)
    (listed : fs.listParts uploadID = some existing) (fits : FitsPartSize data partSize existing)
    (some : trusted partSize existing 0 existing ≠ []) :
    ∀ dir ∈ fs.uploads.lookup uploadID, dir.CutBy data partSize ∧
      dir.Filled data partSize (trusted partSize existing 0 existing).length := by
  obtain ⟨dir, numbers, found, nodup, keys, shape, stored⟩ := FS.listParts_spec listed
  rintro _ member
  obtain rfl : dir = _ := Option.some.inj (found.symm.trans member)
  obtain ⟨size, -, sizePositive, cutBy⟩ := cut dir found
  obtain ⟨first, kept⟩ := List.exists_mem_of_ne_nil _ some
  have cutBy' : dir.CutBy data partSize :=
    cutBy_of_trusted sizePositive cutBy nodup keys shape stored fits _
      (List.getElem?_eq_getElem (List.length_pos_of_mem kept))
  refine ⟨cutBy', fun k inside => ?_⟩
  obtain ⟨there, number, -⟩ := trusted_get _ _ _ _ k _ (List.getElem?_eq_getElem inside)
  obtain ⟨bytes, found, -⟩ := stored _ (List.mem_of_getElem? there)
  rw [number, Nat.zero_add] at found
  obtain ⟨j, same, rfl, -⟩ := cutBy' _ _ found
  obtain rfl : j = k := by omega
  exact found

theorem fits_of_cut {fs : FS} {data : Bytes} {uploadID : String}
    (cut : fs.Cut {partSize} data uploadID) :
    ∀ existing ∈ fs.listParts uploadID, FitsPartSize data partSize existing := by
  rintro (_ | ⟨part, _ | _⟩) listed
  · trivial
  · obtain ⟨dir, numbers, found, -, -, -, stored⟩ := FS.listParts_spec listed
    obtain ⟨bytes, there, size⟩ := stored part List.mem_cons_self
    obtain ⟨_, rfl, positive, cutBy⟩ := cut dir found
    intro first
    obtain ⟨k, number, rfl, nonempty⟩ := cutBy _ _ there
    obtain rfl : k = 0 := by omega
    rw [size, chunk_length]
    omega
  · trivial

/-! How the calls on the store change what is cut and what is there. -/

section Store

variable {fs fs' : FS} {data : Bytes} {key uploadID : String} {sizes : Set Nat}

theorem FS.createMultipart_eq (created : fs.createMultipart key uploadID header = some fs') :
    fs' = { fs with uploads := fs.uploads.insert uploadID ⟨some header, ∅⟩ } := by
  simp only [FS.createMultipart, Option.bind_eq_bind, Option.bind_eq_some_iff] at created
  obtain ⟨path, -, rest⟩ := created
  exact (Option.some.inj rest).symm

theorem FS.Cut.createMultipart {other : String}
    (cut : fs.Cut sizes data other) {size : Nat} (isSize : size ∈ sizes) (positive : 0 < size)
    (created : fs.createMultipart key uploadID header = some fs') : fs'.Cut sizes data other := by
  obtain rfl := FS.createMultipart_eq created
  intro dir member
  by_cases same : other = uploadID
  · rw [same, AList.lookup_insert, Option.mem_some_iff] at member
    subst member
    exact ⟨size, isSize, positive, fun number bytes found => by simp at found⟩
  · rw [AList.lookup_insert_ne same] at member
    exact cut dir member

theorem FS.createMultipart_lookup (created : fs.createMultipart key uploadID header = some fs') :
    fs'.uploads.lookup uploadID = some ⟨some header, ∅⟩ := by
  rw [FS.createMultipart_eq created, AList.lookup_insert]

theorem FS.uploadPart_eq {number : Nat} {bytes : Bytes} {part : Part}
    (stored : fs.uploadPart uploadID number bytes = some (part, fs')) :
    ∃ dir, fs.uploads.lookup uploadID = some dir ∧ part.number = number ∧
      part.size = bytes.length ∧
      fs' = { fs with
        uploads := fs.uploads.insert uploadID ⟨dir.header, dir.parts.insert number bytes⟩ } := by
  rw [FS.uploadPart] at stored
  split at stored
  · simp at stored
  · simp only [Option.bind_eq_bind, Option.bind_eq_some_iff] at stored
    obtain ⟨dir, found, rest⟩ := stored
    obtain ⟨rfl, rfl⟩ := Prod.mk.inj (Option.some.inj rest)
    exact ⟨dir, found, rfl, rfl, rfl⟩

theorem FS.assemble_eq {parts : List Part} (assembled : fs.assemble key uploadID parts = some fs') :
    ∃ dir header path bytes, fs.uploads.lookup uploadID = some dir ∧ dir.header = some header ∧
      objectPath key = some path ∧ dir.concat parts = some bytes ∧
      fs' = { fs with objects := fs.objects.insert path bytes } := by
  simp only [FS.assemble, Option.bind_eq_bind, Option.bind_eq_some_iff] at assembled
  obtain ⟨dir, found, header, isHeader, path, there, bytes, whole, rest⟩ := assembled
  exact ⟨dir, header, path, bytes, found, isHeader, there, whole, (Option.some.inj rest).symm⟩

@[simp] theorem FS.describe_uploads (fs : FS) (key uploadID : String) :
    (fs.describe key uploadID).uploads = fs.uploads := by
  rw [FS.describe]
  split <;> rfl

@[simp] theorem FS.describe_objects (fs : FS) (key uploadID : String) :
    (fs.describe key uploadID).objects = fs.objects := by
  rw [FS.describe]
  split <;> rfl

@[simp] theorem FS.removeUpload_objects (fs : FS) (uploadID : String) (removal : Removal) :
    (fs.removeUpload uploadID removal).objects = fs.objects := by
  cases removal with
  | whole => rfl
  | partly header kept =>
    simp only [FS.removeUpload]
    split <;> rfl

theorem FS.removeUpload_other (fs : FS) {uploadID other : String} (removal : Removal)
    (different : other ≠ uploadID) :
    (fs.removeUpload uploadID removal).uploads.lookup other = fs.uploads.lookup other := by
  cases removal with
  | whole => exact AList.lookup_erase_ne different
  | partly header kept =>
    simp only [FS.removeUpload]
    split
    · rfl
    · exact AList.lookup_insert_ne different

theorem FS.removeUpload_lookup (fs : FS) (uploadID : String) (removal : Removal) (other : String) :
    ∀ dir ∈ (fs.removeUpload uploadID removal).uploads.lookup other,
      ∃ before ∈ fs.uploads.lookup other, (∀ header ∈ dir.header, header ∈ before.header) ∧
        ∀ number, ∀ bytes ∈ dir.parts.lookup number, bytes ∈ before.parts.lookup number := by
  intro dir member
  by_cases same : other = uploadID
  · subst same
    cases removal with
    | whole =>
      rw [FS.removeUpload, AList.lookup_erase] at member
      cases member
    | partly header kept =>
      simp only [FS.removeUpload] at member
      split at member
      · next absent =>
          rw [absent] at member
          cases member
      · next before found =>
          rw [AList.lookup_insert, Option.mem_some_iff] at member
          subst member
          refine ⟨before, found, ?_, fun number => lookup_erase_foldl _ _ number⟩
          intro kept isHeader
          cases header with
          | true => exact isHeader
          | false => cases isHeader
  · rw [fs.removeUpload_other removal same] at member
    exact ⟨dir, member, fun _ isHeader => isHeader, fun _ _ found => found⟩

theorem FS.Cut.removeUpload {other : String} (cut : fs.Cut sizes data other) (removal : Removal) :
    (fs.removeUpload uploadID removal).Cut sizes data other := by
  intro dir member
  obtain ⟨before, found, -, fewer⟩ := FS.removeUpload_lookup fs uploadID removal other dir member
  obtain ⟨size, isSize, positive, cutBy⟩ := cut before found
  exact ⟨size, isSize, positive, fun number bytes stored => cutBy number bytes (fewer number bytes stored)⟩

end Store

end KafkaWire.Tiering
