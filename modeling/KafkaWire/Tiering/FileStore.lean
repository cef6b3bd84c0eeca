import KafkaWire.Lib.Paths
import KafkaWire.Broker.GroupState

/-! Cold storage in a directory: finished objects, their metadata files, and one directory of
parts for every multipart upload. -/

namespace KafkaWire.Tiering

open Broker (Table)

def maxPartsPerUpload : Nat := 10000

structure Part where
  number : Nat
  etag : String
  size : Nat
  deriving DecidableEq, Repr

/-- A directory under `uploads`. The header is what `upload.json` keeps of the metadata. -/
structure UploadDir where
  header : Option (Table String)
  parts : AList (fun _ : Nat => Bytes)

structure FS where
  objects : AList (fun _ : List String => Bytes)
  metas : AList (fun _ : List String => Table String)
  uploads : Table UploadDir

inductive Removal
  | whole
  | partly (header : Bool) (kept : List Nat)
  deriving DecidableEq, Repr

/-- The path below `objects`; the root itself is no object. -/
def objectPath (key : String) : Option (List String) :=
  let slashes := key.toList.map fun c => if c = '\\' then '/' else c
  match Paths.clean true (Paths.split slashes) with
  | [] => none
  | names => some names

def partETag (number size : Nat) : String :=
  let digits := toString number
  "fs-" ++ String.ofList (List.replicate (5 - digits.length) '0') ++ digits ++ "-" ++ toString size

def UploadDir.concat (dir : UploadDir) (parts : List Part) : Option Bytes :=
  (((parts.map Part.number).insertionSort (· ≤ ·)).mapM fun number => dir.parts.lookup number).map
    List.flatten

namespace FS

def get (fs : FS) (key : String) : Option Bytes := do fs.objects.lookup (← objectPath key)

def createMultipart (fs : FS) (key uploadID : String) (header : Table String) : Option FS := do
  let _ ← objectPath key
  return { fs with uploads := fs.uploads.insert uploadID ⟨some header, ∅⟩ }

/-- A part is written under another name and renamed, so that it is there whole or not at all. -/
def uploadPart (fs : FS) (uploadID : String) (number : Nat) (bytes : Bytes) : Option (Part × FS) :=
  if number < 1 ∨ number > maxPartsPerUpload then none
  else do
    let dir ← fs.uploads.lookup uploadID
    return (⟨number, partETag number bytes.length, bytes.length⟩,
      { fs with
        uploads := fs.uploads.insert uploadID { dir with parts := dir.parts.insert number bytes } })

def listParts (fs : FS) (uploadID : String) : Option (List Part) := do
  let dir ← fs.uploads.lookup uploadID
  return (dir.parts.keys.insertionSort (· ≤ ·)).map fun number =>
    let size := ((dir.parts.lookup number).getD []).length
    ⟨number, partETag number size, size⟩

/-- `CompleteMultipart` up to the rename that makes the object visible. -/
def assemble (fs : FS) (key uploadID : String) (parts : List Part) : Option FS := do
  let dir ← fs.uploads.lookup uploadID
  let _ ← dir.header
  let path ← objectPath key
  let data ← dir.concat parts
  return { fs with objects := fs.objects.insert path data }

/-- The metadata file, which `CompleteMultipart` writes after the object. -/
def describe (fs : FS) (key uploadID : String) : FS :=
  match objectPath key, fs.uploads.lookup uploadID with
  | some path, some dir =>
    let total := ((fs.objects.lookup path).getD []).length
    { fs with
      metas := fs.metas.insert path
        ((dir.header.getD ∅).insert "etag" ("fs-" ++ toString total)) }
  | _, _ => fs

def removeUpload (fs : FS) (uploadID : String) : Removal → FS
  | .whole => { fs with uploads := fs.uploads.erase uploadID }
  | .partly header kept =>
    match fs.uploads.lookup uploadID with
    | none => fs
    | some dir =>
      let gone := dir.parts.keys.filter fun number => number ∉ kept
      { fs with
        uploads := fs.uploads.insert uploadID
          ⟨if header then dir.header else none,
            gone.foldl (fun parts number => parts.erase number) dir.parts⟩ }

end FS

end KafkaWire.Tiering
