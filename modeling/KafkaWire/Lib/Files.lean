import KafkaWire.Lib.Bytes
import Mathlib.Data.List.AList

/-! A flat directory of files. Every file keeps, beside its contents, the contents
that its last sync made durable; every open handle has its own write offset. -/

namespace Files

structure File where
  data : Bytes
  synced : Bytes
  mtime : Int
  deriving DecidableEq, Repr

def File.flush (file : File) : File := { file with synced := file.data }

structure Handle (κ : Type) where
  fd : Nat
  key : κ
  deriving DecidableEq, Repr

structure Store (κ : Type) where
  files : AList (fun _ : κ => File)
  offset : Nat → Nat
  nextFd : Nat

variable {κ : Type} [DecidableEq κ]

namespace Store

def empty : Store κ := ⟨∅, fun _ => 0, 0⟩

def lookup (store : Store κ) (key : κ) : Option File := store.files.lookup key

def data (store : Store κ) (key : κ) : Bytes :=
  match store.lookup key with
  | some file => file.data
  | none => []

def update (store : Store κ) (key : κ) (change : File → File) : Store κ :=
  match store.lookup key with
  | some file => { store with files := store.files.insert key (change file) }
  | none => store

def create (store : Store κ) (key : κ) (now : Int) : Store κ :=
  match store.lookup key with
  | some _ => store
  | none => { store with files := store.files.insert key ⟨[], [], now⟩ }

def seek (store : Store κ) (handle : Handle κ) (position : Nat) : Store κ :=
  { store with offset := Function.update store.offset handle.fd position }

def openFile (store : Store κ) (key : κ) (now : Int) : Handle κ × Store κ :=
  let created := store.create key now
  (⟨store.nextFd, key⟩,
    { created with
      offset := Function.update created.offset store.nextFd 0
      nextFd := store.nextFd + 1 })

def overwrite (data : Bytes) (position : Nat) (bytes : Bytes) : Bytes :=
  data.take position ++ List.replicate (position - data.length) 0 ++ bytes ++
    data.drop (position + bytes.length)

def write (store : Store κ) (handle : Handle κ) (bytes : Bytes) (now : Int) : Store κ :=
  let position := store.offset handle.fd
  (store.update handle.key fun file =>
    { file with data := overwrite file.data position bytes, mtime := now }).seek handle
      (position + bytes.length)

def truncate (store : Store κ) (handle : Handle κ) (size : Nat) (now : Int) : Store κ :=
  store.update handle.key fun file => { file with data := file.data.take size, mtime := now }

def sync (store : Store κ) (handle : Handle κ) : Store κ :=
  store.update handle.key File.flush

def remove (store : Store κ) (key : κ) : Store κ :=
  { store with files := store.files.erase key }

def keys (store : Store κ) : List κ := store.files.keys

variable (store : Store κ) (handle : Handle κ) (key other : κ)

theorem mem_keys : key ∈ store.keys ↔ (store.lookup key).isSome = true := by
  rw [keys, ← AList.mem_keys, lookup, AList.lookup_isSome]

omit [DecidableEq κ] in
theorem keys_nodup : store.keys.Nodup := store.files.keys_nodup

theorem lookup_insert (file : File) :
    AList.lookup other (store.files.insert key file) =
      if other = key then some file else store.lookup other := by
  by_cases same : other = key
  · subst same
    simp
  · simp [same, lookup]

@[simp] theorem lookup_update (change : File → File) :
    (store.update key change).lookup other =
      if other = key then (store.lookup key).map change else store.lookup other := by
  cases found : store.lookup key with
  | none =>
    by_cases same : other = key
    · subst same
      simp [update, found]
    · simp [update, found, same]
  | some file =>
    rw [update, found]
    exact lookup_insert store key other (change file)

@[simp] theorem offset_update (change : File → File) :
    (store.update key change).offset = store.offset := by
  rw [update]
  split <;> rfl

@[simp] theorem nextFd_update (change : File → File) :
    (store.update key change).nextFd = store.nextFd := by
  rw [update]
  split <;> rfl

@[simp] theorem lookup_create (now : Int) :
    (store.create key now).lookup other =
      if other = key then some ((store.lookup key).getD ⟨[], [], now⟩) else store.lookup other := by
  cases found : store.lookup key with
  | some file =>
    by_cases same : other = key
    · subst same
      simp [create, found]
    · simp [create, found, same]
  | none =>
    rw [create, found]
    exact lookup_insert store key other ⟨[], [], now⟩

@[simp] theorem offset_create (now : Int) : (store.create key now).offset = store.offset := by
  rw [create]
  split <;> rfl

@[simp] theorem lookup_seek (position : Nat) :
    (store.seek handle position).lookup other = store.lookup other := rfl

omit [DecidableEq κ] in
@[simp] theorem offset_seek (position : Nat) (fd : Nat) :
    (store.seek handle position).offset fd = if fd = handle.fd then position else store.offset fd := by
  simp [seek, Function.update_apply]

omit [DecidableEq κ] in
@[simp] theorem nextFd_seek (position : Nat) :
    (store.seek handle position).nextFd = store.nextFd := rfl

@[simp] theorem openFile_handle (now : Int) :
    (store.openFile key now).1 = ⟨store.nextFd, key⟩ := rfl

@[simp] theorem lookup_openFile (now : Int) :
    (store.openFile key now).2.lookup other =
      if other = key then some ((store.lookup key).getD ⟨[], [], now⟩) else store.lookup other :=
  lookup_create store key other now

@[simp] theorem offset_openFile (now : Int) (fd : Nat) :
    (store.openFile key now).2.offset fd = if fd = store.nextFd then 0 else store.offset fd := by
  simp [openFile, Function.update_apply]

@[simp] theorem lookup_write (bytes : Bytes) (now : Int) :
    (store.write handle bytes now).lookup other =
      if other = handle.key then
        (store.lookup handle.key).map fun file =>
          { file with data := overwrite file.data (store.offset handle.fd) bytes, mtime := now }
      else store.lookup other := by
  simp [write]

@[simp] theorem offset_write (bytes : Bytes) (now : Int) (fd : Nat) :
    (store.write handle bytes now).offset fd =
      if fd = handle.fd then store.offset handle.fd + bytes.length else store.offset fd := by
  simp [write]

@[simp] theorem nextFd_write (bytes : Bytes) (now : Int) :
    (store.write handle bytes now).nextFd = store.nextFd := by
  simp [write]

@[simp] theorem lookup_truncate (size : Nat) (now : Int) :
    (store.truncate handle size now).lookup other =
      if other = handle.key then
        (store.lookup handle.key).map fun file =>
          { file with data := file.data.take size, mtime := now }
      else store.lookup other := by
  simp [truncate]

@[simp] theorem nextFd_truncate (size : Nat) (now : Int) :
    (store.truncate handle size now).nextFd = store.nextFd := by
  simp [truncate]

@[simp] theorem lookup_sync :
    (store.sync handle).lookup other =
      if other = handle.key then (store.lookup handle.key).map File.flush
      else store.lookup other := by
  simp [sync]

@[simp] theorem offset_sync : (store.sync handle).offset = store.offset := by
  simp [sync]

@[simp] theorem nextFd_sync : (store.sync handle).nextFd = store.nextFd := by
  simp [sync]

@[simp] theorem lookup_remove :
    (store.remove key).lookup other = if other = key then none else store.lookup other := by
  by_cases same : other = key
  · subst same
    simp [remove, lookup]
  · simp [remove, lookup, same]

omit [DecidableEq κ] in
theorem overwrite_end (data bytes : Bytes) : overwrite data data.length bytes = data ++ bytes := by
  simp [overwrite]

theorem data_of_lookup (file : File) (found : store.lookup key = some file) :
    store.data key = file.data := by
  rw [data, found]

end Store

end Files
