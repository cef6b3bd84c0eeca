import KafkaWire.Lib.Files
import KafkaWire.Lib.Programs
import KafkaWire.Storage.Record

/-! The partition directory and the system calls on it. The three kinds of file of a
segment share its base offset and differ in their suffix. A `Tick` is what the
operating system answers to one call: the time, and whether the call fails. -/

namespace KafkaWire.Storage

open Files Programs

inductive Suffix where
  | log
  | index
  | timeIndex
  deriving DecidableEq, Repr

/-- A call with a `fault` fails; a failing write still gets that many bytes through. -/
structure Tick where
  now : Int
  fault : Option Nat := none
  deriving DecidableEq, Repr

structure World where
  stores : Suffix → Store Int
  time : Int
  pending : List Tick

namespace World

def empty : World := ⟨fun _ => Store.empty, 0, []⟩

def next (world : World) : Tick :=
  match world.pending with
  | [] => ⟨world.time, none⟩
  | tick :: _ => tick

def advance (world : World) : World :=
  match world.pending with
  | [] => world
  | tick :: rest => { world with time := tick.now, pending := rest }

def withStore (world : World) (suffix : Suffix) (store : Store Int) : World :=
  { world with stores := Function.update world.stores suffix store }

def Quiet (world : World) : Prop := ∀ tick ∈ world.pending, tick.fault = none

def Calm (world : World) : Prop := ∀ tick ∈ world.pending, tick.fault = none ∨ tick.fault = some 0

@[simp] theorem stores_advance (world : World) : world.advance.stores = world.stores := by
  rw [advance]
  split <;> rfl

@[simp] theorem stores_withStore (world : World) (suffix other : Suffix) (store : Store Int) :
    (world.withStore suffix store).stores other =
      if other = suffix then store else world.stores other := by
  simp [withStore, Function.update_apply]

@[simp] theorem pending_withStore (world : World) (suffix : Suffix) (store : Store Int) :
    (world.withStore suffix store).pending = world.pending := rfl

theorem pending_advance (world : World) : world.advance.pending <:+ world.pending := by
  unfold advance
  split
  · exact List.suffix_rfl
  · next tick rest shape =>
      rw [shape]
      exact List.suffix_cons tick rest

theorem Quiet.next {world : World} (quiet : world.Quiet) : world.next.fault = none := by
  unfold World.next
  split
  · rfl
  · next tick rest shape => exact quiet tick (by rw [shape]; exact List.mem_cons_self)

theorem Calm.next {world : World} (calm : world.Calm) :
    world.next.fault = none ∨ world.next.fault = some 0 := by
  unfold World.next
  split
  · exact .inl rfl
  · next tick rest shape => exact calm tick (by rw [shape]; exact List.mem_cons_self)

end World

/-- The calls still to come in `after` are some of those to come in `before`. -/
def Later (before after : World) : Prop := after.pending <:+ before.pending

theorem Later.refl (world : World) : Later world world := List.suffix_rfl

theorem Later.trans {first second third : World} (front : Later first second)
    (back : Later second third) : Later first third := List.IsSuffix.trans back front

theorem Later.quiet {before after : World} (later : Later before after) (quiet : before.Quiet) :
    after.Quiet := by
  intro tick member
  exact quiet tick (later.subset member)

theorem Later.calm {before after : World} (later : Later before after) (calm : before.Calm) :
    after.Calm := by
  intro tick member
  exact calm tick (later.subset member)

abbrev SysM := EStateM Err World

def tick : SysM Tick := modifyGet fun world => (world.next, world.advance)

def syscall {α : Type} (suffix : Suffix) (act : Int → Store Int → α × Store Int) : SysM α := do
  let answer ← tick
  match answer.fault with
  | some _ => throw .io
  | none => modifyGet fun world =>
    let result := act answer.now (world.stores suffix)
    (result.1, world.withStore suffix result.2)

def openFile (suffix : Suffix) (base : Int) : SysM (Handle Int) :=
  syscall suffix fun now store => store.openFile base now

def statFile (suffix : Suffix) (handle : Handle Int) : SysM (Nat × Int) :=
  syscall suffix fun _ store =>
    match store.lookup handle.key with
    | some file => ((file.data.length, file.mtime), store)
    | none => ((0, 0), store)

def readAt (suffix : Suffix) (handle : Handle Int) (position length : Nat) : SysM Bytes :=
  syscall suffix fun _ store => (((store.data handle.key).drop position).take length, store)

def truncateFile (suffix : Suffix) (handle : Handle Int) (size : Nat) : SysM Unit :=
  syscall suffix fun now store => ((), store.truncate handle size now)

def seekFile (suffix : Suffix) (handle : Handle Int) (position : Nat) : SysM Unit :=
  syscall suffix fun _ store => ((), store.seek handle position)

def syncFile (suffix : Suffix) (handle : Handle Int) : SysM Unit :=
  syscall suffix fun _ store => ((), store.sync handle)

def writeFile (suffix : Suffix) (handle : Handle Int) (bytes : Bytes) : SysM Unit := do
  let answer ← tick
  match answer.fault with
  | some written => do
      modify fun world =>
        world.withStore suffix ((world.stores suffix).write handle (bytes.take written) answer.now)
      throw .io
  | none => modify fun world =>
    world.withStore suffix ((world.stores suffix).write handle bytes answer.now)

section Rules

variable {α : Type} {world : World} {post : α → World → Prop} {failed : Err → World → Prop}

theorem yields_tick {post : Tick → World → Prop} :
    Yields tick world post failed ↔ post world.next world.advance := Iff.rfl

theorem yields_syscall (suffix : Suffix) (act : Int → Store Int → α × Store Int)
    (failing : world.next.fault ≠ none → failed .io world.advance)
    (running : world.next.fault = none →
      post (act world.next.now (world.stores suffix)).1
        (world.advance.withStore suffix (act world.next.now (world.stores suffix)).2)) :
    Yields (syscall suffix act) world post failed := by
  rw [syscall, yields_bind, yields_tick]
  cases answer : world.next.fault with
  | some written => exact failing (by simp [answer])
  | none =>
    have done := running answer
    simpa only [yields_modifyGet, World.stores_advance] using done

/-- With no answers left the calls succeed and the clock stands still. -/
theorem syscall_idle (suffix : Suffix) (act : Int → Store Int → α × Store Int)
    (idle : world.pending = []) :
    syscall suffix act world =
      .ok (act world.time (world.stores suffix)).1
        (world.withStore suffix (act world.time (world.stores suffix)).2) := by
  have next : world.next = ⟨world.time, none⟩ := by simp [World.next, idle]
  have advance : world.advance = world := by simp [World.advance, idle]
  have ticked : tick world = .ok world.next world.advance := rfl
  rw [syscall, bind_of_ok ticked, next, advance]
  rfl

theorem yields_writeFile {post : Unit → World → Prop} (suffix : Suffix) (handle : Handle Int)
    (bytes : Bytes)
    (failing : ∀ written, world.next.fault = some written → failed .io
      (world.advance.withStore suffix
        ((world.stores suffix).write handle (bytes.take written) world.next.now)))
    (running : world.next.fault = none → post ()
      (world.advance.withStore suffix ((world.stores suffix).write handle bytes world.next.now))) :
    Yields (writeFile suffix handle bytes) world post failed := by
  rw [writeFile, yields_bind, yields_tick]
  cases answer : world.next.fault with
  | some written =>
    have done := failing written answer
    simpa only [yields_bind, yields_modify, yields_throw, World.stores_advance] using done
  | none =>
    have done := running answer
    simpa only [yields_modify, World.stores_advance] using done

end Rules

end KafkaWire.Storage
