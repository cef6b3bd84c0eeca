import Mathlib.Data.List.AList
import KafkaWire.Lib.Machine

/-! A value in memory that several writers publish to one file: each marshals the value, writes
it to a temporary file that all of them share, and renames that onto the file. -/

namespace Publish

inductive Contents (α : Type)
  | whole (value : α)
  | torn

inductive Stage (α : Type)
  | submitted
  | marshalled (raw : α)
  | written
  | returned (ok : Bool)

def Stage.inWindow {α : Type} : Stage α → Bool
  | .marshalled _ => true
  | .written => true
  | _ => false

structure Shared (α : Type) where
  memory : α
  temp : Option (Contents α)
  file : Option (Contents α)
  calls : AList (fun _ : Nat => Stage α)

inductive WriteOutcome
  | done | refused | torn
  deriving DecidableEq, Repr

inductive Event (α : Type)
  | idle
  | change (f : α → α)
  | submit (call : Nat) (f : α → α)
  | marshal (call : Nat) (ok : Bool)
  | write (call : Nat) (outcome : WriteOutcome)
  | rename (call : Nat) (ok : Bool)

def Event.call {α : Type} : Event α → Option Nat
  | .idle | .change _ => none
  | .submit call _ => some call
  | .marshal call _ => some call
  | .write call _ => some call
  | .rename call _ => some call

variable {α : Type}

namespace Shared

def setStage (s : Shared α) (call : Nat) (stage : Stage α) : Shared α :=
  { s with calls := s.calls.insert call stage }

def step (s : Shared α) : Event α → Shared α
  | .idle => s
  | .change f => { s with memory := f s.memory }
  | .submit call f =>
    if call ∈ s.calls then s
    else { s with memory := f s.memory, calls := s.calls.insert call .submitted }
  | .marshal call ok =>
    match s.calls.lookup call with
    | some .submitted =>
      if ok then s.setStage call (.marshalled s.memory) else s.setStage call (.returned false)
    | _ => s
  | .write call outcome =>
    match s.calls.lookup call with
    | some (.marshalled raw) =>
      match outcome with
      | .done => { s.setStage call .written with temp := some (.whole raw) }
      | .refused => s.setStage call (.returned false)
      | .torn => { s.setStage call (.returned false) with temp := some .torn }
    | _ => s
  | .rename call ok =>
    match s.calls.lookup call, s.temp with
    | some .written, some contents =>
      if ok then { s.setStage call (.returned true) with temp := none, file := some contents }
      else s.setStage call (.returned false)
    | some .written, none => s.setStage call (.returned false)
    | _, _ => s

theorem step_submit (s : Shared α) {call : Nat} (f : α → α) (fresh : call ∉ s.calls) :
    s.step (.submit call f) =
      { s with memory := f s.memory, calls := s.calls.insert call .submitted } := if_neg fresh

def read (absent : α) (s : Shared α) : Option α :=
  match s.file with
  | none => some absent
  | some (.whole value) => some value
  | some .torn => none

def InWindow (s : Shared α) (call : Nat) : Prop :=
  (∃ raw, s.calls.lookup call = some (.marshalled raw)) ∨ s.calls.lookup call = some .written

theorem inWindow_free_iff (s : Shared α) :
    (∀ other, ¬ s.InWindow other) ↔ ∀ entry ∈ s.calls.entries, entry.2.inWindow = false := by
  constructor
  · intro free entry listed
    have found := AList.mem_lookup_iff.mpr listed
    rw [Option.mem_def] at found
    cases stage : entry.2 with
    | submitted => rfl
    | returned ok => rfl
    | marshalled raw => exact absurd (.inl ⟨raw, by rw [found, stage]⟩) (free entry.1)
    | written => exact absurd (.inr (by rw [found, stage])) (free entry.1)
  · rintro free other (⟨raw, found⟩ | found)
    · cases free _ (AList.mem_lookup_iff.mp found)
    · cases free _ (AList.mem_lookup_iff.mp found)

def Exclusive (s : Shared α) : Event α → Prop
  | .marshal _ _ => ∀ other, ¬ s.InWindow other
  | _ => True

instance (s : Shared α) (event : Event α) : Decidable (s.Exclusive event) :=
  match event with
  | .marshal _ _ => decidable_of_iff _ s.inWindow_free_iff.symm
  | .idle | .change _ | .submit _ _ | .write _ _ | .rename _ _ => isTrue trivial

def Failing (s : Shared α) (call : Nat) : Event α → Prop
  | .write other outcome => other = call ∧ outcome ≠ .done
  | .rename other ok => other = call ∧
      (ok = false ∨ s.temp = none ∧ s.calls.lookup call = some .written)
  | _ => False

/-- What an event can do. A call gives up before it has marshalled, or in its window; then the
temporary file may be torn. -/
inductive Moved (s : Shared α) : Event α → Shared α → Prop
  | stays (event : Event α) : Moved s event s
  | changes (f : α → α) : Moved s (.change f) { s with memory := f s.memory }
  | submits (call : Nat) (f : α → α) (fresh : call ∉ s.calls) :
      Moved s (.submit call f)
        { s with memory := f s.memory, calls := s.calls.insert call .submitted }
  | marshals (call : Nat) (found : s.calls.lookup call = some .submitted) :
      Moved s (.marshal call true) (s.setStage call (.marshalled s.memory))
  | writes (call : Nat) (raw : α) (found : s.calls.lookup call = some (.marshalled raw)) :
      Moved s (.write call .done) { s.setStage call .written with temp := some (.whole raw) }
  | renames (call : Nat) (contents : Contents α) (found : s.calls.lookup call = some .written)
      (temp : s.temp = some contents) :
      Moved s (.rename call true)
        { s.setStage call (.returned true) with temp := none, file := some contents }
  | drops (call : Nat) (found : s.calls.lookup call = some .submitted) :
      Moved s (.marshal call false) (s.setStage call (.returned false))
  | fails (event : Event α) (call : Nat) (temp : Option (Contents α)) (inWindow : s.InWindow call)
      (failing : s.Failing call event) :
      Moved s event { s.setStage call (.returned false) with temp := temp }

theorem step_moved (s : Shared α) (event : Event α) : s.Moved event (s.step event) := by
  cases event with
  | idle => exact .stays _
  | change f => exact .changes f
  | submit call f =>
    rw [step]
    split
    · exact .stays _
    · next fresh => exact .submits call f fresh
  | marshal call ok =>
    rw [step]
    split
    · next found =>
        cases ok with
        | true => exact .marshals call found
        | false => exact .drops call found
    · exact .stays _
  | write call outcome =>
    rw [step]
    split
    · next raw found =>
        cases outcome with
        | done => exact .writes call raw found
        | refused => exact .fails _ call s.temp (.inl ⟨raw, found⟩) ⟨rfl, by simp⟩
        | torn => exact .fails _ call (some .torn) (.inl ⟨raw, found⟩) ⟨rfl, by simp⟩
    · exact .stays _
  | rename call ok =>
    rw [step]
    split
    · next contents found temp =>
        cases ok with
        | true => exact .renames call contents found temp
        | false => exact .fails _ call s.temp (.inr found) ⟨rfl, .inl rfl⟩
    · next found absent => exact .fails _ call s.temp (.inr found) ⟨rfl, .inr ⟨absent, found⟩⟩
    · exact .stays _

theorem step_memory (s : Shared α) (event : Event α) :
    (s.step event).memory = s.memory ∨
      (∃ f, event = .change f ∧ (s.step event).memory = f s.memory) ∨
      ∃ call f, event = .submit call f ∧ call ∉ s.calls ∧ (s.step event).memory = f s.memory := by
  have moved := s.step_moved event
  generalize s.step event = s' at moved
  cases moved with
  | changes f => exact .inr (.inl ⟨f, rfl, rfl⟩)
  | submits call f fresh => exact .inr (.inr ⟨call, f, rfl, fresh, rfl⟩)
  | _ => exact .inl rfl

end Shared

theorem mem_calls {calls : AList (fun _ : Nat => Stage α)} {call : Nat} {stage : Stage α}
    (found : calls.lookup call = some stage) : call ∈ calls := by
  rw [← AList.lookup_isSome, found]
  rfl

theorem lookup_setStage (s : Shared α) (call other : Nat) (stage : Stage α) :
    (s.setStage call stage).calls.lookup other =
      if other = call then some stage else s.calls.lookup other := by
  unfold Shared.setStage
  split
  · next same => rw [same, AList.lookup_insert]
  · next different => rw [AList.lookup_insert_ne different]

end Publish
