import Mathlib.Data.List.Basic
import Mathlib.Tactic

/-! Runs of a machine that takes one event at a time, and conditions that every step of a run
meets. -/

namespace Machine

variable {σ ε : Type*}

def exec (step : σ → ε → σ) (start : σ) (events : List ε) : σ := events.foldl step start

def Guarded (step : σ → ε → σ) (guard : σ → ε → Prop) : σ → List ε → Prop
  | _, [] => True
  | state, event :: events => guard state event ∧ Guarded step guard (step state event) events

instance decidableGuarded (step : σ → ε → σ) (guard : σ → ε → Prop)
    [decidable : ∀ state event, Decidable (guard state event)] :
    (start : σ) → (events : List ε) → Decidable (Guarded step guard start events)
  | _, [] => isTrue trivial
  | start, event :: events =>
    have := decidableGuarded step guard (step start event) events
    inferInstanceAs (Decidable (guard start event ∧ Guarded step guard _ events))

variable (step : σ → ε → σ)

@[simp] theorem exec_nil (start : σ) : exec step start [] = start := rfl

@[simp] theorem exec_cons (start : σ) (event : ε) (events : List ε) :
    exec step start (event :: events) = exec step (step start event) events := rfl

theorem exec_append (start : σ) (front back : List ε) :
    exec step start (front ++ back) = exec step (exec step start front) back :=
  List.foldl_append

theorem exec_concat (start : σ) (front : List ε) (event : ε) :
    exec step start (front ++ [event]) = step (exec step start front) event := by
  rw [exec_append]
  rfl

variable {step} {guard : σ → ε → Prop}

theorem guarded_append (start : σ) (front back : List ε) :
    Guarded step guard start (front ++ back) ↔
      Guarded step guard start front ∧ Guarded step guard (exec step start front) back := by
  induction front generalizing start with
  | nil => simp [Guarded]
  | cons event front ih => simp only [List.cons_append, Guarded, ih, exec_cons, and_assoc]

theorem guarded_true (start : σ) (events : List ε) :
    Guarded step (fun _ _ => True) start events := by
  induction events generalizing start with
  | nil => trivial
  | cons event events ih => exact ⟨trivial, ih _⟩

/-- A property of the events so far and the state that holds at the start and that every guarded
step keeps holds after the run. -/
theorem Guarded.invariant (inv : List ε → σ → Prop) (start : σ) (initially : inv [] start)
    (kept : ∀ past state event, inv past state → guard state event →
      inv (past ++ [event]) (step state event))
    (events : List ε) (guarded : Guarded step guard start events) :
    inv events (exec step start events) := by
  induction events using List.reverseRecOn with
  | nil => exact initially
  | append_singleton front event ih =>
    rw [guarded_append] at guarded
    rw [exec_concat]
    exact kept front _ event (ih guarded.1) guarded.2.1

theorem getElem?_set_cases {α : Type*} {list : List α} {idx other : Nat} {entry found : α}
    (there : (list.set idx entry)[other]? = some found) :
    other = idx ∧ found = entry ∨ other ≠ idx ∧ list[other]? = some found := by
  rw [List.getElem?_set] at there
  split at there
  · next same =>
      split at there
      · exact .inl ⟨same.symm, (Option.some.inj there).symm⟩
      · cases there
  · next different => exact .inr ⟨Ne.symm different, there⟩

end Machine
