import Mathlib.Tactic

/-! Pre- and postconditions for programs that change a state and may fail. A failure
keeps the state that the program had reached, so it has a postcondition of its own. -/

namespace Programs

variable {ε σ τ α β : Type}

def Yields (prog : EStateM ε σ α) (start : σ) (post : α → σ → Prop) (failed : ε → σ → Prop) : Prop :=
  match prog start with
  | .ok value final => post value final
  | .error error final => failed error final

def zoom (get : σ → τ) (set : τ → σ → σ) (prog : EStateM ε τ α) : EStateM ε σ α := fun start =>
  match prog (get start) with
  | .ok value part => .ok value (set part start)
  | .error error part => .error error (set part start)

def orElse (prog : EStateM ε σ α) (fallback : α) : EStateM ε σ α := fun start =>
  match prog start with
  | .ok value final => .ok value final
  | .error _ final => .ok fallback final

def mapError (rename : ε → ε) (prog : EStateM ε σ α) : EStateM ε σ α := fun start =>
  match prog start with
  | .ok value final => .ok value final
  | .error error final => .error (rename error) final

theorem get_bind (next : σ → EStateM ε σ α) (start : σ) : (get >>= next) start = next start start :=
  rfl

theorem bind_of_ok {prog : EStateM ε σ α} {start middle : σ} {value : α}
    (ran : prog start = .ok value middle) (next : α → EStateM ε σ β) :
    (prog >>= next) start = next value middle := by
  simp only [bind, EStateM.bind, ran]

variable {start : σ} {post : α → σ → Prop} {failed : ε → σ → Prop}

instance (prog : EStateM ε σ α) [∀ value final, Decidable (post value final)]
    [∀ error final, Decidable (failed error final)] : Decidable (Yields prog start post failed) :=
  match ran : prog start with
  | .ok value final => decidable_of_iff (post value final) (by rw [Yields, ran])
  | .error error final => decidable_of_iff (failed error final) (by rw [Yields, ran])

theorem Yields.of_ok {prog : EStateM ε σ α} {value : α} {final : σ}
    (holds : Yields prog start post failed) (ran : prog start = .ok value final) :
    post value final := by
  rw [Yields, ran] at holds
  exact holds

theorem Yields.of_error {prog : EStateM ε σ α} {error : ε} {final : σ}
    (holds : Yields prog start post failed) (ran : prog start = .error error final) :
    failed error final := by
  rw [Yields, ran] at holds
  exact holds

theorem Yields.succeeds {prog : EStateM ε σ α} (holds : Yields prog start post fun _ _ => False) :
    ∃ value final, prog start = .ok value final ∧ post value final := by
  unfold Yields at holds
  split at holds
  · next value final ran => exact ⟨value, final, ran, holds⟩
  · exact holds.elim

theorem yields_ran (prog : EStateM ε σ α) (start : σ) :
    Yields prog start (fun value final => prog start = .ok value final)
      (fun error final => prog start = .error error final) := by
  unfold Yields
  split
  · next ran => exact ran
  · next ran => exact ran

theorem Yields.mono {prog : EStateM ε σ α} {post' : α → σ → Prop} {failed' : ε → σ → Prop}
    (holds : Yields prog start post failed)
    (weakerPost : ∀ value final, post value final → post' value final)
    (weakerFailed : ∀ error final, failed error final → failed' error final) :
    Yields prog start post' failed' := by
  unfold Yields at holds ⊢
  split
  · next value final ran =>
      rw [ran] at holds
      exact weakerPost _ _ holds
  · next error final ran =>
      rw [ran] at holds
      exact weakerFailed _ _ holds

theorem Yields.and {prog : EStateM ε σ α} {post' : α → σ → Prop} {failed' : ε → σ → Prop}
    (first : Yields prog start post failed) (second : Yields prog start post' failed') :
    Yields prog start (fun value final => post value final ∧ post' value final)
      (fun error final => failed error final ∧ failed' error final) := by
  unfold Yields at first second ⊢
  split
  · next ran =>
      rw [ran] at first second
      exact ⟨first, second⟩
  · next ran =>
      rw [ran] at first second
      exact ⟨first, second⟩

theorem yields_pure (value : α) :
    Yields (pure value : EStateM ε σ α) start post failed ↔ post value start := Iff.rfl

theorem yields_throw (error : ε) :
    Yields (throw error : EStateM ε σ α) start post failed ↔ failed error start := Iff.rfl

theorem yields_bind (prog : EStateM ε σ α) (next : α → EStateM ε σ β)
    (post : β → σ → Prop) :
    Yields (prog >>= next) start post failed ↔
      Yields prog start (fun value middle => Yields (next value) middle post failed) failed := by
  simp only [Yields, bind, EStateM.bind]
  cases prog start <;> rfl

theorem yields_map (change : α → β) (prog : EStateM ε σ α) (post : β → σ → Prop) :
    Yields (change <$> prog) start post failed ↔
      Yields prog start (fun value final => post (change value) final) failed := by
  simp only [Yields, Functor.map, EStateM.map]
  cases prog start <;> rfl

theorem yields_get (post : σ → σ → Prop) :
    Yields (get : EStateM ε σ σ) start post failed ↔ post start start := Iff.rfl

theorem yields_set (value : σ) (post : PUnit → σ → Prop) :
    Yields (set value : EStateM ε σ PUnit) start post failed ↔ post ⟨⟩ value := Iff.rfl

theorem yields_modify (change : σ → σ) (post : PUnit → σ → Prop) :
    Yields (modify change : EStateM ε σ PUnit) start post failed ↔ post ⟨⟩ (change start) := Iff.rfl

theorem yields_modifyGet (change : σ → α × σ) :
    Yields (modifyGet change : EStateM ε σ α) start post failed ↔
      post (change start).1 (change start).2 := Iff.rfl

theorem yields_zoom (get : σ → τ) (set : τ → σ → σ) (prog : EStateM ε τ α) :
    Yields (zoom get set prog) start post failed ↔
      Yields prog (get start) (fun value part => post value (set part start))
        (fun error part => failed error (set part start)) := by
  simp only [Yields, zoom]
  cases prog (get start) <;> rfl

theorem yields_orElse (prog : EStateM ε σ α) (fallback : α) :
    Yields (orElse prog fallback) start post failed ↔
      Yields prog start post (fun _ final => post fallback final) := by
  simp only [Yields, orElse]
  cases prog start <;> rfl

theorem yields_mapError (rename : ε → ε) (prog : EStateM ε σ α) :
    Yields (mapError rename prog) start post failed ↔
      Yields prog start post (fun error final => failed (rename error) final) := by
  simp only [Yields, mapError]
  cases prog start <;> rfl

theorem ok_of_toOption {result : Except ε α} {value : α} (found : result.toOption = some value) :
    result = .ok value := by
  cases result with
  | error err => cases found
  | ok other => exact congrArg Except.ok (Option.some.inj found)

theorem ok_bind (value : α) (next : α → Except ε β) : (Except.ok value >>= next) = next value := rfl

theorem error_bind (err : ε) (next : α → Except ε β) : (Except.error err >>= next) = .error err := rfl

def failure (result : Except ε α) : Option ε :=
  match result with
  | .ok _ => none
  | .error err => some err

theorem error_of_failure {result : Except ε α} {err : ε} (found : failure result = some err) :
    result = .error err := by
  cases result with
  | error other => exact congrArg Except.error (Option.some.inj found)
  | ok value => cases found

end Programs
