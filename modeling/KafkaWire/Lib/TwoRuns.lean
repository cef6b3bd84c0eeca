import KafkaWire.Lib.Programs

/-! Two runs of one program from related states: they end alike, and in related states. -/

namespace Programs

variable {ε σ α β γ : Type} {R : σ → σ → Prop}

/-- From related states both programs end well with values related by `V`, or both fail with the
same error, and the states stay related. -/
def Relates (R : σ → σ → Prop) (V : α → β → Prop) (prog : EStateM ε σ α) (prog' : EStateM ε σ β) :
    Prop :=
  ∀ start start', R start start' → Yields prog start
    (fun value final => Yields prog' start'
      (fun value' final' => V value value' ∧ R final final') fun _ _ => False)
    (fun error final => Yields prog' start'
      (fun _ _ => False) fun error' final' => error = error' ∧ R final final')

def Agrees (R : σ → σ → Prop) (prog : EStateM ε σ α) : Prop := Relates R (· = ·) prog prog

def Keeps (inv : σ → Prop) (prog : EStateM ε σ α) : Prop :=
  ∀ start, inv start → Yields prog start (fun _ => inv) fun _ => inv

def attempt (fatal : ε → Bool) (prog : EStateM ε σ α) : EStateM ε σ (Except ε α) := fun start =>
  match prog start with
  | .ok value final => .ok (.ok value) final
  | .error error final => if fatal error then .error error final else .ok (.error error) final

def collect (step : γ → EStateM ε σ α) : List γ → EStateM ε σ (List α)
  | [] => pure []
  | first :: rest => do
      let value ← step first
      let values ← collect step rest
      return value :: values

theorem relates_pure {V : α → β → Prop} {value : α} {value' : β} (same : V value value') :
    Relates R V (pure value : EStateM ε σ α) (pure value' : EStateM ε σ β) :=
  fun _ _ related => ⟨same, related⟩

theorem agrees_pure (value : α) : Agrees R (pure value : EStateM ε σ α) := relates_pure rfl

theorem Relates.bind {δ : Type} {V : α → β → Prop} {W : γ → δ → Prop} {prog : EStateM ε σ α}
    {prog' : EStateM ε σ β} {next : α → EStateM ε σ γ} {next' : β → EStateM ε σ δ}
    (first : Relates R V prog prog')
    (second : ∀ value value', V value value' → Relates R W (next value) (next' value')) :
    Relates R W (prog >>= next) (prog' >>= next') := by
  intro start start' related
  have once := first start start' related
  simp only [Yields, Bind.bind, EStateM.bind] at once ⊢
  cases ran : prog start with
  | ok value middle =>
    rw [ran] at once
    cases ran' : prog' start' with
    | ok value' middle' =>
      rw [ran'] at once
      have rest := second value value' once.1 middle middle' once.2
      simp only [Yields] at rest
      exact rest
    | error _ _ =>
      rw [ran'] at once
      exact once.elim
  | error error middle =>
    rw [ran] at once
    cases ran' : prog' start' with
    | ok _ _ =>
      rw [ran'] at once
      exact once.elim
    | error error' middle' =>
      rw [ran'] at once
      exact once

theorem Relates.ends {V : α → β → Prop} {prog : EStateM ε σ α} {prog' : EStateM ε σ β}
    (relates : Relates R V prog prog') {start start' : σ} (related : R start start') :
    (∃ value final value' final', prog start = .ok value final ∧ prog' start' = .ok value' final' ∧
        V value value' ∧ R final final') ∨
      ∃ error final final', prog start = .error error final ∧ prog' start' = .error error final' ∧
        R final final' := by
  have both := relates start start' related
  simp only [Yields] at both
  cases ran : prog start <;> cases ran' : prog' start' <;> rw [ran, ran'] at both
  · exact .inl ⟨_, _, _, _, rfl, rfl, both⟩
  · exact both.elim
  · exact both.elim
  · obtain ⟨rfl, final⟩ := both
    exact .inr ⟨_, _, _, rfl, rfl, final⟩

theorem Relates.mono {V W : α → β → Prop} {prog : EStateM ε σ α} {prog' : EStateM ε σ β}
    (relates : Relates R V prog prog') (weaker : ∀ value value', V value value' → W value value') :
    Relates R W prog prog' := by
  intro start start' related
  refine (relates start start' related).mono (fun value final ended => ?_) fun _ _ ended => ended
  exact ended.mono (fun value' final' both => ⟨weaker value value' both.1, both.2⟩)
    fun _ _ never => never

theorem Agrees.bindRelates {W : β → γ → Prop} {prog : EStateM ε σ α} {next : α → EStateM ε σ β}
    {next' : α → EStateM ε σ γ} (first : Agrees R prog)
    (second : ∀ value, Relates R W (next value) (next' value)) :
    Relates R W (prog >>= next) (prog >>= next') := by
  refine Relates.bind first ?_
  rintro value _ rfl
  exact second value

theorem Agrees.bind {prog : EStateM ε σ α} {next : α → EStateM ε σ γ} (first : Agrees R prog)
    (second : ∀ value, Agrees R (next value)) : Agrees R (prog >>= next) :=
  first.bindRelates second

theorem Agrees.attempt (fatal : ε → Bool) {prog : EStateM ε σ α} (agrees : Agrees R prog) :
    Agrees R (attempt fatal prog) := by
  intro start start' related
  have once := agrees start start' related
  simp only [Yields, Programs.attempt] at once ⊢
  cases ran : prog start <;> cases ran' : prog start' <;> rw [ran, ran'] at once
  · exact ⟨congrArg _ once.1, once.2⟩
  · exact once.elim
  · exact once.elim
  · obtain ⟨rfl, related⟩ := once
    dsimp only
    generalize fatal _ = stop
    cases stop <;> exact ⟨rfl, related⟩

theorem Yields.attempt (fatal : ε → Bool) {prog : EStateM ε σ α} {start : σ} {inv : σ → Prop}
    (holds : Yields prog start (fun _ => inv) fun _ => inv) :
    Yields (attempt fatal prog) start (fun _ => inv) fun _ => inv := by
  simp only [Yields, Programs.attempt] at holds ⊢
  cases ran : prog start <;> rw [ran] at holds
  · exact holds
  · dsimp only
    generalize fatal _ = stop
    cases stop <;> exact holds

theorem Agrees.collect {step : γ → EStateM ε σ α} (list : List γ)
    (each : ∀ element ∈ list, Agrees R (step element)) : Agrees R (collect step list) := by
  induction list with
  | nil => exact agrees_pure []
  | cons first rest ih =>
    refine (each first List.mem_cons_self).bind fun value => ?_
    refine Agrees.bind (ih fun element member => each element (List.mem_cons_of_mem _ member)) ?_
    exact fun values => agrees_pure _

theorem keeps_pure {inv : σ → Prop} (value : α) : Keeps inv (pure value : EStateM ε σ α) :=
  fun _ holds => holds

theorem keeps_throw {inv : σ → Prop} (error : ε) : Keeps inv (throw error : EStateM ε σ α) :=
  fun _ holds => holds

theorem Keeps.bind {inv : σ → Prop} {prog : EStateM ε σ α} {next : α → EStateM ε σ β}
    (first : Keeps inv prog) (second : ∀ value, Keeps inv (next value)) :
    Keeps inv (prog >>= next) := by
  intro start holds
  rw [yields_bind]
  exact (first start holds).mono (fun value middle kept => second value middle kept)
    fun _ _ kept => kept

theorem Keeps.collect {inv : σ → Prop} {step : γ → EStateM ε σ α} (list : List γ)
    (each : ∀ element ∈ list, Keeps inv (step element)) : Keeps inv (collect step list) := by
  induction list with
  | nil => exact keeps_pure []
  | cons first rest ih =>
    refine (each first List.mem_cons_self).bind fun value => Keeps.bind ?_ fun _ => keeps_pure _
    exact ih fun element member => each element (List.mem_cons_of_mem _ member)

theorem Keeps.agrees {inv : σ → Prop} {prog : EStateM ε σ α} (keeps : Keeps inv prog) :
    Agrees (fun start start' => start = start' ∧ inv start) prog := by
  rintro start _ ⟨rfl, holds⟩
  have kept := keeps start holds
  simp only [Yields] at kept ⊢
  split at kept <;> exact ⟨rfl, rfl, kept⟩

theorem Relates.keeps {inv : σ → Prop} {V : α → α → Prop} {prog : EStateM ε σ α}
    (relates : Relates (fun start start' => start = start' ∧ inv start) V prog prog) :
    Keeps inv prog := by
  intro start holds
  have both := relates start start ⟨rfl, holds⟩
  simp only [Yields] at both ⊢
  cases ran : prog start <;> rw [ran] at both <;> exact both.2.2

end Programs
