import KafkaWire.Lib.Publish

/-! Values in memory that several callers change and flush, each value to a file of its own. A
change is made under one lock. A flush takes a second lock, reads one value under the first, writes
it to a temporary file and renames that onto the file. -/

namespace Flush

open Publish (Contents WriteOutcome)

structure Design (F ο : Type) (σ : F → Type) where
  apply : (f : F) → σ f → ο → σ f
  files : ο → List F
  empty : (f : F) → σ f

inductive Stage (F : Type) (σ : F → Type)
  | calling
  | changing
  | queued (rest : List F)
  | locked (f : F) (rest : List F)
  | reading (f : F) (rest : List F)
  | marshalled (f : F) (raw : σ f) (rest : List F)
  | written (f : F) (rest : List F)
  | returned (ok : Bool)
  | lost

structure State (F ο : Type) (σ : F → Type) where
  memory : (f : F) → σ f
  disk : (f : F) → Option (Contents (σ f))
  temp : (f : F) → Option (Contents (σ f))
  mu : Option Nat
  flushMu : Option Nat
  calls : List (ο × Stage F σ)
  history : List (Nat × ο)

inductive Event (ο : Type)
  | call (op : ο)
  | step (idx : Nat) (outcome : WriteOutcome)
  | crash

variable {F ο : Type} {σ : F → Type} (design : Design F ο σ)

def load (f : F) : Option (Contents (σ f)) → σ f
  | some (.whole value) => value
  | _ => design.empty f

def replay (f : F) (value : σ f) (changes : List (Nat × ο)) : σ f :=
  changes.foldl (fun value change => design.apply f value change.2) value

theorem replay_concat (f : F) (value : σ f) (changes : List (Nat × ο)) (change : Nat × ο) :
    replay design f value (changes ++ [change]) =
      design.apply f (replay design f value changes) change.2 := by
  rw [replay, List.foldl_append]
  rfl

def Stage.crashed : Stage F σ → Stage F σ
  | .returned ok => .returned ok
  | _ => .lost

namespace State

def setStage (s : State F ο σ) (idx : Nat) (op : ο) (stage : Stage F σ) : State F ο σ :=
  { s with calls := s.calls.set idx (op, stage) }

def fail (s : State F ο σ) (idx : Nat) (op : ο) : State F ο σ :=
  { s.setStage idx op (.returned false) with flushMu := none }

variable [DecidableEq F]

def advance (s : State F ο σ) (idx : Nat) (op : ο) (outcome : WriteOutcome) : Stage F σ → State F ο σ
  | .calling => if s.mu = none then { s.setStage idx op .changing with mu := some idx } else s
  | .changing =>
    { s.setStage idx op (.queued (design.files op)) with
      memory := fun f => design.apply f (s.memory f) op
      mu := none
      history := s.history ++ [(idx, op)] }
  | .queued [] => s.setStage idx op (.returned true)
  | .queued (f :: rest) =>
    if s.flushMu = none then { s.setStage idx op (.locked f rest) with flushMu := some idx } else s
  | .locked f rest =>
    if s.mu = none then { s.setStage idx op (.reading f rest) with mu := some idx } else s
  | .reading f rest =>
    match outcome with
    | .done => { s.setStage idx op (.marshalled f (s.memory f) rest) with mu := none }
    | _ => { s.fail idx op with mu := none }
  | .marshalled f raw rest =>
    match outcome with
    | .done =>
      { s.setStage idx op (.written f rest) with
        temp := Function.update s.temp f (some (.whole raw)) }
    | .refused => s.fail idx op
    | .torn => { s.fail idx op with temp := Function.update s.temp f (some .torn) }
  | .written f rest =>
    match outcome, s.temp f with
    | .done, some contents =>
      { s.setStage idx op (.queued rest) with
        temp := Function.update s.temp f none
        disk := Function.update s.disk f (some contents)
        flushMu := none }
    | _, _ => s.fail idx op
  | .returned _ => s
  | .lost => s

def crash (s : State F ο σ) : State F ο σ :=
  { s with
    memory := fun f => load design f (s.disk f)
    mu := none
    flushMu := none
    calls := s.calls.map fun call => (call.1, call.2.crashed) }

def step (s : State F ο σ) : Event ο → State F ο σ
  | .call op => { s with calls := s.calls ++ [(op, .calling)] }
  | .step idx outcome =>
    match s.calls[idx]? with
    | some (op, stage) => s.advance design idx op outcome stage
    | none => s
  | .crash => s.crash design

def start (disk temp : (f : F) → Option (Contents (σ f))) : State F ο σ where
  memory := fun f => load design f (disk f)
  disk := disk
  temp := temp
  mu := none
  flushMu := none
  calls := []
  history := []

end State

section Invariant

def Stage.flushing : Stage F σ → Bool
  | .locked _ _ | .reading _ _ | .marshalled _ _ _ | .written _ _ => true
  | _ => false

variable (disk₀ : (f : F) → Option (Contents (σ f)))

def after (f : F) (changes : List (Nat × ο)) : σ f :=
  replay design f (load design f (disk₀ f)) changes

structure Ghost (F ο : Type) where
  mem : F → List (Nat × ο)
  kept : F → List (Nat × ο)

def Progress (g : Ghost F ο) (idx : Nat) (op : ο) (rest : List F) : Prop :=
  (∀ f, (idx, op) ∈ g.mem f) ∧ ∃ done, design.files op = done ++ rest ∧
    ∀ f ∈ done, (idx, op) ∈ g.kept f

/-- A value that is on its way to the file: later than the file, not later than memory, and with the
change of the call. -/
def Carries (g : Ghost F ο) (idx : Nat) (op : ο) (f : F) (raw : σ f) : Prop :=
  ∃ snap, g.kept f <+: snap ∧ snap <+: g.mem f ∧ (idx, op) ∈ snap ∧ raw = after design disk₀ f snap

def CallOk (g : Ghost F ο) (flushMu : Option Nat) (temp : (f : F) → Option (Contents (σ f)))
    (idx : Nat) (op : ο) : Stage F σ → Prop
  | .calling | .changing | .lost | .returned false => True
  | .queued rest => Progress design g idx op rest
  | .locked f rest | .reading f rest => flushMu = some idx ∧ Progress design g idx op (f :: rest)
  | .marshalled f raw rest =>
    flushMu = some idx ∧ Progress design g idx op (f :: rest) ∧
      Carries design disk₀ g idx op f raw
  | .written f rest =>
    flushMu = some idx ∧ Progress design g idx op (f :: rest) ∧
      ∃ raw, Carries design disk₀ g idx op f raw ∧ temp f = some (.whole raw)
  | .returned true => ∀ f ∈ design.files op, (idx, op) ∈ g.kept f

structure Inv (s : State F ο σ) (g : Ghost F ο) : Prop where
  memory : ∀ f, s.memory f = after design disk₀ f (g.mem f)
  ahead : ∀ f, g.kept f <+: g.mem f
  made : ∀ f, (g.mem f).Sublist s.history
  disk : ∀ f, g.kept f = [] ∧ s.disk f = disk₀ f ∨
    s.disk f = some (.whole (after design disk₀ f (g.kept f)))
  calls : ∀ idx op stage, s.calls[idx]? = some (op, stage) →
    CallOk design disk₀ g s.flushMu s.temp idx op stage

variable {design disk₀} {g g' : Ghost F ο}

theorem Progress.mono {idx : Nat} {op : ο} {rest : List F} (progress : Progress design g idx op rest)
    (mem : ∀ f, g.mem f ⊆ g'.mem f) (kept : ∀ f, g.kept f ⊆ g'.kept f) :
    Progress design g' idx op rest := by
  obtain ⟨inMemory, done, files, flushed⟩ := progress
  exact ⟨fun f => mem f (inMemory f), done, files, fun f member => kept f (flushed f member)⟩

theorem CallOk.mono {flushMu flushMu' : Option Nat} {temp temp' : (f : F) → Option (Contents (σ f))}
    {idx : Nat} {op : ο} {stage : Stage F σ}
    (ok : CallOk design disk₀ g flushMu temp idx op stage) (mem : ∀ f, g.mem f <+: g'.mem f)
    (kept : ∀ f, g.kept f <+: g'.kept f)
    (held : stage.flushing = true → flushMu' = flushMu ∧ temp' = temp ∧ g'.kept = g.kept) :
    CallOk design disk₀ g' flushMu' temp' idx op stage := by
  have onwards {rest : List F} (progress : Progress design g idx op rest) :=
    progress.mono (fun f => (mem f).subset) fun f => (kept f).subset
  have carried {f : F} {raw : σ f} (same : g'.kept = g.kept)
      (carries : Carries design disk₀ g idx op f raw) : Carries design disk₀ g' idx op f raw := by
    obtain ⟨snap, front, back, member, value⟩ := carries
    exact ⟨snap, same ▸ front, back.trans (mem f), member, value⟩
  cases stage with
  | calling => trivial
  | changing => trivial
  | lost => trivial
  | queued rest => exact onwards ok
  | locked f rest =>
    obtain ⟨rfl, rfl, same⟩ := held rfl
    exact ⟨ok.1, onwards ok.2⟩
  | reading f rest =>
    obtain ⟨rfl, rfl, same⟩ := held rfl
    exact ⟨ok.1, onwards ok.2⟩
  | marshalled f raw rest =>
    obtain ⟨rfl, rfl, same⟩ := held rfl
    exact ⟨ok.1, onwards ok.2.1, carried same ok.2.2⟩
  | written f rest =>
    obtain ⟨rfl, rfl, same⟩ := held rfl
    obtain ⟨holds, progress, raw, carries, whole⟩ := ok
    exact ⟨holds, onwards progress, raw, carried same carries, whole⟩
  | returned done =>
    cases done with
    | false => trivial
    | true => exact fun f member => (kept f).subset (ok f member)

theorem CallOk.holds {flushMu : Option Nat} {temp : (f : F) → Option (Contents (σ f))} {idx : Nat}
    {op : ο} {stage : Stage F σ} (ok : CallOk design disk₀ g flushMu temp idx op stage)
    (flushing : stage.flushing = true) : flushMu = some idx := by
  cases stage with
  | locked f rest => exact ok.1
  | reading f rest => exact ok.1
  | marshalled f raw rest => exact ok.1
  | written f rest => exact ok.1
  | _ => cases flushing

variable {s s' : State F ο σ} {idx : Nat} {op : ο} {stage stage' : Stage F σ}

/-- One call moves on. The call that holds the lock of the flush, if it is another one, finds
everything as it was. -/
theorem Inv.moved (inv : Inv design disk₀ s g) (calls : s'.calls = s.calls.set idx (op, stage'))
    (mem : ∀ f, g.mem f <+: g'.mem f) (kept : ∀ f, g.kept f <+: g'.kept f)
    (exclusive : ∀ other, other ≠ idx → s.flushMu = some other →
      s'.flushMu = s.flushMu ∧ s'.temp = s.temp ∧ g'.kept = g.kept)
    (own : CallOk design disk₀ g' s'.flushMu s'.temp idx op stage') :
    ∀ other op' stage, s'.calls[other]? = some (op', stage) →
      CallOk design disk₀ g' s'.flushMu s'.temp other op' stage := by
  intro other op' before found
  rw [calls] at found
  rcases Machine.getElem?_set_cases found with ⟨rfl, same⟩ | ⟨apart, there⟩
  · cases same
    exact own
  · have ok := inv.calls other op' before there
    exact ok.mono mem kept fun flushing => exclusive other apart (ok.holds flushing)

def Advances (s : State F ο σ) (g : Ghost F ο) (s' : State F ο σ) (g' : Ghost F ο) : Prop :=
  ∃ new, s'.history = s.history ++ new ∧ ∀ f, g'.mem f = g.mem f ++ new

theorem Inv.unchanged (inv : Inv design disk₀ s' g') (history : s'.history = s.history)
    (mem : g'.mem = g.mem) : ∃ g', Inv design disk₀ s' g' ∧ Advances s g s' g' := by
  refine ⟨g', inv, [], ?_, ?_⟩
  · rw [history, List.append_nil]
  · intro f
    rw [mem, List.append_nil]

theorem Inv.setStage (inv : Inv design disk₀ s g) (mu flushMu : Option Nat)
    (temp : (f : F) → Option (Contents (σ f)))
    (exclusive : ∀ other, other ≠ idx → s.flushMu = some other → flushMu = s.flushMu ∧ temp = s.temp)
    (own : CallOk design disk₀ g flushMu temp idx op stage') :
    ∃ g', Inv design disk₀
        { s.setStage idx op stage' with mu := mu, flushMu := flushMu, temp := temp } g' ∧
      Advances s g
        { s.setStage idx op stage' with mu := mu, flushMu := flushMu, temp := temp } g' := by
  refine Inv.unchanged ⟨inv.memory, inv.ahead, inv.made, inv.disk, ?_⟩ rfl rfl
  exact inv.moved rfl (fun _ => List.prefix_rfl) (fun _ => List.prefix_rfl)
    (fun other apart holds => ⟨(exclusive other apart holds).1, (exclusive other apart holds).2, rfl⟩)
    own

theorem own_lock (holds : s.flushMu = some idx) (flushMu : Option Nat)
    (temp : (f : F) → Option (Contents (σ f))) :
    ∀ other, other ≠ idx → s.flushMu = some other → flushMu = s.flushMu ∧ temp = s.temp := by
  intro other apart held
  rw [holds] at held
  exact absurd (Option.some.inj held).symm apart

theorem crash_inv (inv : Inv design disk₀ s g) :
    Inv design disk₀ (s.crash design) ⟨g.kept, g.kept⟩ where
  memory := by
    intro f
    show load design f (s.disk f) = after design disk₀ f (g.kept f)
    rcases inv.disk f with ⟨none', same⟩ | whole
    · rw [same, none']
      rfl
    · rw [whole]
      rfl
  ahead := fun _ => List.prefix_rfl
  made := fun f => (inv.ahead f).sublist.trans (inv.made f)
  disk := inv.disk
  calls := by
    intro idx op stage found
    obtain ⟨⟨op', before⟩, there, same⟩ := Option.map_eq_some_iff.mp
      ((List.getElem?_map (i := idx)).symm.trans found)
    cases same
    have ok := inv.calls idx op' before there
    cases before with
    | returned done =>
      cases done with
      | false => trivial
      | true => exact ok
    | _ => trivial

variable [DecidableEq F]

theorem renamed_inv (inv : Inv design disk₀ s g) (holds : s.flushMu = some idx) {f : F}
    {rest : List F} {raw : σ f} (progress : Progress design g idx op (f :: rest))
    (carries : Carries design disk₀ g idx op f raw) :
    ∃ g', Inv design disk₀ { s.setStage idx op (.queued rest) with
      temp := Function.update s.temp f none
      disk := Function.update s.disk f (some (.whole raw))
      flushMu := none } g' ∧ g'.mem = g.mem := by
  obtain ⟨snap, front, back, member, rfl⟩ := carries
  have grown : ∀ f', g.kept f' <+: Function.update g.kept f snap f' := by
    intro f'
    by_cases same : f' = f
    · subst same
      rw [Function.update_self]
      exact front
    · rw [Function.update_of_ne same]
  refine ⟨⟨g.mem, Function.update g.kept f snap⟩, ⟨inv.memory, ?_, inv.made, ?_, ?_⟩, rfl⟩
  · intro f'
    by_cases same : f' = f
    · subst same
      show Function.update g.kept f' snap f' <+: _
      rw [Function.update_self]
      exact back
    · show Function.update g.kept f snap f' <+: _
      rw [Function.update_of_ne same]
      exact inv.ahead f'
  · intro f'
    by_cases same : f' = f
    · subst same
      refine .inr ?_
      show Function.update s.disk f' _ f' =
        some (.whole (after design disk₀ f' (Function.update g.kept f' snap f')))
      rw [Function.update_self, Function.update_self]
    · show Function.update g.kept f snap f' = [] ∧ Function.update s.disk f _ f' = _ ∨
        Function.update s.disk f _ f' =
          some (.whole (after design disk₀ f' (Function.update g.kept f snap f')))
      rw [Function.update_of_ne same, Function.update_of_ne same]
      exact inv.disk f'
  · refine inv.moved rfl (fun _ => List.prefix_rfl) grown ?_ ?_
    · intro other apart held
      rw [holds] at held
      exact absurd (Option.some.inj held).symm apart
    · obtain ⟨inMemory, done, files, flushed⟩ := progress
      refine ⟨inMemory, done ++ [f], by rw [files]; simp, ?_⟩
      intro f' isDone
      rcases List.mem_append.mp isDone with known | new
      · exact (grown f').subset (flushed f' known)
      · rw [List.mem_singleton.mp new]
        show _ ∈ Function.update g.kept f snap f
        rw [Function.update_self]
        exact member

theorem advance_inv (inv : Inv design disk₀ s g) (outcome : WriteOutcome)
    (here : s.calls[idx]? = some (op, stage)) :
    ∃ g', Inv design disk₀ (s.advance design idx op outcome stage) g' ∧
      Advances s g (s.advance design idx op outcome stage) g' := by
  have ok := inv.calls idx op stage here
  cases stage with
  | calling =>
    rw [State.advance]
    split
    · exact inv.setStage (some idx) s.flushMu s.temp (fun _ _ _ => ⟨rfl, rfl⟩) trivial
    · exact inv.unchanged rfl rfl
  | changing =>
    refine ⟨⟨fun f => g.mem f ++ [(idx, op)], g.kept⟩, ⟨?_, ?_, ?_, inv.disk, ?_⟩,
      [(idx, op)], rfl, fun _ => rfl⟩
    · intro f
      show design.apply f (s.memory f) op = _
      rw [inv.memory f, after, after, replay_concat]
    · exact fun f => (inv.ahead f).trans (List.prefix_append _ _)
    · exact fun f => (inv.made f).append (List.Sublist.refl _)
    · refine inv.moved rfl (fun f => List.prefix_append _ _) (fun _ => List.prefix_rfl)
        (fun _ _ _ => ⟨rfl, rfl, rfl⟩) ⟨fun f => by simp, [], rfl, by simp⟩
  | queued rest =>
    cases rest with
    | nil =>
      obtain ⟨inMemory, done, files, flushed⟩ := ok
      refine inv.setStage s.mu s.flushMu s.temp (fun _ _ _ => ⟨rfl, rfl⟩) ?_
      intro f member
      rw [files, List.append_nil] at member
      exact flushed f member
    | cons f rest =>
      rw [State.advance]
      split
      · next free =>
          refine inv.setStage s.mu (some idx) s.temp ?_ ⟨rfl, ok⟩
          intro other _ holds
          rw [free] at holds
          cases holds
      · exact inv.unchanged rfl rfl
  | locked f rest =>
    rw [State.advance]
    split
    · exact inv.setStage (some idx) s.flushMu s.temp (fun _ _ _ => ⟨rfl, rfl⟩) ok
    · exact inv.unchanged rfl rfl
  | reading f rest =>
    obtain ⟨holds, progress⟩ := ok
    have alone (flushMu : Option Nat) (temp : (f : F) → Option (Contents (σ f))) :=
      own_lock holds flushMu temp
    cases outcome with
    | done =>
      exact inv.setStage none s.flushMu s.temp (alone _ _) ⟨holds, progress, g.mem f,
        inv.ahead f, List.prefix_rfl, progress.1 f, inv.memory f⟩
    | refused => exact inv.setStage none none s.temp (alone _ _) trivial
    | torn => exact inv.setStage none none s.temp (alone _ _) trivial
  | marshalled f raw rest =>
    obtain ⟨holds, progress, carries⟩ := ok
    cases outcome with
    | done =>
      exact inv.setStage s.mu s.flushMu _ (own_lock holds _ _)
        ⟨holds, progress, raw, carries, by simp⟩
    | refused => exact inv.setStage s.mu none s.temp (own_lock holds _ _) trivial
    | torn => exact inv.setStage s.mu none _ (own_lock holds _ _) trivial
  | written f rest =>
    obtain ⟨holds, progress, raw, carries, whole⟩ := ok
    have failed : ∃ g', Inv design disk₀ (s.fail idx op) g' ∧ Advances s g (s.fail idx op) g' :=
      inv.setStage s.mu none s.temp (own_lock holds _ _) trivial
    cases outcome with
    | refused => exact failed
    | torn => exact failed
    | done =>
      simp only [State.advance, whole]
      obtain ⟨g', inv', same⟩ := renamed_inv inv holds progress carries
      exact inv'.unchanged rfl same
  | returned done => exact inv.unchanged rfl rfl
  | lost => exact inv.unchanged rfl rfl

theorem step_inv (inv : Inv design disk₀ s g) (event : Event ο) :
    ∃ g', Inv design disk₀ (s.step design event) g' ∧
      (event ≠ .crash → Advances s g (s.step design event) g') := by
  cases event with
  | call op =>
    refine ⟨g, ⟨inv.memory, inv.ahead, inv.made, inv.disk, ?_⟩, fun _ => ⟨[], ?_, ?_⟩⟩
    · intro idx op' stage found
      rw [show (s.step design (.call op)).calls = s.calls ++ [(op, .calling)] from rfl,
        List.getElem?_append] at found
      split at found
      · exact inv.calls idx op' stage found
      · cases List.mem_singleton.mp (List.mem_of_getElem? found)
        trivial
    · exact (List.append_nil _).symm
    · exact fun f => (List.append_nil _).symm
  | step idx outcome =>
    have advanced : ∃ g', Inv design disk₀ (s.step design (.step idx outcome)) g' ∧
        Advances s g (s.step design (.step idx outcome)) g' := by
      rw [State.step]
      split
      · next op stage here => exact advance_inv inv outcome here
      · exact inv.unchanged rfl rfl
    obtain ⟨g', inv', advances⟩ := advanced
    exact ⟨g', inv', fun _ => advances⟩
  | crash => exact ⟨_, crash_inv inv, fun running => absurd rfl running⟩

variable (design disk₀) in
def run (temp : (f : F) → Option (Contents (σ f))) (events : List (Event ο)) : State F ο σ :=
  Machine.exec (State.step design) (State.start design disk₀ temp) events

variable (design disk₀) in
def Recent (temp : (f : F) → Option (Contents (σ f))) (events : List (Event ο))
    (g : Ghost F ο) : Prop :=
  ∀ before after, before ++ after = events → Event.crash ∉ after →
    ∃ new, (run design disk₀ temp events).history = (run design disk₀ temp before).history ++ new ∧
      ∀ f, new <:+ g.mem f

theorem Recent.step {temp : (f : F) → Option (Contents (σ f))} {events : List (Event ο)}
    {event : Event ο} (recent : Recent design disk₀ temp events g)
    (advances : event ≠ .crash → Advances (run design disk₀ temp events) g
      (run design disk₀ temp (events ++ [event])) g') :
    Recent design disk₀ temp (events ++ [event]) g' := by
  intro before after whole running
  rcases List.eq_nil_or_concat' after with rfl | ⟨front, last, rfl⟩
  · rw [List.append_nil] at whole
    exact ⟨[], by rw [whole, List.append_nil], fun f => List.nil_suffix⟩
  · rw [← List.append_assoc] at whole
    obtain ⟨rfl, same⟩ := List.append_inj' whole rfl
    cases same
    simp only [List.mem_append, List.mem_singleton, not_or] at running
    obtain ⟨new, history, suffix⟩ := recent before front rfl running.1
    obtain ⟨more, grown, added⟩ := advances (Ne.symm running.2)
    refine ⟨new ++ more, by rw [grown, history, List.append_assoc], fun f => ?_⟩
    obtain ⟨earlier, same⟩ := suffix f
    exact ⟨earlier, by rw [added f, ← same, List.append_assoc]⟩

variable (design disk₀) in
theorem run_inv (temp : (f : F) → Option (Contents (σ f))) (events : List (Event ο)) :
    ∃ g, Inv design disk₀ (run design disk₀ temp events) g ∧
      Recent design disk₀ temp events g := by
  induction events using List.reverseRecOn with
  | nil =>
    refine ⟨⟨fun _ => [], fun _ => []⟩, ⟨fun _ => rfl, fun _ => List.prefix_rfl,
      fun _ => List.Sublist.refl _, fun _ => .inl ⟨rfl, rfl⟩, ?_⟩, ?_⟩
    · intro idx op stage found
      cases found
    · intro before after whole _
      obtain ⟨rfl, rfl⟩ := List.append_eq_nil_iff.mp whole
      exact ⟨[], rfl, fun f => List.nil_suffix⟩
  | append_singleton events event ih =>
    obtain ⟨g, inv, recent⟩ := ih
    have stepped := Machine.exec_concat (State.step design) (State.start design disk₀ temp)
      events event
    obtain ⟨g', inv', advances⟩ := step_inv inv event
    rw [run, ← stepped] at inv' advances
    exact ⟨g', inv', recent.step advances⟩

/-- However the steps of the calls and crashes fall, each file holds the changes, in the order in
which they were made, of all calls that flushed it and returned without an error. -/
theorem returned_flushed (temp : (f : F) → Option (Contents (σ f))) (events : List (Event ο))
    (returned : (Machine.exec (State.step design) (State.start design disk₀ temp) events).calls[idx]? =
      some (op, .returned true)) :
    ∀ f ∈ design.files op, ∃ kept : List (Nat × ο),
      kept.Sublist (Machine.exec (State.step design) (State.start design disk₀ temp) events).history ∧
      (idx, op) ∈ kept ∧
      (Machine.exec (State.step design) (State.start design disk₀ temp) events).disk f =
        some (.whole (replay design f (load design f (disk₀ f)) kept)) := by
  obtain ⟨g, inv, -⟩ := run_inv design disk₀ temp events
  intro f member
  have kept := inv.calls idx op _ returned f member
  refine ⟨g.kept f, (inv.ahead f).sublist.trans (inv.made f), kept, ?_⟩
  rcases inv.disk f with ⟨none', -⟩ | whole
  · rw [none'] at kept
    cases kept
  · exact whole

end Invariant

section Effects

structure Effect (design : Design F ο σ) where
  Contains : (f : F) → ο → σ f → Prop
  Replaces : F → ο → ο → Prop
  made : ∀ f op value, Contains f op (design.apply f value op)
  kept : ∀ f op later value, Contains f op value → ¬Replaces f later op →
    Contains f op (design.apply f value later)

variable {design} (effect : Effect design)

theorem Effect.replayed {f : F} {op : ο} {value : σ f} (contained : effect.Contains f op value)
    (later : List (Nat × ο)) (unreplaced : ∀ change ∈ later, ¬effect.Replaces f change.2 op) :
    effect.Contains f op (replay design f value later) := by
  induction later generalizing value with
  | nil => exact contained
  | cons change later ih =>
    rw [List.forall_mem_cons] at unreplaced
    exact ih (effect.kept f op change.2 value contained unreplaced.1) unreplaced.2

variable [DecidableEq F] {idx : Nat} {op : ο}

/-- A change whose call returned without an error is in its files until a change made after it
replaces it. -/
theorem returned_contained (disk₀ temp : (f : F) → Option (Contents (σ f))) (events : List (Event ο))
    (returned : (Machine.exec (State.step design) (State.start design disk₀ temp) events).calls[idx]? =
      some (op, .returned true)) :
    ∀ f ∈ design.files op, ∃ earlier later value,
      (Machine.exec (State.step design) (State.start design disk₀ temp) events).history =
        earlier ++ (idx, op) :: later ∧
      (Machine.exec (State.step design) (State.start design disk₀ temp) events).disk f =
        some (.whole value) ∧
      ((∀ change ∈ later, ¬effect.Replaces f change.2 op) → effect.Contains f op value) := by
  intro f member
  obtain ⟨kept, made, there, whole⟩ := returned_flushed temp events returned f member
  obtain ⟨before, rest, rfl⟩ := List.append_of_mem there
  obtain ⟨front, back, history, -, tail⟩ := List.append_sublist_iff.mp made
  obtain ⟨skipped, later, rfl, first, after⟩ := List.cons_sublist_iff.mp tail
  obtain ⟨skipped, passed, rfl⟩ := List.append_of_mem first
  refine ⟨front ++ skipped, passed ++ later, _, by rw [history]; simp, whole, ?_⟩
  intro unreplaced
  rw [replay, List.foldl_append, List.foldl_cons]
  exact effect.replayed (effect.made f op _) rest fun change inRest =>
    unreplaced change (List.mem_append_right _ (after.subset inRest))

end Effects

end Flush
