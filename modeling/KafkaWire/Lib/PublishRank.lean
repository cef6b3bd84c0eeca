import KafkaWire.Lib.Publish

/-! A rank of the published value that only grows in memory only grows in the file. -/

namespace Publish

variable {call : Nat}

variable {α : Type} {rank : α → Int} {absent : α} {s : Shared α}

def Between (rank : α → Int) (low : α) (s : Shared α) (raw : α) : Prop :=
  rank low ≤ rank raw ∧ rank raw ≤ rank s.memory

/-- Of the calls at most one is in its window, and its value is no older than the file and no newer
than memory. -/
structure Ranked (rank : α → Int) (absent : α) (s : Shared α) : Prop where
  single : ∀ call other, s.InWindow call → s.InWindow other → call = other
  file : ∃ value, s.read absent = some value ∧ rank value ≤ rank s.memory ∧
    (∀ call raw, s.calls.lookup call = some (.marshalled raw) → Between rank value s raw) ∧
    ∀ call, s.calls.lookup call = some .written →
      ∃ raw, s.temp = some (.whole raw) ∧ Between rank value s raw

theorem Ranked.loaded (loaded : s.read absent = some s.memory) (unused : s.calls = ∅) :
    Ranked rank absent s := by
  have unknown (call : Nat) (stage : Stage α) : s.calls.lookup call ≠ some stage := by
    rw [unused, AList.lookup_empty]
    nofun
  refine ⟨?_, _, loaded, le_rfl, fun call raw found => absurd found (unknown call _),
    fun call found => absurd found (unknown call _)⟩
  rintro call other (⟨raw, found⟩ | found) - <;> exact absurd found (unknown call _)

theorem Ranked.quiet {s' : Shared α} (ranked : Ranked rank absent s) (temp : s'.temp = s.temp)
    (file : s'.file = s.file) (up : rank s.memory ≤ rank s'.memory)
    (calls : ∀ call stage, s'.calls.lookup call = some stage → stage.inWindow = true →
      s.calls.lookup call = some stage) : Ranked rank absent s' := by
  have window (call : Nat) : s'.InWindow call → s.InWindow call := by
    rintro (⟨raw, found⟩ | found)
    · exact .inl ⟨raw, calls call _ found rfl⟩
    · exact .inr (calls call _ found rfl)
  obtain ⟨value, holds, low, marshalled, written⟩ := ranked.file
  refine ⟨fun call other here there => ranked.single call other (window call here)
    (window other there), value, ?_, low.trans up, fun call raw found => ?_, fun call found => ?_⟩
  · rw [Shared.read, file, ← Shared.read]
    exact holds
  · obtain ⟨above, below⟩ := marshalled call raw (calls call _ found rfl)
    exact ⟨above, below.trans up⟩
  · obtain ⟨raw, there, above, below⟩ := written call (calls call _ found rfl)
    exact ⟨raw, temp.trans there, above, below.trans up⟩

theorem Ranked.alone {s' : Shared α} (call : Nat) (value : α)
    (calls : ∀ other, s'.InWindow other → other = call) (holds : s'.read absent = some value) (low : rank value ≤ rank s'.memory)
    (marshalled : ∀ raw, s'.calls.lookup call = some (.marshalled raw) → Between rank value s' raw)
    (written : s'.calls.lookup call = some .written →
      ∃ raw, s'.temp = some (.whole raw) ∧ Between rank value s' raw) : Ranked rank absent s' := by
  refine ⟨fun one other here there => (calls one here).trans (calls other there).symm, value, holds,
    low, fun other raw found => ?_, fun other found => ?_⟩
  · obtain rfl := calls other (.inl ⟨raw, found⟩)
    exact marshalled raw found
  · obtain rfl := calls other (.inr found)
    exact written found

theorem Ranked.others_closed (ranked : Ranked rank absent s) (inWindow : s.InWindow call)
    {s' : Shared α} {stage : Stage α}
    (calls : ∀ other, s'.calls.lookup other = if other = call then some stage
      else s.calls.lookup other) (other : Nat) (here : s'.InWindow other) : other = call := by
  by_contra different
  simp only [Shared.InWindow, calls, if_neg different] at here
  exact different (ranked.single other call here inWindow)

theorem Ranked.step (ranked : Ranked rank absent s) (event : Event α) (exclusive : s.Exclusive event)
    (up : rank s.memory ≤ rank (s.step event).memory) : Ranked rank absent (s.step event) := by
  have moved := s.step_moved event
  generalize s.step event = s' at moved up
  obtain ⟨value, holds, low, marshalled, written⟩ := ranked.file
  cases moved with
  | stays => exact ranked
  | changes f => exact ranked.quiet rfl rfl up fun _ _ found _ => found
  | submits call f fresh =>
    refine ranked.quiet rfl rfl up fun other stage found open' => ?_
    change (s.calls.insert call .submitted).lookup other = some stage at found
    by_cases equal : other = call
    · rw [equal, AList.lookup_insert] at found
      cases found
      cases open'
    · rwa [AList.lookup_insert_ne equal] at found
  | marshals call found =>
    have calls := lookup_setStage s call
    refine Ranked.alone call value (fun other here => ?_) holds low (fun raw found => ?_) fun found => ?_
    · by_contra different
      simp only [Shared.InWindow, calls, if_neg different] at here
      exact exclusive other here
    · rw [calls, if_pos rfl] at found
      cases found
      exact ⟨low, le_rfl⟩
    · rw [calls, if_pos rfl] at found
      cases found
  | writes call raw found =>
    have calls := lookup_setStage s call
    refine Ranked.alone call value (ranked.others_closed (.inl ⟨raw, found⟩) fun other => calls other _)
      holds low (fun other found => ?_) fun _ => ⟨raw, rfl, marshalled call raw found⟩
    change (s.setStage call .written).calls.lookup call = _ at found
    rw [calls, if_pos rfl] at found
    cases found
  | renames call contents found temp =>
    have calls := lookup_setStage s call
    obtain ⟨raw, there, between⟩ := written call found
    obtain rfl := Option.some.inj (temp.symm.trans there)
    refine Ranked.alone call raw (ranked.others_closed (.inr found) fun other => calls other _)
      ?_ between.2 (fun other found => ?_) fun found => ?_
    · rfl
    all_goals
      change (s.setStage call (.returned true)).calls.lookup call = _ at found
      rw [calls, if_pos rfl] at found
      cases found
  | drops call found =>
    refine ranked.quiet rfl rfl up fun other stage found open' => ?_
    rw [lookup_setStage] at found
    split at found
    · cases found
      cases open'
    · exact found
  | fails _ call temp inWindow _ =>
    have calls := lookup_setStage s call
    refine Ranked.alone call value (ranked.others_closed inWindow fun other => calls other _)
      holds low (fun other found => ?_) fun found => ?_
    all_goals
      change (s.setStage call (.returned false)).calls.lookup call = _ at found
      rw [calls, if_pos rfl] at found
      cases found

theorem Ranked.grows (ranked : Ranked rank absent s) (event : Event α) {value value' : α}
    (before : s.read absent = some value) (after : (s.step event).read absent = some value') :
    rank value ≤ rank value' := by
  obtain ⟨known, holds, -, -, written⟩ := ranked.file
  obtain rfl := Option.some.inj (before.symm.trans holds)
  have moved := s.step_moved event
  generalize s.step event = s' at moved after
  cases moved with
  | renames call contents found temp =>
    obtain ⟨raw, there, above, -⟩ := written call found
    obtain rfl := Option.some.inj (temp.symm.trans there)
    cases after
    exact above
  | _ =>
    obtain rfl := Option.some.inj (before.symm.trans after)
    exact le_rfl

structure Carried (P : α → Prop) (call : Nat) (s : Shared α) : Prop where
  memory : P s.memory
  value : s.calls.lookup call = some .submitted ∨
    (∃ raw, s.calls.lookup call = some (.marshalled raw) ∧ P raw) ∨
    s.calls.lookup call = some .written ∧ ∃ raw, s.temp = some (.whole raw) ∧ P raw

/-- Another call has moved. It was in its window, and so this one is not, or the temporary file is
as it was. -/
theorem Carried.other {P : α → Prop} {s' : Shared α} (carried : Carried P call s)
    (kept : P s'.memory) (same : s'.calls.lookup call = s.calls.lookup call)
    (temp : ¬ s.InWindow call ∨ s'.temp = s.temp) : Carried P call s' := by
  refine ⟨kept, ?_⟩
  rw [same]
  obtain submitted | ⟨raw, marshalled, holds⟩ | ⟨written, raw, there, holds⟩ := carried.value
  · exact .inl submitted
  · exact .inr (.inl ⟨raw, marshalled, holds⟩)
  · rcases temp with closed | temp
    · exact absurd (.inr written) closed
    · exact .inr (.inr ⟨written, raw, temp.trans there, holds⟩)

theorem Carried.known {P : α → Prop} (carried : Carried P call s) : call ∈ s.calls := by
  obtain found | ⟨raw, found, -⟩ | ⟨found, -⟩ := carried.value <;> exact mem_calls found

theorem Carried.step {P : α → Prop} (carried : Carried P call s)
    (ranked : Ranked rank absent s) (event : Event α) (kept : P (s.step event).memory) :
    Carried P call (s.step event) ∨
      ((s.step event).calls.lookup call = some (.returned true) ∧
        (∀ other, ¬ (s.step event).InWindow other) ∧
        ∃ raw, (s.step event).file = some (.whole raw) ∧ P raw) ∨
      (s.step event).calls.lookup call = some (.returned false) ∧
        (event = .marshal call false ∨ s.Failing call event) := by
  have moved := s.step_moved event
  generalize s.step event = s' at moved kept
  have apart {other : Nat} (different : call ≠ other) (inWindow : s.InWindow other) :
      ¬ s.InWindow call := fun here => different (ranked.single call other here inWindow)
  have elsewhere {other : Nat} (different : call ≠ other) (stage : Stage α) :
      (s.setStage other stage).calls.lookup call = s.calls.lookup call := by
    rw [lookup_setStage, if_neg different]
  cases moved with
  | stays => exact .inl carried
  | changes f => exact .inl (carried.other kept rfl (.inr rfl))
  | submits other f fresh =>
    have different : call ≠ other := fun same => fresh (same ▸ carried.known)
    exact .inl (carried.other kept (AList.lookup_insert_ne different) (.inr rfl))
  | marshals other found =>
    by_cases same : call = other
    · subst same
      refine .inl ⟨kept, .inr (.inl ⟨s.memory, ?_, carried.memory⟩)⟩
      rw [lookup_setStage, if_pos rfl]
    · exact .inl (carried.other kept (elsewhere same _) (.inr rfl))
  | writes other raw found =>
    by_cases same : call = other
    · subst same
      obtain before | ⟨raw', before, holds⟩ | ⟨before, -⟩ := carried.value <;>
        rw [found] at before <;> cases before
      refine .inl ⟨kept, .inr (.inr ⟨?_, raw, rfl, holds⟩)⟩
      exact (lookup_setStage s call call _).trans (if_pos rfl)
    · exact .inl (carried.other kept (elsewhere same _) (.inl (apart same (.inl ⟨raw, found⟩))))
  | renames other contents found temp =>
    by_cases same : call = other
    · subst same
      obtain before | ⟨raw', before, -⟩ | ⟨-, raw, there, holds⟩ := carried.value
      · rw [found] at before
        cases before
      · rw [found] at before
        cases before
      · obtain rfl := Option.some.inj (temp.symm.trans there)
        have closed := ranked.others_closed (.inr found) (lookup_setStage s call · (.returned true))
        refine .inr (.inl ⟨(lookup_setStage s call call _).trans (if_pos rfl), ?_, raw, rfl, holds⟩)
        intro other here
        obtain rfl := closed other here
        rcases here with ⟨raw, open'⟩ | open' <;>
          cases ((lookup_setStage s other other _).trans (if_pos rfl)).symm.trans open'
    · exact .inl (carried.other kept (elsewhere same _) (.inl (apart same (.inr found))))
  | drops other found =>
    by_cases same : call = other
    · subst same
      exact .inr (.inr ⟨(lookup_setStage s call call _).trans (if_pos rfl), .inl rfl⟩)
    · exact .inl (carried.other kept (elsewhere same _) (.inr rfl))
  | fails _ other temp inWindow failing =>
    by_cases same : call = other
    · subst same
      exact .inr (.inr ⟨(lookup_setStage s call call _).trans (if_pos rfl), .inr failing⟩)
    · exact .inl (carried.other kept (elsewhere same _) (.inl (apart same inWindow)))

/-- A call that has returned is done, and a call that is not known stays so until it is submitted. -/
theorem step_lookup_settled (event : Event α)
    (settled : s.calls.lookup call = none ∧ (∀ f, event ≠ .submit call f) ∨
      ∃ ok, s.calls.lookup call = some (.returned ok)) :
    (s.step event).calls.lookup call = s.calls.lookup call := by
  have idle {other : Nat} (moving : s.calls.lookup other = some .submitted ∨ s.InWindow other) :
      call ≠ other := by
    rintro rfl
    rcases settled with ⟨before, -⟩ | ⟨ok, before⟩ <;> rcases moving with found | ⟨raw, found⟩ | found <;>
      rw [before] at found <;> cases found
  have elsewhere {other : Nat} (moving : s.calls.lookup other = some .submitted ∨ s.InWindow other)
      (stage : Stage α) : (s.setStage other stage).calls.lookup call = s.calls.lookup call := by
    rw [lookup_setStage, if_neg (idle moving)]
  have moved := s.step_moved event
  generalize s.step event = s' at moved
  cases moved with
  | stays => rfl
  | changes f => rfl
  | submits other f fresh =>
    refine AList.lookup_insert_ne ?_
    rintro rfl
    rcases settled with ⟨-, unsubmitted⟩ | ⟨ok, before⟩
    · exact unsubmitted f rfl
    · exact fresh (mem_calls before)
  | marshals other found => exact elsewhere (.inl found) _
  | writes other raw found => exact elsewhere (.inr (.inl ⟨raw, found⟩)) _
  | renames other contents found => exact elsewhere (.inr (.inr found)) _
  | drops other found => exact elsewhere (.inl found) _
  | fails _ other temp inWindow => exact elsewhere (.inr inWindow) _

theorem step_lookup_other (event : Event α) (different : event.call ≠ some call) :
    (s.step event).calls.lookup call = s.calls.lookup call := by
  have elsewhere {other : Nat} (is : event.call = some other) (stage : Stage α) :
      (s.setStage other stage).calls.lookup call = s.calls.lookup call := by
    rw [lookup_setStage, if_neg]
    rintro rfl
    exact different is
  have moved := s.step_moved event
  generalize s.step event = s' at moved
  cases moved with
  | stays => rfl
  | changes f => rfl
  | submits other f fresh => exact elsewhere rfl .submitted
  | marshals other found => exact elsewhere rfl _
  | writes other raw found => exact elsewhere rfl _
  | renames other contents found => exact elsewhere rfl _
  | drops other found => exact elsewhere rfl _
  | fails _ other temp inWindow failing =>
    refine elsewhere ?_ _
    cases event with
    | write one outcome => exact congrArg some failing.1
    | rename one ok => exact congrArg some failing.1
    | idle | change | submit | marshal => exact failing.elim

theorem step_failed (event : Event α)
    (failed : (s.step event).calls.lookup call = some (.returned false)) :
    s.calls.lookup call = some (.returned false) ∨ event = .marshal call false ∨ s.Failing call event := by
  have elsewhere (other : Nat) (stage : Stage α) (ends : stage ≠ .returned false)
      (found : (s.setStage other stage).calls.lookup call = some (.returned false)) :
      s.calls.lookup call = some (.returned false) := by
    rw [lookup_setStage] at found
    split at found
    · exact absurd (Option.some.inj found) ends
    · exact found
  have moved := s.step_moved event
  generalize s.step event = s' at moved failed
  cases moved with
  | stays => exact .inl failed
  | changes f => exact .inl failed
  | submits other f fresh => exact .inl (elsewhere other .submitted nofun failed)
  | marshals other found => exact .inl (elsewhere other (.marshalled s.memory) nofun failed)
  | writes other raw found => exact .inl (elsewhere other .written nofun failed)
  | renames other contents found => exact .inl (elsewhere other (.returned true) (by simp) failed)
  | drops other found =>
    rw [lookup_setStage] at failed
    split at failed
    · next same => exact .inr (.inl (by rw [same]))
    · exact .inl failed
  | fails _ other temp inWindow failing =>
    change (s.setStage other (.returned false)).calls.lookup call = _ at failed
    rw [lookup_setStage] at failed
    split at failed
    · next same => exact .inr (.inr (same ▸ failing))
    · exact .inl failed

theorem mem_calls_step (event : Event α) (known : call ∈ s.calls) :
    call ∈ (s.step event).calls := by
  have moved := s.step_moved event
  generalize s.step event = s' at moved
  cases moved with
  | stays | changes => exact known
  | _ => exact (AList.mem_insert _).mpr (.inr known)

section Landing

open scoped Classical in
noncomputable def indicator (P : α → Prop) (value : α) : Int := if P value then 1 else 0

theorem indicator_mono {P : α → Prop} {value value' : α} (implies : P value → P value') :
    indicator P value ≤ indicator P value' := by
  rw [indicator, indicator]
  by_cases before : P value
  · rw [if_pos before, if_pos (implies before)]
  · rw [if_neg before]
    split <;> decide

theorem of_indicator_le {P : α → Prop} {value value' : α}
    (low : indicator P value ≤ indicator P value') (holds : P value) : P value' := by
  rw [indicator, indicator, if_pos holds] at low
  by_contra fails
  rw [if_neg fails] at low
  exact absurd low (by decide)

theorem Ranked.keeps {P : α → Prop} (ranked : Ranked (indicator P) absent s) (event : Event α)
    (exclusive : s.Exclusive event) (kept : P s.memory → P (s.step event).memory)
    (holds : ∃ value, s.read absent = some value ∧ P value) :
    Ranked (indicator P) absent (s.step event) ∧
      ∃ value, (s.step event).read absent = some value ∧ P value := by
  obtain ⟨value, reads, holds⟩ := holds
  have next := ranked.step event exclusive (indicator_mono kept)
  obtain ⟨value', reads', -⟩ := next.file
  exact ⟨next, value', reads', of_indicator_le (ranked.grows event reads reads') holds⟩

theorem Ranked.orderly (ranked : Ranked rank absent s) : Ranked (fun _ => 0) absent s := by
  obtain ⟨value, reads, -, -, written⟩ := ranked.file
  refine ⟨ranked.single, value, reads, le_rfl, fun _ _ _ => ⟨le_rfl, le_rfl⟩, fun call found => ?_⟩
  obtain ⟨raw, there, -⟩ := written call found
  exact ⟨raw, there, le_rfl, le_rfl⟩

structure Landing (P : α → Prop) (absent : α) (call : Nat) (s : Shared α) : Prop where
  orderly : Ranked (fun _ => 0) absent s
  carried : s.calls.lookup call = some .submitted ∨ s.InWindow call → Carried P call s
  landed : s.calls.lookup call = some (.returned true) →
    Ranked (indicator P) absent s ∧ ∃ value, s.read absent = some value ∧ P value

theorem Ranked.unsubmitted {P : α → Prop} (orderly : Ranked (fun _ => 0) absent s)
    (unknown : s.calls.lookup call = none) : Landing P absent call s := by
  refine ⟨orderly, ?_, fun returned => nomatch unknown.symm.trans returned⟩
  rintro (found | ⟨raw, found⟩ | found) <;> cases unknown.symm.trans found

theorem Landing.step {P : α → Prop} (landing : Landing P absent call s)
    (event : Event α) (exclusive : s.Exclusive event) (kept : P s.memory → P (s.step event).memory)
    (submits : ∀ f, event = .submit call f → call ∉ s.calls → P (f s.memory)) :
    Landing P absent call (s.step event) := by
  have orderly := landing.orderly.step event exclusive le_rfl
  by_cases pending : s.calls.lookup call = some .submitted ∨ s.InWindow call
  · have carried := landing.carried pending
    rcases carried.step landing.orderly event (kept carried.memory) with
      still | ⟨returned, closed, raw, file, holds⟩ | ⟨returned, -⟩
    · refine ⟨orderly, fun _ => still, fun returned => ?_⟩
      obtain found | ⟨raw, found, -⟩ | ⟨found, -⟩ := still.value <;> cases found.symm.trans returned
    · have reads : (s.step event).read absent = some raw := by rw [Shared.read, file]
      refine ⟨orderly, fun now => ?_, fun _ => ⟨?_, raw, reads, holds⟩⟩
      · rcases now with found | inWindow
        · cases found.symm.trans returned
        · exact absurd inWindow (closed call)
      · exact .alone call raw (fun other here => absurd here (closed other)) reads
          (indicator_mono fun _ => kept carried.memory)
          (fun raw found => absurd (.inl ⟨raw, found⟩) (closed call))
          fun found => absurd (.inr found) (closed call)
    · refine ⟨orderly, ?_, fun found => nomatch found.symm.trans returned⟩
      rintro (found | ⟨raw, found⟩ | found) <;> cases found.symm.trans returned
  · by_cases submit : s.calls.lookup call = none ∧ ∃ f, event = .submit call f
    · obtain ⟨fresh, f, rfl⟩ := submit
      have unknown : call ∉ s.calls := by
        rw [← AList.lookup_isSome, fresh]
        exact Bool.false_ne_true
      have after := s.step_submit f unknown
      have found : (s.step (.submit call f)).calls.lookup call = some .submitted := by
        rw [after]
        exact AList.lookup_insert _
      refine ⟨orderly, fun _ => ⟨?_, .inl found⟩, fun returned => nomatch found.symm.trans returned⟩
      rw [after]
      exact submits f rfl unknown
    · have same : (s.step event).calls.lookup call = s.calls.lookup call := by
        refine step_lookup_settled event ?_
        rcases before : s.calls.lookup call with _ | stage
        · exact .inl ⟨rfl, fun f is => submit ⟨before, f, is⟩⟩
        · cases stage with
          | submitted => exact absurd (.inl before) pending
          | marshalled raw => exact absurd (.inr (.inl ⟨raw, before⟩)) pending
          | written => exact absurd (.inr (.inr before)) pending
          | returned ok => exact .inr ⟨ok, rfl⟩
      refine ⟨orderly, fun now => ?_, fun returned => ?_⟩
      · simp only [Shared.InWindow, same] at now
        exact absurd now pending
      · obtain ⟨ranked, holds⟩ := landing.landed (same.symm.trans returned)
        exact ranked.keeps event exclusive kept holds

end Landing

end Publish
