import Mathlib.Data.List.Forall2
import Mathlib.Tactic

/-! Lists whose members are related one by one, and searches through them. -/

namespace Related

variable {α β γ : Type} {R S : α → β → Prop}

theorem forall₂_split (before after : List α) (s : α)
    (groups : List β) (held : List.Forall₂ R (before ++ s :: after) groups) :
    ∃ early group late, groups = early ++ group :: late ∧ List.Forall₂ R before early ∧ R s group ∧
      List.Forall₂ R after late := by
  induction before generalizing groups with
  | nil =>
    obtain ⟨group, late, holds, held', rfl⟩ := List.forall₂_cons_left_iff.mp held
    exact ⟨[], group, late, rfl, .nil, holds, held'⟩
  | cons first rest ih =>
    obtain ⟨group, others, holds, held', rfl⟩ := List.forall₂_cons_left_iff.mp held
    obtain ⟨early, group', late, rfl, front, here, back⟩ := ih others held'
    exact ⟨group :: early, group', late, rfl, .cons holds front, here, back⟩

theorem forall₂_mem_right {first : List α} {second : List β}
    (related : List.Forall₂ R first second) (b : β) (member : b ∈ second) :
    ∃ a ∈ first, R a b := by
  induction related with
  | nil => cases member
  | cons here _ ih =>
    rcases List.mem_cons.mp member with rfl | later
    · exact ⟨_, List.mem_cons_self, here⟩
    · obtain ⟨a, isMember, holds⟩ := ih later
      exact ⟨a, List.mem_cons_of_mem _ isMember, holds⟩

theorem forall₂_mem_left {first : List α} {second : List β} (related : List.Forall₂ R first second)
    (a : α) (member : a ∈ first) : ∃ b ∈ second, R a b := by
  obtain ⟨b, isMember, holds⟩ := forall₂_mem_right related.flip a member
  exact ⟨b, isMember, holds⟩

theorem forall₂_imp_of_mem {left : List α} {right : List β}
    (related : List.Forall₂ R left right) (weaken : ∀ a ∈ left, ∀ b, R a b → S a b) :
    List.Forall₂ S left right := by
  induction related with
  | nil => exact .nil
  | cons head _ ih =>
    exact .cons (weaken _ List.mem_cons_self _ head)
      (ih fun a member => weaken a (List.mem_cons_of_mem _ member))

theorem forall₂_and {left : List α} {right : List β}
    (first : List.Forall₂ R left right) (second : List.Forall₂ S left right) :
    List.Forall₂ (fun a b => R a b ∧ S a b) left right := by
  induction first with
  | nil => exact .nil
  | cons here _ ih =>
    cases second with
    | cons here' rest' => exact .cons ⟨here, here'⟩ (ih rest')

theorem forall₂_mem {left : List α} {right : List β} (related : List.Forall₂ R left right) :
    List.Forall₂ (fun a b => (a ∈ left ∧ b ∈ right) ∧ R a b) left right := by
  induction related with
  | nil => exact .nil
  | cons here _ ih =>
    refine .cons ⟨⟨List.mem_cons_self, List.mem_cons_self⟩, here⟩ (ih.imp ?_)
    rintro a b ⟨⟨isLeft, isRight⟩, holds⟩
    exact ⟨⟨List.mem_cons_of_mem _ isLeft, List.mem_cons_of_mem _ isRight⟩, holds⟩

theorem forall₂_through {Q : α → γ → Prop} {middle : List α} {left : List β} {right : List γ}
    (first : List.Forall₂ R middle left) (second : List.Forall₂ Q middle right) :
    List.Forall₂ (fun b c => ∃ a, R a b ∧ Q a c) left right := by
  induction first generalizing right with
  | nil =>
    cases second
    exact .nil
  | cons here _ ih =>
    cases second with
    | cons here' rest => exact .cons ⟨_, here, here'⟩ (ih rest)

theorem map_eq_of_forall₂ {f : α → γ} {g : β → γ} {left : List α} {right : List β}
    (related : List.Forall₂ (fun a b => g b = f a) left right) : right.map g = left.map f := by
  induction related with
  | nil => rfl
  | cons here _ ih => rw [List.map_cons, List.map_cons, here, ih]

/-- Searching one list after the other is searching them all. -/
theorem findSome?_of_forall₂ {δ : Type} {search : α → Option δ} {good : γ → Bool} {answer : γ → δ}
    {first : List α} {second : List (List γ)}
    (related : List.Forall₂ (fun a cs => search a = (cs.find? good).map answer) first second) :
    first.findSome? search = (second.flatten.find? good).map answer := by
  induction related with
  | nil => rfl
  | cons here _ ih =>
    rw [List.findSome?_cons, List.flatten_cons, List.find?_append, here]
    cases List.find? good _ with
    | none => exact ih
    | some c => rfl

/-- In an ascending list the first match is the least one. -/
theorem find?_map_eq_some_iff {good : α → Bool} {key : α → Int} {all : List α}
    (ascending : all.Pairwise fun a b => key a < key b) (least : Int) :
    (all.find? good).map key = some least ↔
      IsLeast {value | ∃ a ∈ all, good a = true ∧ key a = value} least := by
  have isLeast (a : α) (found : all.find? good = some a) :
      IsLeast {value | ∃ a ∈ all, good a = true ∧ key a = value} (key a) := by
    refine ⟨⟨a, List.mem_of_find?_eq_some found, List.find?_some found, rfl⟩, ?_⟩
    rintro - ⟨b, member, isGood, rfl⟩
    obtain ⟨-, front, rest, rfl, bad⟩ := List.find?_eq_some_iff_append.mp found
    rcases List.mem_append.mp member with before | after
    · have isBad := bad b before
      rw [isGood] at isBad
      cases isBad
    · rcases List.mem_cons.mp after with rfl | later
      · exact le_refl _
      · have behind := (List.pairwise_append.mp ascending).2.1
        exact le_of_lt ((List.pairwise_cons.mp behind).1 b later)
  constructor
  · intro same
    obtain ⟨a, found, rfl⟩ := Option.map_eq_some_iff.mp same
    exact isLeast a found
  · intro least'
    obtain ⟨a, member, isGood, -⟩ := least'.1
    obtain ⟨b, found⟩ := Option.isSome_iff_exists.mp (List.find?_isSome.mpr ⟨a, member, isGood⟩)
    rw [found, Option.map_some, (isLeast b found).unique least']

end Related
