import Mathlib.Tactic

/-! Binary search for the first index at which a predicate turns true. -/

namespace BinarySearch

variable (n : Nat) (pred : Nat → Bool)

def searchLoop (pred : Nat → Bool) : Nat → Nat → Nat → Nat
  | 0, low, _ => low
  | fuel + 1, low, high =>
    if low < high then
      let middle := (low + high) / 2
      if pred middle then searchLoop pred fuel low middle
      else searchLoop pred fuel (middle + 1) high
    else low

def search (n : Nat) (pred : Nat → Bool) : Nat := searchLoop pred n 0 n

structure Boundary (n : Nat) (pred : Nat → Bool) (index : Nat) : Prop where
  le : index ≤ n
  below : ∀ i, i < index → pred i = false
  above : ∀ i, index ≤ i → i < n → pred i = true

theorem searchLoop_boundary (n fuel low high : Nat)
    (monotone : ∀ i j, i ≤ j → j < n → pred i = true → pred j = true)
    (ordered : low ≤ high) (inside : high ≤ n) (enough : high - low ≤ fuel)
    (below : ∀ i, i < low → pred i = false)
    (above : ∀ i, high ≤ i → i < n → pred i = true) :
    Boundary n pred (searchLoop pred fuel low high) := by
  induction fuel generalizing low high with
  | zero =>
    have same : low = high := by omega
    subst same
    exact ⟨inside, below, above⟩
  | succ fuel ih =>
    rw [searchLoop]
    by_cases more : low < high
    · simp only [if_pos more]
      cases found : pred ((low + high) / 2) with
      | true =>
        simp only [if_true]
        apply ih low ((low + high) / 2) (by omega) (by omega) (by omega) below
        intro i lower upper
        exact monotone _ i lower upper found
      | false =>
        simp only [Bool.false_eq_true, if_false]
        apply ih ((low + high) / 2 + 1) high (by omega) inside (by omega) _ above
        intro i earlier
        by_contra positive
        have turned := monotone i ((low + high) / 2) (by omega) (by omega)
          (by simpa using positive)
        simp [found] at turned
    · rw [if_neg more]
      have same : low = high := by omega
      subst same
      exact ⟨inside, below, above⟩

theorem search_boundary (monotone : ∀ i j, i ≤ j → j < n → pred i = true → pred j = true) :
    Boundary n pred (search n pred) := by
  apply searchLoop_boundary pred n n 0 n monotone (Nat.zero_le _) (Nat.le_refl _) (by omega)
  · intro i negative
    omega
  · intro i lower upper
    omega

/-- The index before the one found never satisfies the predicate, monotone or not. -/
theorem searchLoop_below (fuel low high : Nat) (ordered : low ≤ high)
    (below : low = 0 ∨ pred (low - 1) = false) :
    searchLoop pred fuel low high ≤ high ∧ (searchLoop pred fuel low high = 0 ∨
      pred (searchLoop pred fuel low high - 1) = false) := by
  induction fuel generalizing low high with
  | zero => exact ⟨ordered, below⟩
  | succ fuel ih =>
    rw [searchLoop]
    split
    · dsimp only
      split
      · obtain ⟨le, found⟩ := ih low ((low + high) / 2) (by omega) below
        exact ⟨by omega, found⟩
      · next negative =>
          exact ih ((low + high) / 2 + 1) high (by omega) (.inr (by simpa using negative))
    · exact ⟨ordered, below⟩

theorem search_below : search n pred ≤ n ∧ (search n pred = 0 ∨ pred (search n pred - 1) = false) :=
  searchLoop_below pred n 0 n (Nat.zero_le _) (.inl rfl)

theorem search_eq (index : Nat) (boundary : Boundary n pred index) : search n pred = index := by
  have monotone : ∀ i j, i ≤ j → j < n → pred i = true → pred j = true := by
    intro i j ordered upper positive
    apply boundary.above j _ upper
    by_contra early
    have negative := boundary.below i (by omega)
    simp [positive] at negative
  have found := search_boundary n pred monotone
  rcases Nat.lt_trichotomy (search n pred) index with less | same | more
  · have negative := boundary.below _ less
    rw [found.above _ (Nat.le_refl _) (Nat.lt_of_lt_of_le less boundary.le)] at negative
    cases negative
  · exact same
  · have negative := found.below _ more
    rw [boundary.above _ (Nat.le_refl _) (Nat.lt_of_lt_of_le more found.le)] at negative
    cases negative

end BinarySearch
