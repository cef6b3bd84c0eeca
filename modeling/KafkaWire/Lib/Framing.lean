import Mathlib.Data.List.Basic
import Mathlib.Tactic

/-! Self-delimiting frames. A frame is a string whose own header announces the
length of the whole, so a concatenation of frames can be cut apart again, and a
cut of such a concatenation keeps exactly the frames that lie wholly inside it. -/

namespace Framing

variable {α : Type}

structure Format (α : Type) where
  headerSize : Nat
  size : List α → Option Nat
  header_pos : 0 < headerSize
  size_ge : ∀ buf n, size buf = some n → headerSize ≤ n
  size_long : ∀ buf n, size buf = some n → headerSize ≤ buf.length
  size_header : ∀ buf buf', buf.take headerSize = buf'.take headerSize → size buf = size buf'

def IsFrame (format : Format α) (frame : List α) : Prop :=
  format.size frame = some frame.length

/-- The whole frames at the front of `buf`, up to the first that is incomplete,
has no acceptable header, or is refused by `accept`. -/
def peel (format : Format α) (accept : List α → Bool) : Nat → List α → List (List α)
  | 0, _ => []
  | fuel + 1, buf =>
    match format.size buf with
    | none => []
    | some n =>
      if n ≤ buf.length ∧ accept (buf.take n) = true then
        buf.take n :: peel format accept fuel (buf.drop n)
      else []

def fitting : List (List α) → Nat → List (List α)
  | [], _ => []
  | frame :: rest, limit =>
    if frame.length ≤ limit then frame :: fitting rest (limit - frame.length) else []

variable (format : Format α)

theorem IsFrame.length_pos {frame : List α} (valid : IsFrame format frame) :
    0 < frame.length :=
  Nat.lt_of_lt_of_le format.header_pos (format.size_ge _ _ valid)

theorem IsFrame.header_le {frame : List α} (valid : IsFrame format frame) :
    format.headerSize ≤ frame.length :=
  format.size_ge _ _ valid

theorem size_append (frame rest : List α) (long : format.headerSize ≤ frame.length) :
    format.size (frame ++ rest) = format.size frame := by
  apply format.size_header
  rw [List.take_append_of_le_length long]

theorem size_take (buf : List α) (limit : Nat) (long : format.headerSize ≤ limit) :
    format.size (buf.take limit) = format.size buf := by
  apply format.size_header
  rw [List.take_take, Nat.min_eq_left long]

theorem size_short (buf : List α) (short : buf.length < format.headerSize) :
    format.size buf = none := by
  cases announced : format.size buf with
  | none => rfl
  | some n => exact absurd (format.size_long buf n announced) (by omega)

theorem IsFrame.size_append {frame : List α} (valid : IsFrame format frame) (rest : List α) :
    format.size (frame ++ rest) = some frame.length := by
  rw [Framing.size_append format frame rest valid.header_le]
  exact valid

theorem fitting_all (frames : List (List α)) (limit : Nat) (room : frames.flatten.length ≤ limit) :
    fitting frames limit = frames := by
  induction frames generalizing limit with
  | nil => rfl
  | cons frame rest ih =>
    simp only [List.flatten_cons, List.length_append] at room
    rw [fitting, if_pos (by omega), ih (limit - frame.length) (by omega)]

theorem fitting_prefix (frames : List (List α)) (limit : Nat) : fitting frames limit <+: frames := by
  induction frames generalizing limit with
  | nil => exact List.prefix_rfl
  | cons frame rest ih =>
    rw [fitting]
    split
    · exact (List.prefix_cons_inj frame).mpr (ih _)
    · exact List.nil_prefix

theorem fitting_length_le (frames : List (List α)) (limit : Nat) :
    (fitting frames limit).flatten.length ≤ limit := by
  induction frames generalizing limit with
  | nil => exact Nat.zero_le _
  | cons frame rest ih =>
    rw [fitting]
    split
    · next inside =>
        have tail := ih (limit - frame.length)
        simp only [List.flatten_cons, List.length_append]
        omega
    · exact Nat.zero_le _

theorem fitting_append (front back : List (List α)) (limit : Nat) :
    fitting (front ++ back) (front.flatten.length + limit) = front ++ fitting back limit := by
  induction front with
  | nil => simp
  | cons frame rest ih =>
    have room : frame.length ≤ (frame :: rest).flatten.length + limit := by
      simp only [List.flatten_cons, List.length_append]
      omega
    have left : (frame :: rest).flatten.length + limit - frame.length =
        rest.flatten.length + limit := by
      simp only [List.flatten_cons, List.length_append]
      omega
    rw [List.cons_append, fitting, if_pos room, left, ih, List.cons_append]

section Peel

variable (accept : List α → Bool)

/-- Cutting a concatenation of accepted frames at `limit` leaves `peel` the frames
that fit, and nothing of the frame the cut went through. -/
theorem peel_take (frames : List (List α)) (limit fuel : Nat)
    (valid : ∀ frame ∈ frames, IsFrame format frame ∧ accept frame = true)
    (enough : (fitting frames limit).length ≤ fuel) :
    peel format accept fuel (frames.flatten.take limit) = fitting frames limit := by
  induction frames generalizing limit fuel with
  | nil =>
    cases fuel with
    | zero => rfl
    | succ fuel =>
      have none := size_short format (α := α) [] format.header_pos
      simp [peel, fitting, none]
  | cons frame rest ih =>
    cases fuel with
    | zero => exact (List.eq_nil_of_length_eq_zero (Nat.le_zero.mp enough)).symm
    | succ fuel =>
      obtain ⟨isFrame, accepted⟩ := valid frame List.mem_cons_self
      have long := isFrame.header_le
      rw [fitting] at enough
      rw [peel, fitting]
      by_cases header : format.headerSize ≤ limit
      · have announced : format.size ((frame :: rest).flatten.take limit) =
            some frame.length := by
          rw [size_take format _ _ header, List.flatten_cons, isFrame.size_append]
        rw [announced]
        by_cases inside : frame.length ≤ limit
        · rw [if_pos inside, List.length_cons] at enough
          have tail := ih (limit - frame.length) fuel
            (fun other member => valid other (List.mem_cons_of_mem _ member)) (by omega)
          have front : ((frame :: rest).flatten.take limit).take frame.length = frame := by
            rw [List.take_take, Nat.min_eq_left inside, List.flatten_cons, List.take_left]
          have back : ((frame :: rest).flatten.take limit).drop frame.length =
              rest.flatten.take (limit - frame.length) := by
            rw [List.drop_take, List.flatten_cons, List.drop_left]
          have whole : frame.length ≤ ((frame :: rest).flatten.take limit).length := by
            rw [List.length_take, List.flatten_cons, List.length_append]
            omega
          simp only [front, back, whole, accepted, and_self, if_true, inside, tail]
        · have torn : ¬ frame.length ≤ ((frame :: rest).flatten.take limit).length := by
            rw [List.length_take]
            omega
          simp only [torn, false_and, if_false, inside]
      · have none : format.size ((frame :: rest).flatten.take limit) = none := by
          apply size_short
          rw [List.length_take]
          omega
        rw [none, if_neg (by omega)]

theorem peel_flatten (frames : List (List α)) (fuel : Nat)
    (valid : ∀ frame ∈ frames, IsFrame format frame ∧ accept frame = true)
    (enough : frames.length ≤ fuel) :
    peel format accept fuel frames.flatten = frames := by
  have whole := peel_take format accept frames frames.flatten.length fuel valid
    (by rw [fitting_all _ _ (Nat.le_refl _)]; exact enough)
  rwa [List.take_length, fitting_all _ _ (Nat.le_refl _)] at whole

theorem peel_frames (fuel : Nat) (buf : List α) :
    ∀ frame ∈ peel format accept fuel buf, IsFrame format frame ∧ accept frame = true := by
  induction fuel generalizing buf with
  | zero => intro frame member; cases member
  | succ fuel ih =>
    intro frame member
    rw [peel] at member
    split at member
    · cases member
    · next n announced =>
        split at member
        · next whole =>
            rcases List.mem_cons.mp member with rfl | later
            · refine ⟨?_, whole.2⟩
              have long := format.size_ge _ _ announced
              rw [IsFrame, size_take format _ _ long, announced, List.length_take,
                Nat.min_eq_left whole.1]
            · exact ih _ frame later
        · cases member

theorem peel_prefix (fuel : Nat) (buf : List α) : (peel format accept fuel buf).flatten <+: buf := by
  induction fuel generalizing buf with
  | zero => exact List.nil_prefix
  | succ fuel ih =>
    rw [peel]
    split
    · exact List.nil_prefix
    · next n announced =>
        split
        · rw [List.flatten_cons]
          conv_rhs => rw [← List.take_append_drop n buf]
          exact (List.prefix_append_right_inj _).mpr (ih _)
        · exact List.nil_prefix

end Peel

theorem length_le_flatten (frames : List (List α)) (valid : ∀ frame ∈ frames, IsFrame format frame) :
    frames.length ≤ frames.flatten.length := by
  induction frames with
  | nil => exact Nat.le_refl _
  | cons frame rest ih =>
    have positive := (valid frame List.mem_cons_self).length_pos
    have tail := ih (fun other member => valid other (List.mem_cons_of_mem _ member))
    simp only [List.length_cons, List.flatten_cons, List.length_append]
    omega

end Framing
