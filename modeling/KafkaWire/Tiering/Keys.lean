import KafkaWire.Broker.Names
import KafkaWire.Tiering.FileStore
import KafkaWire.Tiering.Manifest

/-! Where the copies of a segment are: the path of the object in cold storage and the path of the
restored file both end in the topic, the partition and the base offset. -/

namespace KafkaWire.Tiering

open Paths Storage

variable (zeros n : Nat) (i : Int)

section Numerals

theorem nameCharacter_of_isDigit {c : Char} (digit : c.isDigit = true) :
    Broker.nameCharacter c = true := by
  simp only [Char.isDigit, Bool.and_eq_true, decide_eq_true_eq] at digit
  have low : '0' ≤ c := digit.1
  have high : c ≤ '9' := digit.2
  simp [Broker.nameCharacter, low, high]

theorem digit_of_mem_repr {n : Nat} {c : Char} (member : c ∈ n.repr.toList) : c.isDigit = true := by
  rw [Nat.repr_eq_ofList_toDigits, String.toList_ofList] at member
  exact Nat.isDigit_of_mem_toDigits (by decide) (by decide) member

theorem any_digit_repr : n.repr.toList.any Char.isDigit = true := by
  obtain ⟨c, member⟩ := List.exists_mem_of_ne_nil n.repr.toList
    fun empty => Nat.repr_ne_empty (String.toList_eq_nil_iff.mp empty)
  exact List.any_eq_true.mpr ⟨c, member, digit_of_mem_repr member⟩

def Numbered (text : String) : Prop :=
  text.toList.any Char.isDigit = true ∧ ∀ c ∈ text.toList, Broker.nameCharacter c = true

theorem Numbered.plain {text : String} (numbered : Numbered text) : Plain text := by
  refine ⟨?_, ?_, ?_, fun slash => absurd (numbered.2 '/' slash) (by decide)⟩ <;>
  · rintro rfl
    exact absurd numbered.1 (by decide)

def numeral (zeros : Nat) (i : Int) : List Char :=
  (if i < 0 then ['-'] else []) ++ (List.replicate zeros '0' ++ i.natAbs.repr.toList)

def numeralValue (text : List Char) : Int :=
  match text with
  | '-' :: digits => -(Nat.ofDigitChars 10 digits 0)
  | digits => Nat.ofDigitChars 10 digits 0

theorem ofDigitChars_padded :
    Nat.ofDigitChars 10 (List.replicate zeros '0' ++ n.repr.toList) 0 = n := by
  rw [Nat.ofDigitChars_append, Nat.ofDigitChars_replicate_zero, Nat.mul_zero,
    Nat.repr_eq_ofList_toDigits, String.toList_ofList, Nat.ofDigitChars_ten_toDigits]

theorem padded_head : (List.replicate zeros '0' ++ n.repr.toList).head? ≠ some '-' := by
  intro starts
  rcases List.mem_append.mp (List.mem_of_mem_head? starts) with zero | digit
  · exact absurd (List.eq_of_mem_replicate zero) (by decide)
  · exact absurd (digit_of_mem_repr digit) (by decide)

theorem numeralValue_numeral : numeralValue (numeral zeros i) = i := by
  rw [numeral]
  by_cases negative : i < 0
  · rw [if_pos negative]
    show -(Nat.ofDigitChars 10 (List.replicate zeros '0' ++ i.natAbs.repr.toList) 0 : Int) = i
    rw [ofDigitChars_padded]
    omega
  · rw [if_neg negative, List.nil_append, numeralValue]
    · rw [ofDigitChars_padded]
      omega
    · intro digits starts
      exact absurd (by rw [starts]; rfl) (padded_head zeros i.natAbs)

theorem numbered_numeral {text : String} {zeros : Nat} {i : Int} {ending : List Char}
    (shape : text.toList = numeral zeros i ++ ending)
    (characters : ∀ c ∈ ending, Broker.nameCharacter c = true) : Numbered text := by
  constructor
  · rw [shape, numeral]
    simp only [List.any_append, any_digit_repr, Bool.or_true, Bool.true_or]
  · rw [shape, numeral]
    intro c member
    simp only [List.mem_append] at member
    rcases member with (sign | zero | digit) | last
    · split at sign
      · rw [List.mem_singleton.mp sign]
        decide
      · cases sign
    · rw [List.eq_of_mem_replicate zero]
      decide
    · exact nameCharacter_of_isDigit (digit_of_mem_repr digit)
    · exact characters c last

theorem toString_toList : (toString i).toList = numeral 0 i := by
  rw [Int.toString_eq_repr, Int.repr_eq_if, numeral, List.replicate_zero, List.nil_append]
  by_cases negative : i < 0
  · rw [if_neg (by omega), if_pos negative, String.toList_append, show (-i).toNat = i.natAbs by omega]
    rfl
  · rw [if_pos (by omega), if_neg negative, show i.toNat = i.natAbs by omega]
    rfl

theorem numbered_toString : Numbered (toString i) := by
  have shape : (toString i).toList = numeral 0 i ++ [] := by rw [toString_toList, List.append_nil]
  exact numbered_numeral shape (by simp)

theorem toString_injective {i j : Int} (same : toString i = toString j) : i = j := by
  rw [← numeralValue_numeral 0 i, ← toString_toList, same, toString_toList, numeralValue_numeral]

theorem segmentFilename_toList (base : Int) (suffix : Suffix) : ∃ zeros,
    (segmentFilename base suffix).toList = numeral zeros base ++ (suffixText suffix).toList := by
  have pieces (sign zeros digits ending : String) : (sign ++ zeros ++ digits ++ ending).toList =
      sign.toList ++ (zeros.toList ++ digits.toList) ++ ending.toList := by
    simp only [String.toList_append, List.append_assoc]
  refine ⟨20 - (if base < 0 then "-" else "").length - (toString base.natAbs).length, ?_⟩
  rw [segmentFilename, pieces, String.toList_ofList, Nat.toString_eq_repr, numeral]
  congr 2
  split <;> rfl

theorem segmentFilename_injective {first second : Int} {suffix : Suffix}
    (same : segmentFilename first suffix = segmentFilename second suffix) : first = second := by
  obtain ⟨zeros, shape⟩ := segmentFilename_toList first suffix
  obtain ⟨zeros', shape'⟩ := segmentFilename_toList second suffix
  rw [same, shape'] at shape
  rw [← numeralValue_numeral zeros first, ← List.append_cancel_right shape, numeralValue_numeral]

theorem numbered_segmentFilename (base : Int) (suffix : Suffix) :
    Numbered (segmentFilename base suffix) := by
  obtain ⟨zeros, shape⟩ := segmentFilename_toList base suffix
  refine numbered_numeral shape (List.all_eq_true.mp ?_)
  cases suffix <;> decide

end Numerals

def copyNames (topic : String) (partition baseOffset : Int) : List String :=
  [topic, toString partition, segmentFilename baseOffset .log]

theorem copyNames_spec {kind topic : String} (valid : Broker.validateName kind topic = .ok ())
    (partition baseOffset : Int) : ∀ name ∈ copyNames topic partition baseOffset,
      Plain name ∧ ∀ c ∈ name.toList, Broker.nameCharacter c = true := by
  intro name member
  simp only [copyNames, List.mem_cons, List.not_mem_nil, or_false] at member
  rcases member with rfl | rfl | rfl
  · exact ⟨Broker.plain_of_valid valid, Broker.characters_of_valid valid⟩
  · exact ⟨(numbered_toString partition).plain, (numbered_toString partition).2⟩
  · exact ⟨(numbered_segmentFilename baseOffset .log).plain, (numbered_segmentFilename baseOffset .log).2⟩

theorem copyNames_injective {topic topic' : String} {partition partition' baseOffset baseOffset' : Int}
    (same : copyNames topic partition baseOffset = copyNames topic' partition' baseOffset') :
    topic = topic' ∧ partition = partition' ∧ baseOffset = baseOffset' := by
  simp only [copyNames, List.cons.injEq, and_true] at same
  obtain ⟨topics, partitions, files⟩ := same
  exact ⟨topics, toString_injective partitions, segmentFilename_injective files⟩

theorem append_copyNames_injective {front front' : List String} {topic topic' : String}
    {partition partition' baseOffset baseOffset' : Int}
    (same : front ++ copyNames topic partition baseOffset =
      front' ++ copyNames topic' partition' baseOffset') :
    front = front' ∧ topic = topic' ∧ partition = partition' ∧ baseOffset = baseOffset' := by
  obtain ⟨fronts, tails⟩ := List.append_inj' same rfl
  exact ⟨fronts, copyNames_injective tails⟩

section Objects

def slashed (text : List Char) : List Char := text.map fun c => if c = '\\' then '/' else c

theorem slashed_self {text : List Char} (none : '\\' ∉ text) : slashed text = text := by
  rw [slashed, List.map_congr_left (g := id), List.map_id]
  intro c member
  rw [if_neg]
  · rfl
  · rintro rfl
    exact none member

theorem slashed_split (front : List Char) {names : List String}
    (plain : ∀ name ∈ names, Plain name) (simple : ∀ name ∈ names, '\\' ∉ name.toList) :
    split (slashed (front ++ names.flatMap fun name => '/' :: name.toList)) =
      split (slashed front) ++ names := by
  have back : slashed (names.flatMap fun name => '/' :: name.toList) =
      names.flatMap fun name => '/' :: name.toList := by
    refine slashed_self fun slash => ?_
    obtain ⟨name, member, here⟩ := List.mem_flatMap.mp slash
    exact simple name member ((List.mem_cons.mp here).resolve_left (by decide))
  rw [slashed, List.map_append, ← slashed, ← slashed, back, split_flatMap _ plain]

theorem objectPath_key {topic kind : String} (keyPrefix tenantID : String) (partition baseOffset : Int)
    (valid : Broker.validateName kind topic = .ok ()) :
    ∃ front, objectPath (segmentKeyTenant keyPrefix tenantID topic partition baseOffset) =
      some (front ++ copyNames topic partition baseOffset) := by
  have names := copyNames_spec valid partition baseOffset
  have shape : ∃ start, (segmentKeyTenant keyPrefix tenantID topic partition baseOffset).toList =
      start ++ (copyNames topic partition baseOffset).flatMap fun name => '/' :: name.toList := by
    rw [segmentKeyTenant]
    generalize (if keyPrefix.endsWith "/" then (keyPrefix.dropEnd 1).toString else keyPrefix) = root
    by_cases shared : tenantID = ""
    · refine ⟨root.toList, ?_⟩
      simp [shared, copyNames]
    · refine ⟨(root ++ "/tenants/" ++ tenantID).toList, ?_⟩
      simp [shared, copyNames]
  obtain ⟨start, text⟩ := shape
  refine ⟨clean true (split (slashed start)), ?_⟩
  rw [objectPath, text]
  have pieces := slashed_split start (fun name member => (names name member).1)
    (fun name member slash => absurd ((names name member).2 '\\' slash) (by decide))
  rw [slashed] at pieces
  simp only [pieces, clean_append true _ _ fun name member => (names name member).1]
  split
  · next empty => simp [copyNames] at empty
  · rfl

end Objects

end KafkaWire.Tiering
