import KafkaWire.Lib.Paths

/-! Client-supplied topic and group names. -/

namespace KafkaWire.Broker

def maxNameLength : Nat := 249

inductive NameError
  | empty (kind : String)
  | tooLong (kind : String) (length : Nat)
  | directoryReference (kind name : String)
  | character (kind name : String)
  deriving DecidableEq, Repr

def nameCharacter (c : Char) : Bool :=
  ('a' ≤ c && c ≤ 'z') || ('A' ≤ c && c ≤ 'Z') || ('0' ≤ c && c ≤ '9') ||
    c == '.' || c == '_' || c == '-'

def validateName (kind name : String) : Except NameError Unit :=
  if name = "" then .error (.empty kind)
  else if name.utf8ByteSize > maxNameLength then .error (.tooLong kind name.utf8ByteSize)
  else if name = "." ∨ name = ".." then .error (.directoryReference kind name)
  else if name.toList.all nameCharacter then .ok ()
  else .error (.character kind name)

theorem validateName_ok {kind name : String} (valid : validateName kind name = .ok ()) :
    name ≠ "" ∧ ¬ (name = "." ∨ name = "..") ∧ name.toList.all nameCharacter = true := by
  rw [validateName] at valid
  split at valid
  · cases valid
  · next nonempty =>
      split at valid
      · cases valid
      · split at valid
        · cases valid
        · next reference =>
            split at valid
            · next characters => exact ⟨nonempty, reference, characters⟩
            · cases valid

theorem characters_of_valid {kind name : String} (valid : validateName kind name = .ok ()) :
    ∀ c ∈ name.toList, nameCharacter c = true :=
  List.all_eq_true.mp (validateName_ok valid).2.2

theorem plain_of_valid {kind name : String} (valid : validateName kind name = .ok ()) :
    Paths.Plain name := by
  obtain ⟨nonempty, reference, -⟩ := validateName_ok valid
  refine ⟨nonempty, fun here => reference (.inl here), fun up => reference (.inr up), ?_⟩
  intro slash
  exact absurd (characters_of_valid valid '/' slash) (by decide)

end KafkaWire.Broker
