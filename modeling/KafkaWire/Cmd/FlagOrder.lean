import Mathlib.Data.List.TakeWhile
import KafkaWire.Broker.GroupState

/-! Command lines with flags behind positional arguments: `permute` sorts the flags to the front for
the parser of Go's `flag` package, which stops at the first argument that is none. -/

namespace KafkaWire.Cmd

/-- A flag: whether it is boolean, and which texts its `Set` takes. -/
structure Flag where
  isBool : Bool
  accepts : String → Bool

/-- `flag.FlagSet`. -/
abbrev FlagSet := Broker.Table Flag

inductive FlagError
  | badSyntax (arg : String)
  | undefined (name : String)
  | help
  | needsArgument (name : String)
  | invalidValue (name value : String)
  deriving DecidableEq, Repr

structure Parsed where
  sets : List (String × String)
  outcome : Except FlagError (List String)

def Parsed.set (parsed : Parsed) (name value : String) : Parsed :=
  { parsed with sets := (name, value) :: parsed.sets }

def Parsed.positional (parsed : Parsed) (arg : String) : Parsed :=
  { parsed with outcome := parsed.outcome.map (arg :: ·) }

def isFlag (arg : String) : Bool :=
  match arg.toList with
  | '-' :: _ :: _ => true
  | _ => false

inductive FlagText
  | bad (error : FlagError)
  | whole (name value : String)
  | next (name : String) (flag : Flag)

def flagBody (arg : String) : List Char :=
  match arg.toList with
  | '-' :: '-' :: body => body
  | _ :: body => body
  | [] => []

/-- The flag of an argument, in the way of `parseOne`. -/
def readFlag (flags : FlagSet) (arg : String) : FlagText :=
  match flagBody arg with
  | [] => .bad (.badSyntax arg)
  | first :: more =>
    if first = '-' ∨ first = '=' then .bad (.badSyntax arg)
    else
      let name := String.ofList (first :: more.takeWhile (· ≠ '='))
      match flags.lookup name with
      | none => .bad (if name = "help" ∨ name = "h" then .help else .undefined name)
      | some flag =>
        match more.dropWhile (· ≠ '=') with
        | _ :: value =>
          let value := String.ofList value
          if flag.accepts value then .whole name value else .bad (.invalidValue name value)
        | [] =>
          if flag.isBool then
            if flag.accepts "true" then .whole name "true" else .bad (.invalidValue name "true")
          else .next name flag

/-- `FlagSet.Parse`. -/
def parse (flags : FlagSet) : List String → Parsed
  | [] => ⟨[], .ok []⟩
  | arg :: rest =>
    if isFlag arg = false then ⟨[], .ok (arg :: rest)⟩
    else if arg = "--" then ⟨[], .ok rest⟩
    else
      match readFlag flags arg with
      | .bad error => ⟨[], .error error⟩
      | .whole name value => (parse flags rest).set name value
      | .next name flag =>
        match rest with
        | [] => ⟨[], .error (.needsArgument name)⟩
        | value :: rest =>
          if flag.accepts value then (parse flags rest).set name value
          else ⟨[], .error (.invalidValue name value)⟩

/-- The whole line read in order: a flag wherever it stands before the first double dash that is
not the value of a flag. -/
def readLine (flags : FlagSet) : List String → Parsed
  | [] => ⟨[], .ok []⟩
  | arg :: rest =>
    if arg = "--" then ⟨[], .ok rest⟩
    else if isFlag arg = false then (readLine flags rest).positional arg
    else
      match readFlag flags arg with
      | .bad error => ⟨[], .error error⟩
      | .whole name value => (readLine flags rest).set name value
      | .next name flag =>
        match rest with
        | [] => ⟨[], .error (.needsArgument name)⟩
        | value :: rest =>
          if flag.accepts value then (readLine flags rest).set name value
          else ⟨[], .error (.invalidValue name value)⟩

def takesValue (flags : FlagSet) (arg : String) : Bool :=
  match flags.lookup (String.ofList (arg.toList.dropWhile (· = '-'))) with
  | none => false
  | some flag => !flag.isBool

def hasInlineValue (arg : String) : Bool := arg.toList.tail.contains '='

structure Sorted where
  flags : List String
  positional : List String

def permuteLoop (flags : FlagSet) : List String → Sorted
  | [] => ⟨[], []⟩
  | arg :: rest =>
    if arg = "--" then ⟨[], rest⟩
    else if isFlag arg = false then
      let sorted := permuteLoop flags rest
      { sorted with positional := arg :: sorted.positional }
    else if hasInlineValue arg || !takesValue flags arg then
      let sorted := permuteLoop flags rest
      { sorted with flags := arg :: sorted.flags }
    else
      match rest with
      | [] => ⟨[arg], []⟩
      | value :: rest =>
        let sorted := permuteLoop flags rest
        { sorted with flags := arg :: value :: sorted.flags }

def permute (flags : FlagSet) (args : List String) : List String :=
  (permuteLoop flags args).flags ++ (permuteLoop flags args).positional

/-- No data argument comes to stand where a flag or the value of a flag is expected, unless an error
ends the reading before: the first positional argument does not look like a flag, and a flag without
its value at the end of the line has none before it. -/
def tidy (flags : FlagSet) (seen : Bool) : List String → Bool
  | [] => true
  | arg :: rest =>
    if arg = "--" then seen || rest.head?.all fun first => !isFlag first
    else if isFlag arg = false then tidy flags true rest
    else
      match readFlag flags arg with
      | .bad _ => true
      | .whole _ _ => tidy flags seen rest
      | .next _ flag =>
        match rest with
        | [] => !seen
        | value :: rest => !flag.accepts value || tidy flags seen rest

section Reading

variable {flags : FlagSet} {arg : String}

theorem flagBody_cons {first : Char} {more : List Char} (flag : isFlag arg = true)
    (body : flagBody arg = first :: more) (named : ¬ (first = '-' ∨ first = '=')) :
    hasInlineValue arg = more.contains '=' ∧ arg.toList.dropWhile (· = '-') = first :: more := by
  rw [not_or] at named
  obtain ⟨second, rest, text⟩ : ∃ second rest, arg.toList = '-' :: second :: rest := by
    rw [isFlag] at flag
    split at flag
    · next second rest text => exact ⟨second, rest, text⟩
    · cases flag
  rw [flagBody, text] at body
  rw [hasInlineValue, text]
  by_cases double : second = '-'
  · subst double
    change rest = first :: more at body
    subst body
    simp [named, Ne.symm named.2]
  · have single : second :: rest = first :: more := by
      rw [← body]
      split
      · next same => exact absurd (List.cons.inj (List.cons.inj same).2).1 double
      · next same => exact (List.cons.inj same).2
      · next same => cases same
    obtain ⟨rfl, rfl⟩ := List.cons.inj single
    simp [named, Ne.symm named.2]

theorem readFlag_cases (flags : FlagSet) (flag : isFlag arg = true) :
    (∃ error, readFlag flags arg = .bad error) ∨
      (∃ name value, readFlag flags arg = .whole name value) ∧
        (hasInlineValue arg || !takesValue flags arg) = true ∨
      (∃ name found, readFlag flags arg = .next name found) ∧
        (hasInlineValue arg || !takesValue flags arg) = false := by
  rw [readFlag]
  split
  · exact .inl ⟨_, rfl⟩
  · next first more body =>
      split
      · exact .inl ⟨_, rfl⟩
      · next named =>
          obtain ⟨inline, stripped⟩ := flagBody_cons flag body named
          dsimp only
          split
          · exact .inl ⟨_, rfl⟩
          · next found known =>
              split
              · next value behind =>
                  have filled : hasInlineValue arg = true := by
                    rw [inline, List.contains_iff_mem]
                    by_contra absent
                    rw [List.dropWhile_eq_nil_iff.mpr] at behind
                    · cases behind
                    · intro c member
                      simpa using fun same : c = '=' => absent (same ▸ member)
                  split
                  · exact .inr (.inl ⟨⟨_, _, rfl⟩, by rw [filled, Bool.true_or]⟩)
                  · exact .inl ⟨_, rfl⟩
              · next behind =>
                  have clear : ∀ c ∈ more, decide (c ≠ '=') = true := List.dropWhile_eq_nil_iff.mp behind
                  have empty : hasInlineValue arg = false := by
                    rw [inline, Bool.eq_false_iff, Ne, List.contains_iff_mem]
                    intro member
                    exact absurd (clear '=' member) (by decide)
                  have name : more.takeWhile (· ≠ '=') = more := List.takeWhile_eq_self_iff.mpr clear
                  have takes : takesValue flags arg = !found.isBool := by
                    rw [name] at known
                    rw [takesValue, stripped, known]
                  rw [empty, takes, Bool.not_not, Bool.false_or]
                  split
                  · next bool =>
                      split
                      · exact .inr (.inl ⟨⟨_, _, rfl⟩, bool⟩)
                      · exact .inl ⟨_, rfl⟩
                  · next valued => exact .inr (.inr ⟨⟨_, _, rfl⟩, by simpa using valued⟩)

theorem parse_flag (flag : isFlag arg = true) (inside : arg ≠ "--") (rest : List String) :
    parse flags (arg :: rest) =
      match readFlag flags arg with
      | .bad error => ⟨[], .error error⟩
      | .whole name value => (parse flags rest).set name value
      | .next name flag =>
        match rest with
        | [] => ⟨[], .error (.needsArgument name)⟩
        | value :: rest =>
          if flag.accepts value then (parse flags rest).set name value
          else ⟨[], .error (.invalidValue name value)⟩ := by
  rw [parse, if_neg (by simp [flag]), if_neg inside]

theorem parse_plain_iff (args : List String) :
    parse flags args = ⟨[], .ok args⟩ ↔ (args.head?.all fun first => !isFlag first) = true := by
  cases args with
  | nil => exact ⟨fun _ => rfl, fun _ => rfl⟩
  | cons arg rest =>
    cases flag : isFlag arg with
    | false => exact ⟨fun _ => by simp [flag], fun _ => by rw [parse, if_pos flag]⟩
    | true =>
      refine ⟨fun parsed => ?_, fun plain => by simp [flag] at plain⟩
      by_cases terminator : arg = "--"
      · rw [parse, if_neg (by simp [flag]), if_pos terminator] at parsed
        have same := Except.ok.inj (congrArg Parsed.outcome parsed)
        exact absurd (congrArg List.length same) (by simp)
      · rw [parse_flag flag terminator] at parsed
        split at parsed
        · exact absurd (congrArg Parsed.outcome parsed) (by simp)
        · exact absurd (congrArg Parsed.sets parsed) (by simp [Parsed.set])
        · split at parsed
          · exact absurd (congrArg Parsed.outcome parsed) (by simp)
          · split at parsed
            · exact absurd (congrArg Parsed.sets parsed) (by simp [Parsed.set])
            · exact absurd (congrArg Parsed.outcome parsed) (by simp)

theorem Parsed.set_inj {first second : Parsed} (name value : String) :
    first.set name value = second.set name value ↔ first = second := by
  obtain ⟨sets, outcome⟩ := first
  obtain ⟨sets', outcome'⟩ := second
  simp [Parsed.set]

end Reading

def Parsed.behind (parsed : Parsed) (done : List String) : Parsed :=
  { parsed with outcome := parsed.outcome.map (done ++ ·) }

theorem Parsed.behind_nil (parsed : Parsed) : parsed.behind [] = parsed := by
  obtain ⟨sets, outcome⟩ := parsed
  cases outcome <;> rfl

theorem parse_permuteLoop_iff (flags : FlagSet) (args done : List String)
    (plain : (done.head?.all fun first => !isFlag first) = true) :
    parse flags ((permuteLoop flags args).flags ++ (done ++ (permuteLoop flags args).positional)) =
        (readLine flags args).behind done ↔ tidy flags (!done.isEmpty) args = true := by
  fun_induction permuteLoop flags args generalizing done with
  | case1 =>
    rw [List.nil_append, List.append_nil, (parse_plain_iff done).mpr plain]
    simp [readLine, Parsed.behind, Except.map, tidy]
  | case2 rest =>
    unfold tidy
    rw [if_pos rfl, List.nil_append, readLine, if_pos rfl]
    cases done with
    | nil => exact parse_plain_iff rest
    | cons first done =>
      exact iff_of_true ((parse_plain_iff _).mpr plain) rfl
  | case3 arg rest inside data sorted ih =>
    have filled : (!(done ++ [arg]).isEmpty) = true := by cases done <;> rfl
    have next := ih (done ++ [arg]) (by cases done <;> simp_all)
    rw [List.append_assoc, List.singleton_append, filled] at next
    have passed : ((readLine flags rest).positional arg).behind done =
        (readLine flags rest).behind (done ++ [arg]) := by
      cases outcome : (readLine flags rest).outcome <;>
        simp [Parsed.behind, Parsed.positional, Except.map, outcome]
    unfold tidy
    rw [readLine, if_neg inside, if_pos data, passed, if_neg inside, if_pos data]
    exact next
  | case4 arg rest inside flag alone sorted ih =>
    have flagged : isFlag arg = true := by simpa using flag
    unfold tidy
    rw [List.cons_append, parse_flag flagged inside, readLine, if_neg inside, if_neg flag,
      if_neg inside, if_neg flag]
    rcases readFlag_cases flags flagged with
      ⟨error, bad⟩ | ⟨⟨name, value, whole⟩, -⟩ | ⟨-, takes⟩
    · rw [bad]
      exact iff_of_true rfl rfl
    · rw [whole]
      exact (Parsed.set_inj name value).trans (ih done plain)
    · rw [alone] at takes
      cases takes
  | case5 arg inside flag takes =>
    have flagged : isFlag arg = true := by simpa using flag
    unfold tidy
    rw [List.cons_append, parse_flag flagged inside, readLine, if_neg inside, if_neg flag,
      if_neg inside, if_neg flag]
    rcases readFlag_cases flags flagged with
      ⟨error, bad⟩ | ⟨-, alone⟩ | ⟨⟨name, found, next⟩, -⟩
    · rw [bad]
      exact iff_of_true rfl rfl
    · exact absurd alone takes
    · rw [next]
      cases done with
      | nil => exact iff_of_true rfl rfl
      | cons value done =>
        refine iff_of_false (fun parsed => ?_) Bool.false_ne_true
        dsimp only [List.nil_append, List.cons_append] at parsed
        split at parsed
        · exact absurd (congrArg Parsed.sets parsed) (by simp [Parsed.set, Parsed.behind])
        · exact absurd (congrArg Parsed.outcome parsed) (by simp [Parsed.behind, Except.map])
  | case6 arg inside flag takes value rest sorted ih =>
    have flagged : isFlag arg = true := by simpa using flag
    unfold tidy
    rw [List.cons_append, List.cons_append, parse_flag flagged inside, readLine, if_neg inside,
      if_neg flag, if_neg inside, if_neg flag]
    rcases readFlag_cases flags flagged with
      ⟨error, bad⟩ | ⟨-, alone⟩ | ⟨⟨name, found, next⟩, -⟩
    · rw [bad]
      exact iff_of_true rfl rfl
    · exact absurd alone takes
    · rw [next]
      dsimp only
      split
      · next accepted =>
          rw [accepted]
          exact (Parsed.set_inj name value).trans (ih done plain)
      · next refused =>
          rw [Bool.not_eq_true] at refused
          rw [refused]
          exact iff_of_true rfl rfl

/-- Sorting the flags to the front leaves the meaning of a line as it is exactly when the line is
tidy. -/
theorem permuted_line_parsed_iff (flags : FlagSet) (args : List String) :
    parse flags (permute flags args) = readLine flags args ↔ tidy flags false args = true := by
  have parsed := parse_permuteLoop_iff flags args [] rfl
  rw [List.nil_append, Parsed.behind_nil] at parsed
  exact parsed

def someFlags : FlagSet :=
  ((∅ : FlagSet).insert "key" ⟨false, fun _ => true⟩).insert "all" ⟨true, fun value => value = "true"⟩

theorem late_flags_parsed :
    permute someFlags ["demo", "-all", "-key", "--", "x", "--", "-y"] =
        ["-all", "-key", "--", "demo", "x", "-y"] ∧
      tidy someFlags false ["demo", "-all", "-key", "--", "x", "--", "-y"] = true ∧
      parse someFlags (permute someFlags ["demo", "-all", "-key", "--", "x", "--", "-y"]) =
        readLine someFlags ["demo", "-all", "-key", "--", "x", "--", "-y"] := by
  have ready : tidy someFlags false ["demo", "-all", "-key", "--", "x", "--", "-y"] = true := by
    decide +kernel
  exact ⟨by decide +kernel, ready, (permuted_line_parsed_iff _ _).mpr ready⟩

/-- The double dash is dropped, and the data behind it becomes a flag; a flag without its value takes
the topic for one. -/
theorem data_taken_for_flags :
    (readLine someFlags ["--", "-key", "x"]).sets = [] ∧
      (parse someFlags (permute someFlags ["--", "-key", "x"])).sets = [("key", "x")] ∧
      (readLine someFlags ["demo", "-key"]).sets = [] ∧
      (parse someFlags (permute someFlags ["demo", "-key"])).sets = [("key", "demo")] ∧
      parse someFlags (permute someFlags ["--", "-key", "x"]) ≠ readLine someFlags ["--", "-key", "x"] := by
  refine ⟨by decide +kernel, by decide +kernel, by decide +kernel, by decide +kernel, fun same => ?_⟩
  exact absurd (congrArg Parsed.sets same) (by decide +kernel)

end KafkaWire.Cmd
