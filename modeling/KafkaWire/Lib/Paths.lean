import Mathlib.Data.List.Basic
import Mathlib.Data.List.Induction
import Mathlib.Data.String.Basic
import KafkaWire.Lib.Lines

/-! Slash-separated paths and their lexical cleaning. -/

namespace Paths

variable (rooted : Bool) (front names : List String)

structure Path where
  rooted : Bool
  names : List String
  deriving DecidableEq, Repr

def Path.under (dir path : Path) : Bool :=
  dir.rooted == path.rooted && dir.names.isPrefixOf path.names

def split (text : List Char) : List String := (text.splitOn '/').map String.ofList

def components (text : String) : List String := split text.toList

def push (rooted : Bool) (names : List String) (name : String) : List String :=
  if name = "" ∨ name = "." then names
  else if name = ".." then
    match names.getLast? with
    | none => if rooted then [] else [".."]
    | some last => if last = ".." then names ++ [".."] else names.dropLast
  else names ++ [name]

def clean (rooted : Bool) (names : List String) : List String := names.foldl (push rooted) []

def isRooted (text : String) : Bool := text.toList.head? == some '/'

def join (elements : List String) : Path :=
  let kept := elements.filter fun text => text ≠ ""
  let rooted := kept.head?.any isRooted
  ⟨rooted, clean rooted (kept.flatMap components)⟩

structure Plain (name : String) : Prop where
  nonempty : name ≠ ""
  notHere : name ≠ "."
  notUp : name ≠ ".."
  single : '/' ∉ name.toList

instance (name : String) : Decidable (Plain name) :=
  decidable_of_iff (name ≠ "" ∧ name ≠ "." ∧ name ≠ ".." ∧ '/' ∉ name.toList)
    ⟨fun ⟨a, b, c, d⟩ => ⟨a, b, c, d⟩, fun plain => ⟨plain.1, plain.2, plain.3, plain.4⟩⟩

theorem split_append (front back : List Char) :
    split (front ++ '/' :: back) = split front ++ split back := by
  simp only [split, List.splitOn_append_cons_self, List.map_append]

theorem Plain.split {name : String} (plain : Plain name) : split name.toList = [name] := by
  rw [Paths.split, List.splitOn_eq_singleton plain.single, List.map_singleton, String.ofList_toList]

theorem Plain.push {name : String} (plain : Plain name) (rooted : Bool) (names : List String) :
    push rooted names name = names ++ [name] := by
  rw [Paths.push, if_neg (not_or.mpr ⟨plain.nonempty, plain.notHere⟩), if_neg plain.notUp]

theorem clean_append (plain : ∀ name ∈ names, Plain name) :
    clean rooted (front ++ names) = clean rooted front ++ names := by
  induction names using List.reverseRecOn with
  | nil => simp
  | append_singleton names name ih =>
    have step := ih fun other member => plain other (List.mem_append_left _ member)
    rw [clean] at step ⊢
    rw [← List.append_assoc, List.foldl_append, step, List.foldl_cons, List.foldl_nil,
      (plain name (by simp)).push, List.append_assoc]

theorem flatMap_components (plain : ∀ name ∈ names, Plain name) :
    names.flatMap components = names := by
  induction names with
  | nil => rfl
  | cons name names ih =>
    have first : components name = [name] := (plain name List.mem_cons_self).split
    rw [List.flatMap_cons, first, ih fun other member => plain other (List.mem_cons_of_mem _ member),
      List.singleton_append]

theorem Plain.not_rooted {name : String} (plain : Plain name) : isRooted name = false := by
  rw [isRooted, beq_eq_false_iff_ne]
  intro starts
  exact plain.single (List.mem_of_mem_head? starts)

theorem join_append (plain : ∀ name ∈ names, Plain name) :
    join (front ++ names) = ⟨(join front).rooted, (join front).names ++ names⟩ := by
  have kept : (names.filter fun text => text ≠ "") = names := by
    rw [List.filter_eq_self]
    intro name member
    simpa using (plain name member).nonempty
  have rooted : ((front.filter fun text => text ≠ "") ++ names).head?.any isRooted =
      (front.filter fun text => text ≠ "").head?.any isRooted := by
    cases front.filter fun text => text ≠ "" with
    | cons text texts => rfl
    | nil =>
      cases names with
      | nil => rfl
      | cons name names => simp [(plain name List.mem_cons_self).not_rooted]
  simp only [join, List.filter_append, kept, rooted, List.flatMap_append,
    flatMap_components names plain, clean_append _ _ _ plain]

theorem under_append (dir : Path) (names : List String) :
    dir.under ⟨dir.rooted, dir.names ++ names⟩ = true := by
  simp [Path.under]

def Path.text (path : Path) : String :=
  String.ofList <| match path.rooted, path.names with
    | true, [] => ['/']
    | true, names => names.flatMap fun name => '/' :: name.toList
    | false, [] => ['.']
    | false, name :: names => name.toList ++ names.flatMap fun name => '/' :: name.toList

theorem Path.text_append (nonempty : front ≠ []) :
    (Path.text ⟨rooted, front ++ names⟩).toList =
      (Path.text ⟨rooted, front⟩).toList ++ names.flatMap fun name => '/' :: name.toList := by
  cases front with
  | nil => exact absurd rfl nonempty
  | cons name front => cases rooted <;> simp [Path.text]

theorem split_single (text : List Char) : ∀ name ∈ split text, '/' ∉ name.toList := by
  intro name member
  obtain ⟨piece, here, rfl⟩ := List.mem_map.mp member
  rw [String.toList_ofList]
  exact (Lines.splitOn_piece '/' text piece here).1

theorem clean_plain (single : ∀ name ∈ names, '/' ∉ name.toList) :
    ∀ name ∈ clean true names, Plain name := by
  induction names using List.reverseRecOn with
  | nil => exact fun name member => nomatch member
  | append_singleton names last ih =>
    have before := ih fun name member => single name (List.mem_append_left _ member)
    rw [clean, List.foldl_append, ← clean, List.foldl_cons, List.foldl_nil, push]
    split
    · exact before
    · next kept =>
        rw [not_or] at kept
        split
        · split
          · exact fun name member => nomatch member
          · next top found =>
              rw [if_neg (before top (List.mem_of_getLast? found)).notUp]
              exact fun name member => before name (List.dropLast_subset _ member)
        · next notUp =>
            refine List.forall_mem_append.mpr ⟨before, List.forall_mem_singleton.mpr ?_⟩
            exact ⟨kept.1, kept.2, notUp, single last (by simp)⟩

theorem split_flatMap (front : List Char) {names : List String} (plain : ∀ name ∈ names, Plain name) :
    split (front ++ names.flatMap fun name => '/' :: name.toList) = split front ++ names := by
  induction names generalizing front with
  | nil => simp
  | cons name names ih =>
    rw [List.flatMap_cons, ← List.append_assoc,
      ih (front ++ '/' :: name.toList) fun other member => plain other (List.mem_cons_of_mem _ member),
      split_append, (plain name List.mem_cons_self).split, List.append_assoc, List.singleton_append]

theorem clean_blank : clean rooted (front ++ [""]) = clean rooted front := by
  rw [clean, List.foldl_append]
  rfl

theorem clean_text (plain : ∀ name ∈ names, Plain name) :
    clean rooted (front ++ components (Path.text ⟨true, names⟩)) = clean rooted front ++ names := by
  cases names with
  | nil =>
    rw [show components (Path.text ⟨true, []⟩) = [""] ++ [""] by decide, ← List.append_assoc,
      clean_blank, clean_blank, List.append_nil]
  | cons name names =>
    have pieces := split_flatMap [] plain
    rw [List.nil_append] at pieces
    rw [components, Path.text, String.toList_ofList, pieces, ← List.append_assoc,
      clean_append rooted _ _ plain]
    exact congrArg (· ++ _) (clean_blank rooted front)

/-- A rooted path at the end of a join counts from the directory before it. -/
theorem join_text (plain : ∀ name ∈ names, Plain name)
    (nonempty : (front.filter fun text => text ≠ "") ≠ []) :
    join (front ++ [Path.text ⟨true, names⟩]) = ⟨(join front).rooted, (join front).names ++ names⟩ := by
  have kept : ([Path.text ⟨true, names⟩].filter fun text => text ≠ "") =
      [Path.text ⟨true, names⟩] := by
    have written : Path.text ⟨true, names⟩ ≠ "" := by
      intro empty
      have none := congrArg String.toList empty
      cases names <;> simp [Path.text] at none
    simp [written]
  have first : ((front.filter fun text => text ≠ "") ++ [Path.text ⟨true, names⟩]).head? =
      (front.filter fun text => text ≠ "").head? := by
    rw [List.head?_append_of_ne_nil _ nonempty]
  simp only [join, List.filter_append, kept, first, List.flatMap_append, List.flatMap_singleton,
    clean_text _ _ _ plain]

end Paths
