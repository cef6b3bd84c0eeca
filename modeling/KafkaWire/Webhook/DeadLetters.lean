import KafkaWire.Lib.Bytes
import KafkaWire.Lib.Lines
import KafkaWire.Lib.Machine

/-! The dead-letter queue of a webhook subscription: a file of JSON lines to which failed deliveries
are appended, and the claim file from which `RedeliverDLQ` replays them. -/

namespace KafkaWire.Webhook

open Lines

def newline : UInt8 := 10

def isSpace (c : UInt8) : Bool := c = 32 || (9 ≤ c && c ≤ 13)

def trimSpace (text : Bytes) : Bytes := trim isSpace text

/-- The JSON form of an entry: the record, with the time and the error of the last attempt. -/
structure Codec (R : Type) where
  marshal : R → String → Bytes
  unmarshal : Bytes → Option R
  unmarshal_marshal : ∀ rec note, unmarshal (marshal rec note) = some rec
  one_line : ∀ rec note, newline ∉ marshal rec note
  trimmed : ∀ rec note, trimSpace (marshal rec note) = marshal rec note
  not_blank : unmarshal [] = none

/-- A failed write leaves the file alone, or has appended some of the bytes. A failed sync counts as
a write of all of them. -/
inductive Written
  | done
  | refused
  | torn (count : Nat)
  deriving DecidableEq, Repr

inductive Stage
  | claimed
  | replaying (lines kept : List Bytes)

structure Queue (R : Type) where
  canonical : Option Bytes := none
  processing : Option Bytes := none
  run : Option Stage := none
  parked : List R := []
  delivered : List R := []

/-- What becomes of the line that a redelivery has come to. A failed delivery is written down anew,
if it can be marshalled. -/
inductive Attempt
  | cancelled
  | delivered
  | failed (note : Option String)

inductive Event (R : Type)
  | appendDLQ (rec : R) (note : String) (written : Written)
  | claim (readable : Bool) (folded : Written) (removed renamed : Bool)
  | read (ok : Bool)
  | line (attempt : Attempt)
  | finish (written : Written) (removed : Bool)
  | crash

def writeFile (file : Option Bytes) (data : Bytes) : Written → Option Bytes × Bool
  | .done => (some (file.getD [] ++ data), true)
  | .refused => (file, false)
  | .torn count => (some (file.getD [] ++ data.take count), false)

def terminated (data : Bytes) : Bytes :=
  if data.getLast? = some newline then data else data ++ [newline]

def appendRawLocked (file : Option Bytes) (data : Bytes) (written : Written) : Option Bytes × Bool :=
  if trimSpace data = [] then (file, true) else writeFile file (terminated data) written

/-- `append(bytes.Join(kept, "\n"), '\n')` -/
def joined (kept : List Bytes) : Bytes := [newline].intercalate kept ++ [newline]

def nonblank (lines : List Bytes) : List Bytes := (lines.map trimSpace).filter (· ≠ [])

section Steps

variable {R : Type} (codec : Codec R)

def Queue.rename (q : Queue R) (renamed : Bool) : Queue R :=
  match q.canonical, renamed with
  | some file, true => { q with canonical := none, processing := some file, run := some .claimed }
  | _, _ => q

def Queue.claim (q : Queue R) (readable : Bool) (folded : Written) (removed renamed : Bool) : Queue R :=
  match q.processing with
  | none => q.rename renamed
  | some leftover =>
    if readable = false then q
    else
      let (file, ok) := appendRawLocked q.canonical leftover folded
      if ok && removed then { q with canonical := file, processing := none }.rename renamed
      else { q with canonical := file }

def Queue.replay (q : Queue R) (line : Bytes) (lines kept : List Bytes) (attempt : Attempt) : Queue R :=
  let text := trimSpace line
  let keep (more : List Bytes) : Queue R := { q with run := some (.replaying lines (kept ++ more)) }
  if text = [] then keep []
  else
    match attempt with
    | .cancelled => { q with run := some (.replaying [] (kept ++ nonblank (line :: lines))) }
    | .delivered =>
      match codec.unmarshal text with
      | none => keep [text]
      | some rec => { keep [] with delivered := rec :: q.delivered }
    | .failed note =>
      match codec.unmarshal text, note with
      | some rec, some note => keep [codec.marshal rec note]
      | _, _ => keep [text]

def Queue.step (q : Queue R) : Event R → Queue R
  | .appendDLQ rec note written =>
    let (file, ok) := writeFile q.canonical (codec.marshal rec note ++ [newline]) written
    { q with canonical := file, parked := if ok then rec :: q.parked else q.parked }
  | .claim readable folded removed renamed =>
    if q.run.isSome then q else q.claim readable folded removed renamed
  | .read ok =>
    match q.run, q.processing with
    | some .claimed, some raw =>
      { q with run := if ok then some (.replaying (raw.splitOn newline) []) else none }
    | _, _ => q
  | .line attempt =>
    match q.run with
    | some (.replaying (line :: lines) kept) => q.replay codec line lines kept attempt
    | _ => q
  | .finish written removed =>
    match q.run with
    | some (.replaying [] kept) =>
      let (file, ok) := if kept = [] then (q.canonical, true)
        else appendRawLocked q.canonical (joined kept) written
      { q with canonical := file, run := none,
               processing := if ok && removed then none else q.processing }
    | _ => q
  | .crash => { q with run := none }

def Queue.wholeLines (q : Queue R) : Event R → Bool
  | .appendDLQ rec note (.torn count) => closed newline ((codec.marshal rec note ++ [newline]).take count)
  | .claim _ (.torn count) _ _ => closed newline ((terminated (q.processing.getD [])).take count)
  | .finish (.torn count) _ =>
    match q.run with
    | some (.replaying [] kept) => closed newline ((joined kept).take count)
    | _ => true
  | _ => true

def Present (rec : R) (file : Bytes) : Prop :=
  ∃ line ∈ file.splitOn newline, codec.unmarshal (trimSpace line) = some rec

def Queue.Safe (q : Queue R) : Prop :=
  ∀ rec ∈ q.parked, rec ∈ q.delivered ∨ Present codec rec (q.canonical.getD []) ∨
    Present codec rec (q.processing.getD [])

end Steps

section Files

variable {R : Type} {codec : Codec R} {rec : R} {front back : Bytes}

theorem present_append (whole : closed newline front = true) :
    Present codec rec (front ++ back) ↔ Present codec rec front ∨ Present codec rec back := by
  have solid {line : Bytes} (holds : codec.unmarshal (trimSpace line) = some rec) : line ≠ [] := by
    rintro rfl
    cases codec.not_blank.symm.trans holds
  constructor
  · rintro ⟨line, member, holds⟩
    exact ((mem_splitOn_append whole back (solid holds)).mp member).imp (fun here => ⟨line, here, holds⟩)
      fun here => ⟨line, here, holds⟩
  · rintro (⟨line, member, holds⟩ | ⟨line, member, holds⟩)
    · exact ⟨line, (mem_splitOn_append whole back (solid holds)).mpr (.inl member), holds⟩
    · exact ⟨line, (mem_splitOn_append whole back (solid holds)).mpr (.inr member), holds⟩

theorem not_present_blank (blank : trimSpace back = []) : ¬ Present codec rec back := by
  rintro ⟨line, member, holds⟩
  have spaces := (trim_eq_nil_iff isSpace back).mp blank
  have empty : trimSpace line = [] := by
    exact (trim_eq_nil_iff isSpace line).mpr fun c here =>
      spaces c ((splitOn_piece newline back line member).2 here)
  rw [empty, codec.not_blank] at holds
  cases holds

theorem Present.ended (present : Present codec rec front) : Present codec rec (front ++ [newline]) := by
  obtain ⟨line, member, holds⟩ := present
  refine ⟨line, ?_, holds⟩
  rw [List.splitOn_append_cons_self]
  exact List.mem_append_left _ member

structure Grown (codec : Codec R) (data file file' : Bytes) (ok : Bool) : Prop where
  closed : closed newline file' = true
  kept : ∀ rec, Present codec rec file → Present codec rec file'
  added : ok = true → ∀ rec, Present codec rec data → Present codec rec file'

theorem writeFile_grown (codec : Codec R) {file : Option Bytes} (data : Bytes) (written : Written)
    (whole : Lines.closed newline (file.getD []) = true) (lines : Lines.closed newline data = true)
    (intact : ∀ count, written = .torn count → Lines.closed newline (data.take count) = true) :
    Grown codec data (file.getD []) ((writeFile file data written).1.getD [])
      (writeFile file data written).2 := by
  cases written with
  | done => exact ⟨closed_append whole lines, fun _ here => (present_append whole).mpr (.inl here),
      fun _ _ here => (present_append whole).mpr (.inr here)⟩
  | refused => exact ⟨whole, fun _ here => here, nofun⟩
  | torn count => exact ⟨closed_append whole (intact count rfl),
      fun _ here => (present_append whole).mpr (.inl here), nofun⟩

theorem appendRawLocked_grown (codec : Codec R) {file : Option Bytes} (data : Bytes) (written : Written)
    (whole : Lines.closed newline (file.getD []) = true)
    (intact : ∀ count, written = .torn count →
      Lines.closed newline ((terminated data).take count) = true) :
    Grown codec data (file.getD []) ((appendRawLocked file data written).1.getD [])
      (appendRawLocked file data written).2 := by
  rw [appendRawLocked]
  split
  · next blank =>
      exact ⟨whole, fun _ here => here, fun _ _ here => absurd here (not_present_blank blank)⟩
  · have ended : Lines.closed newline (terminated data) = true := by
      rw [terminated]
      split
      · next last => simp [Lines.closed, last]
      · simp [Lines.closed]
    have grown := writeFile_grown codec _ _ whole ended intact
    refine ⟨grown.closed, grown.kept, fun ok rec here => grown.added ok rec ?_⟩
    rw [terminated]
    split
    · exact here
    · exact here.ended

end Files

/-- What holds whenever no step is being taken. While a claim is being replayed, each of its records
is delivered, kept, or still to come. -/
structure Sound {R : Type} (codec : Codec R) (q : Queue R) : Prop where
  canonical : closed newline (q.canonical.getD []) = true
  processing : closed newline (q.processing.getD []) = true
  safe : q.Safe codec
  run : ∀ lines kept, q.run = some (.replaying lines kept) →
    (∀ text ∈ kept ++ lines, newline ∉ text) ∧ ∀ rec, Present codec rec (q.processing.getD []) →
      rec ∈ q.delivered ∨ ∃ text ∈ kept ++ lines, codec.unmarshal (trimSpace text) = some rec

section Runs

variable {R : Type} {codec : Codec R} {q : Queue R}

theorem Sound.appendDLQ (sound : Sound codec q) (rec : R) (note : String) (written : Written)
    (whole : q.wholeLines codec (.appendDLQ rec note written) = true) :
    Sound codec (q.step codec (.appendDLQ rec note written)) := by
  have grown := writeFile_grown codec (codec.marshal rec note ++ [newline]) written sound.canonical
    (by simp [closed]) (by rintro count rfl; exact whole)
  refine ⟨grown.closed, sound.processing, fun other member => ?_, sound.run⟩
  have parked : other ∈ q.parked ∨
      (writeFile q.canonical (codec.marshal rec note ++ [newline]) written).2 = true ∧ other = rec := by
    simp only [Queue.step] at member
    split at member
    · next ok => exact (List.mem_cons.mp member).symm.imp_right fun same => ⟨ok, same⟩
    · exact .inl member
  rcases parked with old | ⟨ok, rfl⟩
  · rcases sound.safe other old with delivered | here | there
    · exact .inl delivered
    · exact .inr (.inl (grown.kept other here))
    · exact .inr (.inr there)
  · refine .inr (.inl (grown.added ok other (Present.ended ?_)))
    refine ⟨codec.marshal other note, ?_, ?_⟩
    · rw [List.splitOn_eq_singleton (codec.one_line other note)]
      exact List.mem_singleton.mpr rfl
    · rw [codec.trimmed, codec.unmarshal_marshal]

theorem Sound.rename (sound : Sound codec q) (renamed : Bool) (unclaimed : q.processing = none) :
    Sound codec (q.rename renamed) := by
  unfold Queue.rename
  split
  · next file found =>
      refine ⟨rfl, by simpa [found] using sound.canonical, fun rec member => ?_, nofun⟩
      rcases sound.safe rec member with delivered | here | there
      · exact .inl delivered
      · exact .inr (.inr (by simpa [found] using here))
      · rw [unclaimed] at there
        exact absurd there (not_present_blank rfl)
  · exact sound

theorem Sound.claim (sound : Sound codec q) (readable : Bool) (folded : Written) (removed renamed : Bool)
    (idle : q.run = none) (whole : q.wholeLines codec (.claim readable folded removed renamed) = true) :
    Sound codec (q.claim readable folded removed renamed) := by
  unfold Queue.claim
  split
  · next unclaimed => exact sound.rename renamed unclaimed
  · next leftover found =>
      split
      · exact sound
      · have grown := appendRawLocked_grown codec leftover folded sound.canonical (by
          rintro count rfl
          simpa [Queue.wholeLines, found] using whole)
        have kept (rec : R) (member : rec ∈ q.parked) : rec ∈ q.delivered ∨
            Present codec rec ((appendRawLocked q.canonical leftover folded).1.getD []) ∨
            Present codec rec (q.processing.getD []) :=
          (sound.safe rec member).imp_right fun either => either.imp_left (grown.kept rec)
        dsimp only
        split
        · next done =>
            rw [Bool.and_eq_true] at done
            refine Sound.rename ⟨grown.closed, rfl, fun rec member => ?_, fun _ _ running => ?_⟩ _ rfl
            · rw [found] at kept
              exact (kept rec member).imp_right fun either =>
                .inl (either.elim id (grown.added done.1 rec))
            · cases idle.symm.trans running
        · exact ⟨grown.closed, sound.processing, kept, sound.run⟩

theorem Sound.replaying (sound : Sound codec q) {lines lines' kept kept' : List Bytes}
    {delivered : List R} (running : q.run = some (.replaying lines kept))
    (clear : ∀ text ∈ kept' ++ lines', newline ∉ text) (grown : q.delivered ⊆ delivered)
    (covered : ∀ text ∈ kept ++ lines, ∀ rec, codec.unmarshal (trimSpace text) = some rec →
      rec ∈ delivered ∨ ∃ text' ∈ kept' ++ lines', codec.unmarshal (trimSpace text') = some rec) :
    Sound codec { q with delivered := delivered, run := some (.replaying lines' kept') } := by
  refine ⟨sound.canonical, sound.processing, fun rec member => ?_, fun _ _ same => ?_⟩
  · exact (sound.safe rec member).imp_left fun before => grown before
  · cases same
    refine ⟨clear, fun rec present => ?_⟩
    rcases (sound.run lines kept running).2 rec present with before | ⟨text, member, holds⟩
    · exact .inl (grown before)
    · exact covered text member rec holds

theorem Sound.replay (sound : Sound codec q) (line : Bytes) (lines kept : List Bytes) (attempt : Attempt)
    (running : q.run = some (.replaying (line :: lines) kept)) :
    Sound codec (q.replay codec line lines kept attempt) := by
  have clear := (sound.run _ _ running).1
  have trimmed (text : Bytes) (member : text ∈ line :: lines) : newline ∉ trimSpace text := fun here =>
    clear text (List.mem_append_right _ member) (trim_subset isSpace text here)
  have again {text : Bytes} {rec : R} (holds : codec.unmarshal (trimSpace text) = some rec) :
      codec.unmarshal (trimSpace (trimSpace text)) = some rec := by
    rw [show trimSpace (trimSpace text) = trimSpace text from trim_trim isSpace text, holds]
  -- The line is replaced by texts that hold its record, unless that has been delivered.
  have turn (more : List Bytes) (delivered : List R) (single : ∀ text ∈ more, newline ∉ text)
      (grown : q.delivered ⊆ delivered)
      (covered : ∀ rec, codec.unmarshal (trimSpace line) = some rec →
        rec ∈ delivered ∨ ∃ text ∈ more, codec.unmarshal (trimSpace text) = some rec) :
      Sound codec { q with delivered := delivered, run := some (.replaying lines (kept ++ more)) } := by
    refine sound.replaying running (fun text member => ?_) grown fun text member rec holds => ?_
    · simp only [List.append_assoc, List.mem_append] at member
      rcases member with old | new | rest
      · exact clear text (List.mem_append_left _ old)
      · exact single text new
      · exact clear text (List.mem_append_right _ (List.mem_cons_of_mem _ rest))
    · rcases List.mem_append.mp member with old | new
      · exact .inr ⟨text, by simp [old], holds⟩
      · rcases List.mem_cons.mp new with rfl | rest
        · refine (covered rec holds).imp_right ?_
          rintro ⟨text', member', holds'⟩
          exact ⟨text', by simp [member'], holds'⟩
        · exact .inr ⟨text, by simp [rest], holds⟩
  have verbatim := turn [trimSpace line] q.delivered
    (by simpa using trimmed line List.mem_cons_self) (fun _ here => here)
    fun rec holds => .inr ⟨_, List.mem_singleton.mpr rfl, again holds⟩
  unfold Queue.replay
  dsimp only
  split
  · next blank =>
      refine turn [] q.delivered nofun (fun _ here => here) fun rec holds => ?_
      rw [blank, codec.not_blank] at holds
      cases holds
  · cases attempt with
    | cancelled =>
      refine sound.replaying running (fun text member => ?_) (fun _ here => here)
        fun text member rec holds => .inr ?_
      · rw [List.append_nil, List.mem_append] at member
        rcases member with old | new
        · exact clear text (List.mem_append_left _ old)
        · obtain ⟨source, listed, rfl⟩ := List.mem_map.mp (List.mem_filter.mp new).1
          exact trimmed source listed
      · rw [List.append_nil]
        rcases List.mem_append.mp member with old | new
        · exact ⟨text, List.mem_append_left _ old, holds⟩
        · refine ⟨trimSpace text, List.mem_append_right _ ?_, again holds⟩
          refine List.mem_filter.mpr ⟨List.mem_map_of_mem new, ?_⟩
          rw [decide_eq_true_iff]
          intro blank
          rw [blank, codec.not_blank] at holds
          cases holds
    | delivered =>
      dsimp only
      split
      · exact verbatim
      · next rec found =>
          refine turn [] (rec :: q.delivered) nofun (List.subset_cons_self _ _) fun other holds => .inl ?_
          obtain rfl := Option.some.inj (found.symm.trans holds)
          exact List.mem_cons_self
    | failed note =>
      dsimp only
      split
      · next rec note found =>
          refine turn [codec.marshal rec note] q.delivered (by simpa using codec.one_line rec note)
            (fun _ here => here) fun other holds => .inr ⟨_, List.mem_singleton.mpr rfl, ?_⟩
          rw [codec.trimmed, codec.unmarshal_marshal, ← found, holds]
      · exact verbatim

theorem present_joined {rec : R} {kept : List Bytes} {text : Bytes}
    (clear : ∀ text ∈ kept, newline ∉ text) (member : text ∈ kept)
    (holds : codec.unmarshal (trimSpace text) = some rec) : Present codec rec (joined kept) := by
  refine Present.ended ⟨text, ?_, holds⟩
  rwa [List.splitOn_intercalate newline clear (List.ne_nil_of_mem member)]

theorem Sound.finish (sound : Sound codec q) (written : Written) (removed : Bool)
    (whole : q.wholeLines codec (.finish written removed) = true) :
    Sound codec (q.step codec (.finish written removed)) := by
  unfold Queue.step
  dsimp only
  split
  · next kept running =>
      obtain ⟨clear, covered⟩ := sound.run _ _ running
      rw [List.append_nil] at clear covered
      have grown : Grown codec (joined kept) (q.canonical.getD [])
          ((if kept = [] then (q.canonical, true)
            else appendRawLocked q.canonical (joined kept) written).1.getD [])
          (if kept = [] then (q.canonical, true)
            else appendRawLocked q.canonical (joined kept) written).2 := by
        split
        · next none =>
            refine ⟨sound.canonical, fun _ here => here, fun _ rec here => absurd here ?_⟩
            rw [none]
            exact not_present_blank (by decide)
        · refine appendRawLocked_grown codec _ _ sound.canonical ?_
          rintro count rfl
          have ended : terminated (joined kept) = joined kept := if_pos (by simp [joined])
          rw [ended]
          simpa [Queue.wholeLines, running] using whole
      generalize (if kept = [] then (q.canonical, true)
        else appendRawLocked q.canonical (joined kept) written) = result at grown ⊢
      refine ⟨grown.closed, ?_, fun rec member => ?_, nofun⟩
      · dsimp only
        split
        · rfl
        · exact sound.processing
      · rcases sound.safe rec member with delivered | here | there
        · exact .inl delivered
        · exact .inr (.inl (grown.kept rec here))
        · dsimp only
          split
          · next done =>
              rw [Bool.and_eq_true] at done
              refine (covered rec there).imp_right fun found => .inl ?_
              obtain ⟨text, member, holds⟩ := found
              exact grown.added done.1 rec (present_joined clear member holds)
          · exact .inr (.inr there)
  · exact sound

theorem Sound.step (sound : Sound codec q) (event : Event R) (whole : q.wholeLines codec event = true) :
    Sound codec (q.step codec event) := by
  cases event with
  | appendDLQ rec note written => exact sound.appendDLQ rec note written whole
  | claim readable folded removed renamed =>
    unfold Queue.step
    dsimp only
    split
    · exact sound
    · next idle =>
        exact sound.claim readable folded removed renamed (by simpa using idle) whole
  | read ok =>
    unfold Queue.step
    dsimp only
    split
    · next raw running found =>
        refine ⟨sound.canonical, sound.processing, sound.safe, fun lines kept same => ?_⟩
        cases ok with
        | false => cases same
        | true =>
          cases same
          rw [List.nil_append]
          refine ⟨fun text member => (splitOn_piece newline raw text member).1, fun rec present => ?_⟩
          rw [found] at present
          exact .inr present
    · exact sound
  | line attempt =>
    unfold Queue.step
    dsimp only
    split
    · next line lines kept running => exact sound.replay line lines kept attempt running
    · exact sound
  | finish written removed => exact sound.finish written removed whole
  | crash => exact ⟨sound.canonical, sound.processing, sound.safe, nofun⟩

end Runs

/-- From an empty queue, whatever happens: no record that was parked is lost, as long as an append
that fails leaves whole lines behind. -/
theorem parked_records_kept {R : Type} (codec : Codec R) (events : List (Event R))
    (whole : Machine.Guarded (Queue.step codec) (fun q event => q.wholeLines codec event = true) {} events) :
    (Machine.exec (Queue.step codec) {} events).Safe codec := by
  have empty : Sound codec ({} : Queue R) := ⟨rfl, rfl, nofun, nofun⟩
  have sound := Machine.Guarded.invariant (fun _ q => Sound codec q) {} empty
    (fun _ q event sound guard => sound.step event guard) events whole
  exact sound.safe

def bitCodec : Codec Bool where
  marshal rec _ := [123, if rec then 49 else 48, 125]
  unmarshal text := if text = [123, 49, 125] then some true
    else if text = [123, 48, 125] then some false else none
  unmarshal_marshal := by
    intro rec note
    cases rec <;> decide
  one_line := by
    intro rec note
    cases rec <;> decide
  trimmed := by
    intro rec note
    cases rec <;> decide
  not_blank := rfl

/-- One record is parked, a second one while the first is being replayed in vain, and then the
process dies. -/
def quietRun : List (Event Bool) :=
  [.appendDLQ true "" .done, .claim true .done true true, .read true, .appendDLQ false "" .done,
    .line (.failed (some "")), .line .cancelled, .finish (.torn 4) true, .crash]

theorem quiet_records_kept :
    Machine.Guarded (Queue.step bitCodec) (fun q event => q.wholeLines bitCodec event = true) {} quietRun ∧
      (Machine.exec (Queue.step bitCodec) {} quietRun).parked = [false, true] ∧
      (Machine.exec (Queue.step bitCodec) {} quietRun).Safe bitCodec := by
  have whole : Machine.Guarded (Queue.step bitCodec)
      (fun q event => q.wholeLines bitCodec event = true) {} quietRun := by
    decide +kernel
  exact ⟨whole, by decide +kernel, parked_records_kept bitCodec quietRun whole⟩

/-- An append fails after its first byte, and the next one ends up on the same line. -/
theorem torn_line_swallows_record :
    ¬ (Machine.exec (Queue.step bitCodec) {}
      [.appendDLQ true "" (.torn 1), .appendDLQ false "" .done]).Safe bitCodec := by
  have ran : Machine.exec (Queue.step bitCodec) {}
      [.appendDLQ true "" (.torn 1), .appendDLQ false "" .done] =
      { canonical := some [123, 123, 48, 125, 10], parked := [false] } := rfl
  have lines : List.splitOn newline [123, 123, 48, 125, 10] = [[123, 123, 48, 125], []] := by
    decide +kernel
  rw [ran]
  intro safe
  rcases safe false (List.mem_singleton.mpr rfl) with delivered | ⟨line, member, holds⟩ | there
  · cases delivered
  · rw [Option.getD_some, lines, List.mem_cons, List.mem_singleton] at member
    rcases member with rfl | rfl <;> cases holds
  · exact not_present_blank rfl there

end KafkaWire.Webhook
