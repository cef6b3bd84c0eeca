import KafkaWire.Webhook.DeadLetters

/-! The delivery loop of a webhook subscription: the attempts that one record gets, and what becomes
of every record that is taken from the topic. -/

namespace KafkaWire.Webhook

inductive Reply
  | malformed
  | unreached
  | status (code : Int)
  deriving DecidableEq, Repr

inductive DeliverErr
  | marshal
  | cancelled
  | request
  | transport
  | http (code : Int)
  deriving DecidableEq, Repr

def deliverOnce : Reply → Bool × Option DeliverErr
  | .malformed => (false, some .request)
  | .unreached => (true, some .transport)
  | .status code =>
    if 200 ≤ code ∧ code < 300 then (false, none)
    else (code < 400 || 500 ≤ code, some (.http code))

def delays : List Nat := [0, 1, 5, 30, 120, 300]

/-- The outside of one delivery: whether the context ends during the wait before an attempt, and the
reply to it. -/
structure Outside where
  cancelled : Nat → Bool
  reply : Nat → Reply

def deliverLoop (outside : Outside) :
    Nat → Option DeliverErr → List Nat → Option DeliverErr × List Reply
  | _, lastErr, [] => (lastErr, [])
  | attempt, _, delay :: delays =>
    if 0 < delay ∧ outside.cancelled attempt then (some .cancelled, [])
    else
      match deliverOnce (outside.reply attempt) with
      | (_, none) => (none, [outside.reply attempt])
      | (retryable, some err) =>
        if !retryable && 1 ≤ attempt then (some err, [outside.reply attempt])
        else
          let rest := deliverLoop outside (attempt + 1) (some err) delays
          (rest.1, outside.reply attempt :: rest.2)

/-- `marshals` says whether the value is JSON, which the envelope needs. -/
def deliver (marshals : Bool) (outside : Outside) : Option DeliverErr × List Reply :=
  if marshals then deliverLoop outside 0 none delays else (some .marshal, [])

theorem deliverLoop_spec (outside : Outside) (delays : List Nat) (attempt : Nat)
    (lastErr : Option DeliverErr) :
    let run := deliverLoop outside attempt lastErr delays
    run.2.length ≤ delays.length ∧
      (delays ≠ [] ∨ lastErr ≠ none → (run.1 = none ↔ ∃ reply ∈ run.2, (deliverOnce reply).2 = none)) ∧
      ∀ front reply back, run.2 = front ++ reply :: back → back ≠ [] → (deliverOnce reply).2 ≠ none ∧
        (front = [] ∧ attempt = 0 ∨ (deliverOnce reply).1 = true) := by
  induction delays generalizing attempt lastErr with
  | nil => simp [deliverLoop]
  | cons delay delays ih =>
    -- A list of one reply has nothing after its only element.
    have single (reply : Reply) : ∀ front other back, [reply] = front ++ other :: back → back ≠ [] →
        (deliverOnce other).2 ≠ none ∧
          (front = [] ∧ attempt = 0 ∨ (deliverOnce other).1 = true) := by
      intro front other back shape more
      cases front with
      | nil => exact absurd (List.cons.inj shape).2.symm more
      | cons _ front => simp at shape
    unfold deliverLoop
    split
    · simp
    · split
      · next found => exact ⟨by simp, by simp [found], single _⟩
      · next retryable err found =>
          split
          · exact ⟨by simp, by simp [found], single _⟩
          · next again =>
              obtain ⟨short, ends, follows⟩ := ih (attempt + 1) (some err)
              refine ⟨Nat.succ_le_succ short, fun _ => ?_, fun front reply back shape more => ?_⟩
              · simp [ends (.inr (by simp)), found]
              · cases front with
                | nil =>
                  obtain ⟨rfl, -⟩ := List.cons.inj shape
                  rw [found]
                  cases retryable <;> simp at again ⊢
                  exact again
                | cons _ front =>
                  obtain ⟨failed, first | retried⟩ := follows front reply back (List.cons.inj shape).2 more
                  · exact absurd first.2 (Nat.succ_ne_zero attempt)
                  · exact ⟨failed, .inr retried⟩

/-- A record gets at most six attempts. It counts as delivered exactly when one of them was answered
with a 2xx status, which is then the last one; from the second on, an error that is not worth a
retry is the last one as well. -/
theorem deliver_attempts (marshals : Bool) (outside : Outside) :
    let run := deliver marshals outside
    run.2.length ≤ 6 ∧ (run.1 = none ↔ ∃ reply ∈ run.2, (deliverOnce reply).2 = none) ∧
      ∀ front reply back, run.2 = front ++ reply :: back → back ≠ [] →
        (deliverOnce reply).2 ≠ none ∧ (front = [] ∨ (deliverOnce reply).1 = true) := by
  cases marshals with
  | false => simp [deliver]
  | true =>
    obtain ⟨short, ends, follows⟩ := deliverLoop_spec outside delays 0 none
    refine ⟨short, ends (.inl (by simp [delays])), fun front reply back shape more => ?_⟩
    exact (follows front reply back shape more).imp_right (Or.imp_left And.left)

/-- A subscription at work. `taken` has the records that came from the topic and passed the filter,
and `gone` those of which nothing is left: the process died while it was delivering them, or they
could not be parked. -/
structure Forwarder (R : Type) where
  queue : Queue R := {}
  taken : List R := []
  inFlight : Option R := none
  delivered : List R := []
  gone : List R := []

/-- `runOne` takes a record or is done with one, or something happens to the queue. -/
inductive ForwarderEvent (R : Type)
  | received (rec : R) (matchesEventType : Bool)
  | handled (marshals : Bool) (outside : Outside) (note : String) (written : Written)
  | queued (event : Event R)

section Steps

variable {R : Type} (codec : Codec R)

def Forwarder.step (f : Forwarder R) : ForwarderEvent R → Forwarder R
  | .received rec matchesEventType =>
    if f.inFlight.isNone && matchesEventType then
      { f with inFlight := some rec, taken := rec :: f.taken }
    else f
  | .handled marshals outside note written =>
    match f.inFlight with
    | none => f
    | some rec =>
      match (deliver marshals outside).1 with
      | none => { f with inFlight := none, delivered := rec :: f.delivered }
      | some _ =>
        { f with
          inFlight := none
          queue := f.queue.step codec (.appendDLQ rec note written)
          gone := if written = .done then f.gone else rec :: f.gone }
  | .queued .crash =>
    { f with queue := f.queue.step codec .crash, inFlight := none, gone := f.inFlight.toList ++ f.gone }
  | .queued event => { f with queue := f.queue.step codec event }

/-- Appends to the queue leave whole lines behind, as in `Queue.wholeLines`. -/
def Forwarder.wholeLines (f : Forwarder R) : ForwarderEvent R → Bool
  | .handled _ _ note written =>
    f.inFlight.all fun rec => f.queue.wholeLines codec (.appendDLQ rec note written)
  | .queued event => f.queue.wholeLines codec event
  | .received _ _ => true

def Forwarder.Accounts (f : Forwarder R) (rec : R) : Prop :=
  f.inFlight = some rec ∨ rec ∈ f.delivered ∨ rec ∈ f.gone ∨ rec ∈ f.queue.parked

variable {codec}

theorem step_parked (q : Queue R) (event : Event R) : q.parked ⊆ (q.step codec event).parked := by
  have rename (q : Queue R) (renamed : Bool) : (q.rename renamed).parked = q.parked := by
    unfold Queue.rename
    split <;> rfl
  intro rec member
  cases event with
  | appendDLQ other note written =>
    unfold Queue.step
    dsimp only
    split
    · exact List.mem_cons_of_mem _ member
    · exact member
  | claim readable folded removed renamed =>
    unfold Queue.step Queue.claim
    dsimp only
    split
    · exact member
    · split
      · rwa [rename]
      · split
        · exact member
        · split
          · rwa [rename]
          · exact member
  | read ok =>
    unfold Queue.step
    dsimp only
    split <;> exact member
  | line attempt =>
    unfold Queue.step Queue.replay
    dsimp only
    repeat' split
    all_goals exact member
  | finish written removed =>
    unfold Queue.step
    dsimp only
    split <;> exact member
  | crash => exact member

theorem Forwarder.step_accounts {f : Forwarder R} (accounted : ∀ rec ∈ f.taken, f.Accounts rec)
    (event : ForwarderEvent R) :
    ∀ rec ∈ (f.step codec event).taken, (f.step codec event).Accounts rec := by
  intro rec member
  cases event with
  | received other matchesEventType =>
    simp only [Forwarder.step] at member ⊢
    split at member
    · next accepts =>
        rw [if_pos accepts]
        rw [Bool.and_eq_true, Option.isNone_iff_eq_none] at accepts
        rcases List.mem_cons.mp member with rfl | before
        · exact .inl rfl
        · rcases accounted rec before with flying | rest
          · cases accepts.1.symm.trans flying
          · exact .inr rest
    · next refuses =>
        rw [if_neg refuses]
        exact accounted rec member
  | handled marshals outside note written =>
    simp only [Forwarder.step] at member ⊢
    cases flying : f.inFlight with
    | none =>
      rw [flying] at member
      exact accounted rec member
    | some other =>
      rw [flying] at member
      cases failed : (deliver marshals outside).1 with
      | none =>
        rw [failed] at member
        rcases accounted rec member with here | delivered | rest
        · exact .inr (.inl (by simp [Option.some.inj (flying.symm.trans here)]))
        · exact .inr (.inl (List.mem_cons_of_mem _ delivered))
        · exact .inr (.inr rest)
      | some err =>
        rw [failed] at member
        rcases accounted rec member with here | delivered | gone | parked
        · obtain rfl := Option.some.inj (flying.symm.trans here)
          by_cases done : written = .done
          · subst done
            exact .inr (.inr (.inr List.mem_cons_self))
          · exact .inr (.inr (.inl (by simp [done])))
        · exact .inr (.inl delivered)
        · refine .inr (.inr (.inl ?_))
          dsimp only
          split
          · exact gone
          · exact List.mem_cons_of_mem _ gone
        · exact .inr (.inr (.inr (step_parked _ _ parked)))
  | queued event =>
    have before : f.Accounts rec := by
      cases event <;> exact accounted rec member
    have parked : f.queue.parked ⊆ (f.queue.step codec event).parked := step_parked _ _
    cases event with
    | crash =>
      rcases before with flying | delivered | gone | kept
      · exact .inr (.inr (.inl (by simp [Forwarder.step, flying])))
      · exact .inr (.inl delivered)
      · exact .inr (.inr (.inl (List.mem_append_right _ gone)))
      · exact .inr (.inr (.inr kept))
    | _ => exact before.imp_right (Or.imp_right (Or.imp_right fun kept => parked kept))

theorem Forwarder.step_sound {f : Forwarder R} (sound : Sound codec f.queue)
    (event : ForwarderEvent R) (whole : f.wholeLines codec event = true) :
    Sound codec (f.step codec event).queue := by
  cases event with
  | received rec matchesEventType =>
    simp only [Forwarder.step]
    split <;> exact sound
  | handled marshals outside note written =>
    simp only [Forwarder.step]
    cases flying : f.inFlight with
    | none => exact sound
    | some rec =>
      dsimp only
      split
      · exact sound
      · exact sound.step _ (by simpa [Forwarder.wholeLines, flying] using whole)
  | queued event =>
    have stepped := sound.step event whole
    cases event <;> exact stepped

end Steps

/-- Whatever the endpoint answers, and however redeliveries, failing writes and crashes come between:
every record that was taken from the topic is being delivered, has been delivered, is on a line of
the queue's files, or is one of those that are gone. -/
theorem taken_records_accounted {R : Type} (codec : Codec R) (events : List (ForwarderEvent R))
    (whole : Machine.Guarded (Forwarder.step codec)
      (fun f event => f.wholeLines codec event = true) {} events) :
    let f := Machine.exec (Forwarder.step codec) {} events
    ∀ rec ∈ f.taken, f.inFlight = some rec ∨ rec ∈ f.delivered ∨ rec ∈ f.gone ∨
      rec ∈ f.queue.delivered ∨ Present codec rec (f.queue.canonical.getD []) ∨
      Present codec rec (f.queue.processing.getD []) := by
  intro f rec member
  have empty : Sound codec ({} : Queue R) := ⟨rfl, rfl, by simp [Queue.Safe], by simp⟩
  obtain ⟨sound, accounted⟩ := Machine.Guarded.invariant
    (fun _ (f : Forwarder R) => Sound codec f.queue ∧ ∀ rec ∈ f.taken, f.Accounts rec)
    {} ⟨empty, by simp⟩
    (fun _ f event kept guard => ⟨f.step_sound kept.1 event guard, f.step_accounts kept.2 event⟩)
    events whole
  exact (accounted rec member).imp_right (Or.imp_right (Or.imp_right fun parked =>
    sound.safe rec parked))

/-- The endpoint refuses the record twice, and a redelivery brings it there. -/
theorem refused_record_accounted :
    let events : List (ForwarderEvent Bool) := [.received true true,
      .handled true ⟨fun _ => false, fun _ => .status 404⟩ "" .done,
      .queued (.claim true .done true true), .queued (.read true), .queued (.line .delivered)]
    let f := Machine.exec (Forwarder.step bitCodec) {} events
    f.taken = [true] ∧ (f.inFlight = some true ∨ true ∈ f.delivered ∨ true ∈ f.gone ∨
      true ∈ f.queue.delivered ∨ Present bitCodec true (f.queue.canonical.getD []) ∨
      Present bitCodec true (f.queue.processing.getD [])) := by
  intro events f
  have taken : f.taken = [true] := by decide +kernel
  exact ⟨taken, taken_records_accounted bitCodec events (by decide +kernel) true
    (taken ▸ List.mem_singleton_self true)⟩

end KafkaWire.Webhook
