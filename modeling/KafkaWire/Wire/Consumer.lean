import KafkaWire.Storage.Budgets
import KafkaWire.Wire.Produce

/-! Producers and a consumer on one partition. Whatever mixture of good and bad requests the
producers send, a consumer that reads from the start gets every stored batch once, in order. -/

namespace KafkaWire.Wire

open Bytes Storage Programs

structure Consumer where
  offset : Int
  received : List Bytes
  deriving DecidableEq

def Consumer.take (c : Consumer) (reply : Bytes) : Except Fault Consumer :=
  match splitBatches reply with
  | .error err => .error (.err err)
  | .ok batches =>
    .ok ⟨(batches.getLast?.map fun last => int64 ((decodeHeader last).lastOffset + 1)).getD c.offset,
      c.received ++ batches⟩

def Consumer.poll (l : Log) (world : World) (c : Consumer) (maxBytes : Int) :
    Except Fault Consumer :=
  if c.offset ≥ l.highWatermark then .ok c
  else
    match fetchAt l world c.offset maxBytes with
    | .error fault => .error fault
    | .ok (reply, _) => c.take reply

def Consumer.consume (l : Log) (world : World) (c : Consumer) : List Int → Except Fault Consumer
  | [] => .ok c
  | size :: sizes =>
    match c.poll l world size with
    | .error fault => .error fault
    | .ok c' => c'.consume l world sizes

structure ProduceCall where
  paused : Bool
  records : Bytes
  deriving DecidableEq, Repr

def ProduceCall.batches (call : ProduceCall) : List Bytes :=
  match splitBatches call.records with
  | .error _ => []
  | .ok batches => checkedBatches call.paused batches

def produceAll : List ProduceCall → Partition → List ProduceResponse × Partition
  | [], p => ([], p)
  | call :: calls, p =>
    let (response, p') := handleProduce call.paused call.records p
    let (responses, final) := produceAll calls p'
    (response :: responses, final)

/-- The stored batches come call by call, each time a first part of what was sent, and all of
it where the call was answered without an error. -/
def Delivered : List ProduceCall → List ProduceResponse → List Bytes → Prop
  | [], [], stored => stored = []
  | call :: calls, response :: responses, stored => ∃ kept rest, stored = kept ++ rest ∧
      kept <+: call.batches ∧ (response.errorCode = errCodeNone → call.records = kept.flatten) ∧
      Delivered calls responses rest
  | _, _, _ => False

structure Consumer.Between (start high : Int) (batches : List Bytes) (c : Consumer)
    (rest : List Bytes) : Prop where
  stored : batches = c.received ++ rest
  before : Tiles start c.received c.offset
  after : Tiles c.offset rest high

section Consuming

variable {start : Int} {c : Consumer} {rest : List Bytes}

theorem Consumer.Between.take {high : Int} {batches more later : List Bytes} {batch : Bytes}
    (positive : 0 ≤ start) (between : c.Between start high batches (batch :: more ++ later)) :
    ∃ c', c.take (batch :: more).flatten = .ok c' ∧ c'.Between start high batches later := by
  obtain ⟨middle, replied, after⟩ := (Tiles.append_iff _ _ _ _).mp between.after
  have split : splitBatches (batch :: more).flatten = .ok (batch :: more) :=
    (splitBatches_ok_iff _ _).mpr ⟨rfl, replied.isBatch⟩
  obtain ⟨last, isLast⟩ : ∃ last, (batch :: more).getLast? = some last :=
    ⟨_, List.getLast?_eq_some_getLast (List.cons_ne_nil _ _)⟩
  have next := replied.last_offset (positive.trans between.before.le) isLast
  refine ⟨⟨middle, c.received ++ batch :: more⟩, ?_, ?_⟩
  · rw [Consumer.take, split]
    dsimp only
    rw [isLast, Option.map_some, Option.getD_some, next]
  · exact ⟨by rw [between.stored, List.append_assoc],
      (Tiles.append_iff _ _ _ _).mpr ⟨c.offset, between.before, replied⟩, after⟩

variable {p : Partition} {front : List Segment} {active : Segment} {old : List (List Bytes)}
  {new : List Bytes} (intact : Intact p front active old new)
  (first : p.log.segments.head?.map Segment.baseOffset = some start) (positive : 0 ≤ start)
  (small : ∀ s ∈ front ++ [active], s.logSize < 2 ^ 62)

include intact first positive small

theorem Consumer.Between.poll (size : Int) (least : 61 ≤ size) (most : size < 2 ^ 31)
    (between : c.Between start p.log.highWatermark (old ++ [new]).flatten rest) :
    ∃ c' rest', c.poll p.log p.world size = .ok c' ∧
      c'.Between start p.log.highWatermark (old ++ [new]).flatten rest' ∧
      rest'.length ≤ rest.length - 1 := by
  unfold Consumer.poll
  by_cases done : c.offset ≥ p.log.highWatermark
  · refine ⟨c, rest, if_pos done, between, ?_⟩
    cases rest with
    | nil => exact Nat.zero_le _
    | cons batch more =>
      have counted := between.after.1.counted
      have le := between.after.2.le
      omega
  · have bound : maxAlloc = 2 ^ 48 := rfl
    have head : ∀ s ∈ p.log.segments.head?, s.baseOffset = start := by
      intro s isFirst
      rw [Option.mem_def.mp isFirst] at first
      exact Option.some.inj first
    obtain ⟨batch, more, later, found, fetched⟩ := intact.readable.fetchAt start c.offset size head
      between.before.le (not_le.mp done) small least (by omega)
    have shape : rest = batch :: more ++ later := by
      rw [between.stored, fromOffset_append between.before (le_refl _)] at found
      cases rest with
      | nil => cases found
      | cons head tail =>
        have counted := between.after.1.counted
        rw [fromOffset, if_pos (by omega)] at found
        exact found
    subst shape
    obtain ⟨c', taken, between'⟩ := between.take positive
    refine ⟨c', later, ?_, between', ?_⟩
    · rw [if_neg done, fetched]
      exact taken
    · simp only [List.cons_append, List.length_cons, List.length_append]
      omega

variable (sizes : List Int) (within : ∀ size ∈ sizes, 61 ≤ size ∧ size < 2 ^ 31)

include within

theorem Consumer.Between.consume (enough : rest.length ≤ sizes.length)
    (between : c.Between start p.log.highWatermark (old ++ [new]).flatten rest) :
    c.consume p.log p.world sizes = .ok ⟨p.log.highWatermark, (old ++ [new]).flatten⟩ := by
  induction sizes generalizing c rest with
  | nil =>
    obtain rfl : rest = [] := List.length_eq_zero_iff.mp (by simpa using enough)
    have atEnd : c.offset = p.log.highWatermark := between.after
    rw [Consumer.consume, between.stored, List.append_nil, ← atEnd]
  | cons size sizes ih =>
    obtain ⟨least, most⟩ := within size List.mem_cons_self
    obtain ⟨c', rest', polled, between', shorter⟩ :=
      between.poll intact first positive small size least most
    rw [Consumer.consume, polled]
    refine ih (fun size member => within size (List.mem_cons_of_mem _ member)) ?_ between'
    simp only [List.length_cons] at enough
    omega

theorem consume_all (enough : (old ++ [new]).flatten.length ≤ sizes.length) :
    Consumer.consume p.log p.world ⟨start, []⟩ sizes =
      .ok ⟨p.log.highWatermark, (old ++ [new]).flatten⟩ :=
  Consumer.Between.consume intact first positive small sizes within enough
    ⟨rfl, rfl, intact.tiles first⟩

end Consuming

section Producing

variable {p : Partition}

theorem handleProduce_spec {cfg : Config} (running : Running cfg p) (call : ProduceCall)
    (fits : Fits p.log.highWatermark call.batches) :
    ∃ kept, kept <+: call.batches ∧
      ((handleProduce call.paused call.records p).1.errorCode = errCodeNone →
        call.records = kept.flatten) ∧
      (handleProduce call.paused call.records p).2.journal.map Stored.sent =
        p.journal.map Stored.sent ++ kept ∧
      Running cfg (handleProduce call.paused call.records p).2 := by
  have failing : errCodeCorruptMessage ≠ errCodeNone := by decide
  have unchanged (response : ProduceResponse) (code : response.errorCode = errCodeCorruptMessage) :
      ∃ kept, kept <+: call.batches ∧
        ((response, p).1.errorCode = errCodeNone → call.records = kept.flatten) ∧
        (response, p).2.journal.map Stored.sent = p.journal.map Stored.sent ++ kept ∧
        Running cfg (response, p).2 :=
    ⟨[], List.nil_prefix, fun none => absurd (code.symm.trans none) failing,
      (List.append_nil _).symm, running⟩
  unfold handleProduce
  split
  · exact unchanged _ rfl
  · split
    · exact unchanged _ rfl
    · next batches split =>
        obtain ⟨shape, valid⟩ := (splitBatches_ok_iff _ _).mp split
        have same : call.batches = checkedBatches call.paused batches := by
          rw [ProduceCall.batches, split]
        rw [same] at fits ⊢
        have spec := append_running running call.paused batches valid fits
        split
        · next err p' failed =>
            obtain ⟨running', kept, isPrefix, journal⟩ := spec.of_error failed
            exact ⟨kept, isPrefix, fun none => absurd none failing, journal, running'⟩
        · next first p' done =>
            obtain ⟨running', all, journal, -⟩ := spec.of_ok done
            exact ⟨batches, by rw [all], fun _ => shape, journal, running'⟩

theorem produceAll_spec {cfg : Config} (calls : List ProduceCall) (p : Partition)
    (running : Running cfg p)
    (fits : Fits p.log.highWatermark (calls.flatMap ProduceCall.batches)) :
    Running cfg (produceAll calls p).2 ∧
      ∃ kept, Delivered calls (produceAll calls p).1 kept ∧
        kept.Sublist (calls.flatMap ProduceCall.batches) ∧
        (produceAll calls p).2.journal.map Stored.sent = p.journal.map Stored.sent ++ kept := by
  induction calls generalizing p with
  | nil => exact ⟨running, [], rfl, List.Sublist.refl _, (List.append_nil _).symm⟩
  | cons call calls ih =>
    rw [List.flatMap_cons] at fits
    obtain ⟨kept, isPrefix, answered, journal, running'⟩ :=
      handleProduce_spec running call ((Fits.append_iff _ _ _).mp fits).1
    obtain ⟨final, later, delivered, sub, journal'⟩ := ih _ running'
      (running.recorded.room running'.recorded fits isPrefix.sublist journal)
    refine ⟨final, kept ++ later, ⟨kept, later, rfl, isPrefix, answered, delivered⟩,
      isPrefix.sublist.append sub, ?_⟩
    rw [← List.append_assoc, ← journal]
    exact journal'

end Producing

def serve (cfg : Config) (world : World) (calls : List ProduceCall) :
    Option (List ProduceResponse × Partition) :=
  match openLog cfg world with
  | .error _ _ => none
  | .ok log opened => some (produceAll calls ⟨log, opened, []⟩)

def SameContents (sent written : Bytes) : Prop :=
  written.length = sent.length ∧
    ∀ i, (8 ≤ i ∧ i < 12) ∨ 16 ≤ i → written[i]? = sent[i]?

/-- A consumer that reads from the start with fetch sizes a client can ask for receives every
stored batch once, in order and whole. -/
theorem consumer_receives_every_batch (cfg : Config) (world : World) (calls : List ProduceCall)
    (responses : List ProduceResponse) (final : Partition) (sizes : List Int)
    (bare : world.Bare) (calm : world.Calm)
    (ran : serve cfg world calls = some (responses, final))
    (deltas : ∀ batch ∈ calls.flatMap ProduceCall.batches, 0 ≤ (decodeHeader batch).lastOffsetDelta)
    (offsets : ((calls.flatMap ProduceCall.batches).map offsetCount).sum < 2 ^ 63)
    (bytes : (calls.flatMap ProduceCall.batches).flatten.length < 2 ^ 62)
    (within : ∀ size ∈ sizes, 61 ≤ size ∧ size < 2 ^ 31)
    (enough : final.journal.length ≤ sizes.length) :
    Consumer.consume final.log final.world ⟨final.log.logStart, []⟩ sizes =
        .ok ⟨final.log.highWatermark, final.journal.map Stored.written⟩ ∧
      Delivered calls responses (final.journal.map Stored.sent) ∧
      ∀ entry ∈ final.journal, SameContents entry.sent entry.written := by
  unfold serve at ran
  split at ran
  · cases ran
  · next log opened opening =>
      obtain ⟨-, fresh⟩ := (openLog_bare cfg world bare).of_ok opening
      obtain ⟨active, layout, next⟩ := fresh.layout []
      have empty : log.highWatermark = 0 := layout.highWatermark.trans next
      have fits : Fits log.highWatermark (calls.flatMap ProduceCall.batches) := by
        refine ⟨fun batch member => Int.lt_add_one_of_le (deltas batch member), ?_⟩
        rw [empty, zero_add]
        exact offsets
      have spec := produceAll_spec calls ⟨log, opened, []⟩ (fresh.running calm) fits
      rw [Option.some.inj ran] at spec
      obtain ⟨⟨recorded, -, -⟩, kept, delivered, sub, journal⟩ := spec
      have sent : final.journal.map Stored.sent = kept := by simpa using journal
      refine ⟨?_, sent ▸ delivered, ?_⟩
      · obtain ⟨front, active, old, new, intact, stored⟩ := recorded.intact
        have small : ∀ s ∈ front ++ [active], s.logSize < 2 ^ 62 := by
          intro s member
          have le := intact.readable.logSize_le s member
          rw [stored, recorded.bytes, sent] at le
          exact Nat.lt_of_le_of_lt (le.trans sub.flatten.length_le) bytes
        rw [recorded.logStart, ← stored]
        exact consume_all intact recorded.start (le_refl 0) small sizes within
          (by simpa [stored] using enough)
      · intro entry member
        obtain ⟨whole, offset, written⟩ := recorded.entries entry member
        rw [written]
        exact ⟨stamp_length _ _ whole.length_ge,
          fun i outside => stamp_getElem? _ _ whole.length_ge i outside⟩

theorem consumer_receives_two_batches :
    ∃ responses final, serve ⟨61, 0, 4096, .none⟩ World.empty
        [⟨false, minimalBatch 0 ++ minimalBatch 4⟩] = some (responses, final) ∧
      Consumer.consume final.log final.world ⟨final.log.logStart, []⟩ [61, 61] =
        .ok ⟨final.log.highWatermark, final.journal.map Stored.written⟩ := by
  have runs : (serve ⟨61, 0, 4096, .none⟩ World.empty
      [⟨false, minimalBatch 0 ++ minimalBatch 4⟩]).map (fun run => run.2.journal.length) =
        some 2 := by decide +kernel
  obtain ⟨⟨responses, final⟩, ran, two⟩ := Option.map_eq_some_iff.mp runs
  exact ⟨responses, final, ran, (consumer_receives_every_batch _ _ _ responses final [61, 61]
    World.bare_empty (by simp [World.Calm, World.empty]) ran (by decide +kernel) (by decide +kernel)
    (by decide +kernel) (by decide) (by simp [two])).1⟩

/-- The same holds for a log that was opened again and cut short by retention: what the consumer
receives is what the files of the segments have. -/
theorem consumer_receives_retained (cfg : Config) (events : List LogStep)
    (guarded : Machine.Guarded (LiveLog.operate cfg) LiveLog.Steady (.unopened cfg) events)
    (opened : isOpen events = true) (sizes : List Int)
    (within : ∀ size ∈ sizes, 61 ≤ size ∧ size < 2 ^ 31) :
    let l := Machine.exec (LiveLog.operate cfg) (.unopened cfg) events
    (∀ s ∈ l.segments, s.logSize < 2 ^ 62) →
    ∃ batches, Tiles l.partition.log.logStart batches l.partition.log.highWatermark ∧
      batches.flatten = (l.segments.flatMap fun s => (l.partition.world.stores .log).data s.baseOffset) ∧
      (batches.length ≤ sizes.length →
        Consumer.consume l.partition.log l.partition.world ⟨l.partition.log.logStart, []⟩ sizes =
          .ok ⟨l.partition.log.highWatermark, batches⟩) := by
  intro l small
  have kept := steady_kept cfg events guarded
  rw [opened] at kept
  obtain ⟨retained, -, -⟩ := kept.files
  obtain ⟨front, active, old, new, intact⟩ := retained.intact
  have segments : l.segments = front ++ [active] := intact.readable.layout.segments
  rw [segments] at small ⊢
  exact ⟨_, intact.tiles retained.start, intact.contents,
    consume_all intact retained.start retained.start_nonneg small sizes within⟩

/-- Nothing in the log bounds the fetch size. Behind the first batch of a segment the largest
one overflows, and the buffer that is allocated for it does not exist. -/
theorem consumer_panics_on_largest_fetch :
    ∃ responses final, serve ⟨1000, 0, 4096, .none⟩ World.empty
        [⟨false, minimalBatch 0 ++ minimalBatch 0⟩] = some (responses, final) ∧
      final.journal.length = 2 ∧ responses.map ProduceResponse.errorCode = [errCodeNone] ∧
      Consumer.consume final.log final.world ⟨final.log.logStart, []⟩ [61, 2 ^ 63 - 1] =
        .error .panic := by
  have outcome : (serve ⟨1000, 0, 4096, .none⟩ World.empty
      [⟨false, minimalBatch 0 ++ minimalBatch 0⟩]).map (fun run =>
        (run.2.journal.length, run.1.map ProduceResponse.errorCode,
          decide (Consumer.consume run.2.log run.2.world ⟨run.2.log.logStart, []⟩ [61, 2 ^ 63 - 1] =
            .error .panic))) = some (2, [errCodeNone], true) := by decide +kernel
  obtain ⟨⟨responses, final⟩, ran, seen⟩ := Option.map_eq_some_iff.mp outcome
  simp only [Prod.mk.injEq, decide_eq_true_eq] at seen
  exact ⟨responses, final, ran, seen⟩

end KafkaWire.Wire
