import KafkaWire.Wire.TaggedFields

/-! Request frames: the size, the header with its client id and its tagged fields, and the body. -/

namespace KafkaWire.Wire

open Bytes Storage Programs

def maxFrameSize : Int := 16 * 1024 * 1024

structure RequestHeader where
  apiKey : Int
  apiVersion : Int
  correlationID : Int
  clientID : Bytes
  deriving DecidableEq, Repr

/-- `io.ReadFull` on what the connection delivers before it ends. -/
def readFull (stream : Bytes) (size : Nat) : Except Fault (Bytes × Bytes) :=
  if size ≤ stream.length then .ok (stream.take size, stream.drop size)
  else .error (.err (.text (if stream.isEmpty then "EOF" else "unexpected EOF")))

def reported {α : Type} (message : String) : Except Fault α := .error (.err (.text message))

section Reading

variable (isFlexibleRequest : Int → Int → Bool)

/-- The first half of `readRequest`, up to the frame that it allocates. -/
def readFrame (maxBytes : Int) (stream : Bytes) : Except Fault Bytes := do
  let (sizeBuf, stream) ← readFull stream 4
  let size := int32 (uintBE sizeBuf)
  if size ≤ 0 then reported s!"invalid frame size {size}"
  else if size > maxBytes then reported s!"frame size {size} exceeds max {maxBytes}"
  else if size > maxFrameSize then reported s!"frame size {size} exceeds hard cap {maxFrameSize}"
  else return (← readFull stream size.toNat).1

/-- Where the client id ends. A negative length is a null id, which takes no bytes. -/
def clientIDEnd (frame : Bytes) : Nat := 10 + (int16 (uintBE (slice frame 8 10))).toNat

def parseHeader (frame : Bytes) : RequestHeader where
  apiKey := int16 (uintBE (slice frame 0 2))
  apiVersion := int16 (uintBE (slice frame 2 4))
  correlationID := int32 (uintBE (slice frame 4 8))
  clientID := slice frame 10 (clientIDEnd frame)

def headerTags (hdr : RequestHeader) (frame : Bytes) : Except Fault Int :=
  if isFlexibleRequest hdr.apiKey hdr.apiVersion then
    match sliceFrom frame (clientIDEnd frame) >>= skipTaggedFields with
    | .error (.err cause) => .error (.err (.wrap s!"api key {hdr.apiKey} v{hdr.apiVersion}" cause))
    | other => other
  else .ok 0

def parseFrame (frame : Bytes) : Except Fault (RequestHeader × Bytes) :=
  if frame.length < 8 then reported "frame shorter than fixed header"
  else if frame.length < 10 then reported "frame too short for client_id length"
  else if clientIDEnd frame > frame.length then reported "frame too short for client_id bytes"
  else do
    let n ← headerTags isFlexibleRequest (parseHeader frame) frame
    return (parseHeader frame, ← sliceFrom frame (clientIDEnd frame + n))

def readRequest (maxBytes : Int) (stream : Bytes) : Except Fault (RequestHeader × Bytes) := do
  parseFrame isFlexibleRequest (← readFrame maxBytes stream)

end Reading

def putInt (width : Nat) (value : Int) : Bytes := putUintBE width (value % 256 ^ width).toNat

/-- A header as a client may send it. The tagged fields are there in flexible versions only. -/
structure SentHeader (isFlexibleRequest : Int → Int → Bool) where
  apiKey : Int
  apiVersion : Int
  correlationID : Int
  clientID : Option Bytes
  tags : Bytes
  key_range : -(2 ^ 15) ≤ apiKey ∧ apiKey < 2 ^ 15
  version_range : -(2 ^ 15) ≤ apiVersion ∧ apiVersion < 2 ^ 15
  correlation_range : -(2 ^ 31) ≤ correlationID ∧ correlationID < 2 ^ 31
  client_short : ∀ id ∈ clientID, id.length ≤ 32767
  tagged : if isFlexibleRequest apiKey apiVersion then IsTaggedSection tags else tags = []

namespace SentHeader

variable {isFlexibleRequest : Int → Int → Bool} (h : SentHeader isFlexibleRequest)

def header : RequestHeader := ⟨h.apiKey, h.apiVersion, h.correlationID, h.clientID.getD []⟩

def clientIDLen : Int := (h.clientID.map fun id => (id.length : Int)).getD (-1)

def fixed : Bytes :=
  putInt 2 h.apiKey ++ putInt 2 h.apiVersion ++ putInt 4 h.correlationID ++ putInt 2 h.clientIDLen

def frame (body : Bytes) : Bytes := h.fixed ++ (h.clientID.getD [] ++ (h.tags ++ body))

def encode (body : Bytes) : Bytes := putInt 4 (h.frame body).length ++ h.frame body

end SentHeader

theorem putInt_length (width : Nat) (value : Int) : (putInt width value).length = width :=
  putUintBE_length _ _

theorem putInt_bmod (width : Nat) (value : Int) :
    (uintBE (putInt width value) : Int).bmod (256 ^ width) = value.bmod (256 ^ width) := by
  have positive : (0 : Int) < 256 ^ width := by positivity
  have low := Int.emod_nonneg value positive.ne'
  have high := Int.emod_lt_of_pos value positive
  rw [putInt, uintBE_putUintBE, Nat.mod_eq_of_lt (by zify; omega), Int.toNat_of_nonneg low]
  exact_mod_cast Int.emod_bmod value (256 ^ width)

theorem int32_putInt {value : Int} (low : -(2 ^ 31) ≤ value) (high : value < 2 ^ 31) :
    int32 (uintBE (putInt 4 value)) = value :=
  (putInt_bmod 4 value).trans (Int.bmod_eq_of_le (by omega) (by omega))

theorem int16_putInt {value : Int} (low : -(2 ^ 15) ≤ value) (high : value < 2 ^ 15) :
    int16 (uintBE (putInt 2 value)) = value :=
  (putInt_bmod 2 value).trans (Int.bmod_eq_of_le (by omega) (by omega))

theorem slice_middle (front part back : Bytes) :
    slice (front ++ (part ++ back)) front.length (front.length + part.length) = part := by
  simp [slice, List.take_append]

section Sent

variable {isFlexibleRequest : Int → Int → Bool} (h : SentHeader isFlexibleRequest) (body : Bytes)

theorem fixed_length : h.fixed.length = 10 := by
  simp [SentHeader.fixed, putInt_length]

theorem frame_length : (h.frame body).length =
    10 + (h.clientID.getD []).length + h.tags.length + body.length := by
  simp only [SentHeader.frame, List.length_append, fixed_length, Nat.add_assoc]

theorem clientIDLen_toNat : h.clientIDLen.toNat = (h.clientID.getD []).length := by
  rw [SentHeader.clientIDLen]
  cases h.clientID <;> simp

theorem clientIDLen_range : -1 ≤ h.clientIDLen ∧ h.clientIDLen < 2 ^ 15 := by
  rw [SentHeader.clientIDLen]
  cases known : h.clientID with
  | none => simp
  | some id =>
    have short := h.client_short id known
    simp only [Option.map_some, Option.getD_some]
    omega

theorem clientIDEnd_frame : clientIDEnd (h.frame body) = 10 + (h.clientID.getD []).length := by
  have range := clientIDLen_range h
  have field : slice (h.frame body) 8 10 = putInt 2 h.clientIDLen := by
    simpa [SentHeader.frame, SentHeader.fixed, putInt_length] using
      slice_middle (putInt 2 h.apiKey ++ putInt 2 h.apiVersion ++ putInt 4 h.correlationID)
        (putInt 2 h.clientIDLen) (h.clientID.getD [] ++ (h.tags ++ body))
  rw [clientIDEnd, field, int16_putInt (by omega) range.2, clientIDLen_toNat]

theorem parseHeader_frame : parseHeader (h.frame body) = h.header := by
  have key := slice_middle [] (putInt 2 h.apiKey) (putInt 2 h.apiVersion ++
    (putInt 4 h.correlationID ++ (putInt 2 h.clientIDLen ++ (h.clientID.getD [] ++ (h.tags ++ body)))))
  have version := slice_middle (putInt 2 h.apiKey) (putInt 2 h.apiVersion)
    (putInt 4 h.correlationID ++ (putInt 2 h.clientIDLen ++ (h.clientID.getD [] ++ (h.tags ++ body))))
  have correlation := slice_middle (putInt 2 h.apiKey ++ putInt 2 h.apiVersion)
    (putInt 4 h.correlationID) (putInt 2 h.clientIDLen ++ (h.clientID.getD [] ++ (h.tags ++ body)))
  have client := slice_middle h.fixed (h.clientID.getD []) (h.tags ++ body)
  rw [fixed_length, ← clientIDEnd_frame h body, ← SentHeader.frame] at client
  simp only [List.nil_append, List.length_nil, List.length_append, putInt_length, List.append_assoc,
    Nat.zero_add, Nat.reduceAdd] at key version correlation
  have flat : h.frame body = putInt 2 h.apiKey ++ (putInt 2 h.apiVersion ++
      (putInt 4 h.correlationID ++ (putInt 2 h.clientIDLen ++
        (h.clientID.getD [] ++ (h.tags ++ body))))) := by
    simp only [SentHeader.frame, SentHeader.fixed, List.append_assoc]
  rw [parseHeader, client, flat, key, version, correlation, int16_putInt h.key_range.1 h.key_range.2,
    int16_putInt h.version_range.1 h.version_range.2, int32_putInt h.correlation_range.1 h.correlation_range.2]
  rfl

theorem sliceFrom_nat {b : Bytes} {off : Nat} (inside : off ≤ b.length) :
    sliceFrom b off = .ok (b.drop off) := by
  rw [sliceFrom, if_pos (by omega), Int.toNat_natCast]

theorem headerTags_frame (small : (h.frame body).length < 2 ^ 63) :
    headerTags isFlexibleRequest h.header (h.frame body) = .ok (h.tags.length : Int) := by
  have tagged : if isFlexibleRequest h.header.apiKey h.header.apiVersion then IsTaggedSection h.tags
      else h.tags = [] := h.tagged
  rw [headerTags]
  split
  · next flexible =>
      rw [if_pos flexible] at tagged
      have after : (h.frame body).drop (clientIDEnd (h.frame body)) = h.tags ++ body := by
        rw [clientIDEnd_frame, ← fixed_length h, SentHeader.frame, ← List.append_assoc,
          ← List.length_append, List.drop_left]
      have inside : clientIDEnd (h.frame body) ≤ (h.frame body).length := by
        rw [clientIDEnd_frame, frame_length]
        omega
      have short : (h.tags ++ body).length < 2 ^ 63 := by
        rw [← after, List.length_drop]
        omega
      rw [sliceFrom_nat inside, ok_bind, after, skipTaggedFields_section tagged body short]
  · next rigid =>
      rw [if_neg rigid] at tagged
      rw [tagged, List.length_nil]
      rfl

theorem parseFrame_frame (small : (h.frame body).length < 2 ^ 63) :
    parseFrame isFlexibleRequest (h.frame body) = .ok (h.header, body) := by
  have length := frame_length h body
  have rest : sliceFrom (h.frame body) (clientIDEnd (h.frame body) + h.tags.length : Int) =
      .ok body := by
    have inside : clientIDEnd (h.frame body) + h.tags.length ≤ (h.frame body).length := by
      rw [clientIDEnd_frame]
      omega
    rw [← Nat.cast_add, sliceFrom_nat inside, clientIDEnd_frame, ← fixed_length h, SentHeader.frame,
      ← List.append_assoc, ← List.append_assoc, ← List.length_append, ← List.length_append,
      List.drop_left]
  have end' := clientIDEnd_frame h body
  rw [parseFrame, if_neg (by omega), if_neg (by omega), if_neg (by omega), parseHeader_frame,
    headerTags_frame h body small, ok_bind, rest]
  rfl

end Sent

theorem readFull_append {front : Bytes} {size : Nat} (length : front.length = size) (rest : Bytes) :
    readFull (front ++ rest) size = .ok (front, rest) := by
  subst length
  rw [readFull, if_pos (by simp), List.take_left, List.drop_left]

theorem readFrame_frame (maxBytes : Int) {frame : Bytes} (rest : Bytes) (some' : 0 < frame.length)
    (short : (frame.length : Int) ≤ maxBytes) (capped : (frame.length : Int) ≤ maxFrameSize) :
    readFrame maxBytes (putInt 4 frame.length ++ frame ++ rest) = .ok frame := by
  have range : (frame.length : Int) < 2 ^ 31 := lt_of_le_of_lt capped (by decide)
  rw [readFrame, List.append_assoc, readFull_append (putInt_length 4 _), ok_bind]
  dsimp only
  rw [int32_putInt (by omega) range, if_neg (by omega), if_neg (by omega), if_neg (by omega),
    Int.toNat_natCast, readFull_append rfl]
  rfl

/-- What is read, if no error is reported, is as much of the stream as the size says. -/
theorem readFrame_cases (maxBytes : Int) (stream : Bytes) :
    (∃ cause, readFrame maxBytes stream = .error (.err cause)) ∨
      ∃ frame, readFrame maxBytes stream = .ok frame ∧ frame <+: stream.drop 4 ∧
        (frame.length : Int) = int32 (uintBE (stream.take 4)) ∧
        (frame.length : Int) ≤ maxFrameSize := by
  rw [readFrame, readFull]
  split
  · rw [ok_bind]
    dsimp only
    generalize int32 (uintBE (stream.take 4)) = size
    split
    · exact .inl ⟨_, rfl⟩
    · next positive =>
        split
        · exact .inl ⟨_, rfl⟩
        · split
          · exact .inl ⟨_, rfl⟩
          · next capped =>
              rw [readFull]
              split
              · next fits =>
                  refine .inr ⟨_, rfl, ?_, ?_⟩
                  · exact List.take_prefix _ _
                  · rw [List.length_take, min_eq_left fits]
                    omega
              · exact .inl ⟨_, rfl⟩
  · exact .inl ⟨_, rfl⟩

theorem headerTags_within (isFlexibleRequest : Int → Int → Bool) (hdr : RequestHeader) {frame : Bytes}
    (small : frame.length < 2 ^ 63) (inside : clientIDEnd frame ≤ frame.length) :
    Within (frame.drop (clientIDEnd frame)) (headerTags isFlexibleRequest hdr frame) := by
  rw [headerTags]
  generalize clientIDEnd frame = last at inside ⊢
  split
  · have short : (frame.drop last).length < 2 ^ 63 := by
      rw [List.length_drop]
      omega
    have scanned := skipTaggedFields_within _ short
    rw [sliceFrom_nat inside, ok_bind]
    split
    · exact nofun
    · exact scanned
  · exact ⟨0, rfl, Nat.zero_le _⟩

theorem parseFrame_cases (isFlexibleRequest : Int → Int → Bool) {frame : Bytes}
    (small : frame.length < 2 ^ 63) :
    (∃ cause, parseFrame isFlexibleRequest frame = .error (.err cause)) ∨
      ∃ hdr body, parseFrame isFlexibleRequest frame = .ok (hdr, body) ∧ body <:+ frame := by
  rw [parseFrame]
  split
  · exact .inl ⟨_, rfl⟩
  · split
    · exact .inl ⟨_, rfl⟩
    · split
      · exact .inl ⟨_, rfl⟩
      · next inside =>
          have scanned := headerTags_within isFlexibleRequest (parseHeader frame) small (by omega)
          cases tags : headerTags isFlexibleRequest (parseHeader frame) frame with
          | error fault =>
            rw [tags] at scanned
            cases fault with
            | panic => exact absurd rfl scanned
            | err cause => exact .inl ⟨cause, rfl⟩
          | ok off =>
            rw [tags] at scanned
            obtain ⟨n, rfl, short⟩ := scanned
            rw [List.length_drop] at short
            rw [ok_bind, ← Nat.cast_add, sliceFrom_nat (by omega)]
            exact .inr ⟨_, _, rfl, List.drop_suffix _ _⟩

/-- A request inside both limits is read as it was sent. From any other stream comes an error, or
a body at the end of the frame. -/
theorem readRequest_decodes (isFlexibleRequest : Int → Int → Bool) (maxBytes : Int) :
    (∀ (h : SentHeader isFlexibleRequest) (body rest : Bytes),
      ((h.frame body).length : Int) ≤ maxBytes → ((h.frame body).length : Int) ≤ maxFrameSize →
        readRequest isFlexibleRequest maxBytes (h.encode body ++ rest) = .ok (h.header, body)) ∧
      ∀ stream, (∃ cause, readRequest isFlexibleRequest maxBytes stream = .error (.err cause)) ∨
        ∃ hdr body frame, readRequest isFlexibleRequest maxBytes stream = .ok (hdr, body) ∧
          body <:+ frame ∧ frame <+: stream.drop 4 ∧
          (frame.length : Int) = int32 (uintBE (stream.take 4)) := by
  refine ⟨fun h body rest short capped => ?_, fun stream => ?_⟩
  · have some' : 0 < (h.frame body).length := by
      rw [frame_length]
      omega
    have small : (h.frame body).length < 2 ^ 63 := by
      rw [maxFrameSize] at capped
      omega
    rw [readRequest, SentHeader.encode, readFrame_frame maxBytes rest some' short capped, ok_bind,
      parseFrame_frame h body small]
  · rw [readRequest]
    rcases readFrame_cases maxBytes stream with ⟨cause, failed⟩ | ⟨frame, read, front, size, capped⟩
    · exact .inl ⟨cause, by rw [failed, error_bind]⟩
    · rw [read, ok_bind]
      rw [maxFrameSize] at capped
      have small : frame.length < 2 ^ 63 := by omega
      rcases parseFrame_cases isFlexibleRequest small with failed | ⟨hdr, body, parsed, last⟩
      · exact .inl failed
      · exact .inr ⟨hdr, body, frame, parsed, last, front, size⟩

def taggedHeader : SentHeader (fun _ version => version ≥ 9) where
  apiKey := 3
  apiVersion := 9
  correlationID := -7
  clientID := none
  tags := [1, 5, 2, 7, 7]
  key_range := by decide
  version_range := by decide
  correlation_range := by decide
  client_short := nofun
  tagged := ⟨[1], 1, [5, 2, 7, 7], rfl, ⟨.last 1 (by decide), by decide, by decide⟩,
    .cons ⟨[5], 5, [2], 2, [7, 7], rfl, ⟨.last 5 (by decide), by decide, by decide⟩,
      ⟨.last 2 (by decide), by decide, by decide⟩, rfl⟩ .nil⟩

theorem tagged_request_read :
    readRequest (fun _ version => version ≥ 9) 100 (taggedHeader.encode [8, 8] ++ [1]) =
      .ok (taggedHeader.header, [8, 8]) :=
  (readRequest_decodes _ 100).1 taggedHeader [8, 8] [1] (by decide) (by decide)

end KafkaWire.Wire
