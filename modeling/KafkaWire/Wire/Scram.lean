import KafkaWire.Lib.Base64
import KafkaWire.Lib.Tables

/-! The SCRAM-SHA-256 server: its credentials and one conversation. Strings are the bytes that come
off the wire, so a name need not be valid UTF-8. -/

namespace KafkaWire.Wire

def text (s : String) : Bytes := s.toUTF8.toList

def comma : UInt8 := 44

structure ScramCrypto where
  hmacSHA256 : Bytes → Bytes → Bytes
  sha256Sum : Bytes → Bytes
  pbkdf2 : Bytes → Bytes → Nat → Nat → Bytes
  hmacSHA256_length : ∀ key msg, (hmacSHA256 key msg).length = 32
  sha256Sum_length : ∀ data, (sha256Sum data).length = 32

def scramIterations : Nat := 4096

def scramHashSize : Nat := 32

def scramSaltLen : Nat := 12

structure ScramCreds where
  salt : Bytes
  iters : Nat
  storedKey : Bytes
  serverKey : Bytes
  deriving DecidableEq, Repr

structure ScramServer where
  users : AList fun _ : Bytes => ScramCreds

section Server

variable (crypto : ScramCrypto)

def deriveSalt (username : Bytes) : Bytes :=
  (crypto.hmacSHA256 (text "kafka-wire-scram-salt-key") username).take scramSaltLen

def deriveCreds (username password : Bytes) : ScramCreds :=
  let salt := deriveSalt crypto username
  let saltedPassword := crypto.pbkdf2 password salt scramIterations scramHashSize
  let clientKey := crypto.hmacSHA256 saltedPassword (text "Client Key")
  { salt := salt
    iters := scramIterations
    storedKey := crypto.sha256Sum clientKey
    serverKey := crypto.hmacSHA256 saltedPassword (text "Server Key") }

end Server

/-- `strings.ReplaceAll`, with the length of the string as fuel. -/
def replaceFrom (old new : Bytes) : Nat → Bytes → Bytes
  | 0, s => s
  | _ + 1, [] => []
  | fuel + 1, c :: rest =>
    if old.isPrefixOf (c :: rest) then new ++ replaceFrom old new fuel ((c :: rest).drop old.length)
    else c :: replaceFrom old new fuel rest

def replaceAll (s old new : Bytes) : Bytes := replaceFrom old new s.length s

def scramDecodeUsername (s : Bytes) : Bytes :=
  replaceAll (replaceAll s (text "=2C") (text ",")) (text "=3D") (text "=")

def hasPrefix (s start : Bytes) : Bool := start.isPrefixOf s

def xorBytes (a b : Bytes) : Bytes :=
  if a.length ≠ b.length then a else List.zipWith (· ^^^ ·) a b

/-- `authMessage` is what client and server have said so far, without the proof. -/
structure ScramConversation where
  server : ScramServer
  step : Nat := 0
  username : Bytes := []
  clientNonce : Bytes := []
  serverNonce : Bytes := []
  creds : Option ScramCreds := none
  authMessage : Bytes := []
  valid : Bool := false

def newScramConversation (server : ScramServer) : ScramConversation := { server := server }

inductive ScramErr
  | tooManySteps
  | unsupportedFlag
  | malformedFirst
  | missingName
  | missingProof
  | nonceMismatch
  | unsupportedBinding (cbind : Bytes)
  | badProof
  | proofLength (length : Nat)
  | panic
  deriving DecidableEq, Repr

structure Noise where
  nonce : Bytes
  salt : Bytes := []
  storedKey : Bytes := []
  serverKey : Bytes := []
  deriving DecidableEq, Repr

abbrev ScramM := EStateM ScramErr ScramConversation

def readFirst (c : ScramConversation) (parts : List Bytes) : ScramConversation :=
  parts.foldl (fun c p =>
    if hasPrefix p (text "n=") then { c with username := scramDecodeUsername (p.drop 2) }
    else if hasPrefix p (text "r=") then { c with clientNonce := p.drop 2 }
    else c) c

def chooseCreds (server : ScramServer) (username : Bytes) (noise : Noise) : ScramCreds :=
  match server.users.lookup username with
  | some creds => creds
  | none => ⟨noise.salt, scramIterations, noise.storedKey, noise.serverKey⟩

def serverFirstMessage (serverNonce : Bytes) (creds : ScramCreds) : Bytes :=
  text "r=" ++ serverNonce ++ text ",s=" ++ Base64.encode true creds.salt ++ text ",i=" ++
    text (toString creds.iters)

def handleClientFirst (msg : Bytes) (noise : Noise) : ScramM (Bytes × Bool) :=
  if !hasPrefix msg (text "n,,") && !hasPrefix msg (text "y,,") then throw .unsupportedFlag
  else
    let bare := msg.drop 3
    let parts := bare.splitOn comma
    if parts.length < 2 then throw .malformedFirst
    else do
      modify fun c => readFirst c parts
      let c ← get
      if c.username = [] ∨ c.clientNonce = [] then throw .missingName
      else
        let creds := chooseCreds c.server c.username noise
        let serverNonce := c.clientNonce ++ Base64.encode false noise.nonce
        let serverFirst := serverFirstMessage serverNonce creds
        set { c with
          creds := some creds
          serverNonce := serverNonce
          authMessage := bare ++ text "," ++ serverFirst
          step := 1 }
        return (serverFirst, false)

structure ClientFinal where
  cbind : Bytes := []
  nonce : Bytes := []
  proofB64 : Bytes := []
  deriving DecidableEq, Repr

def readFinal (parts : List Bytes) : ClientFinal :=
  parts.foldl (fun f p =>
    if hasPrefix p (text "c=") then { f with cbind := p.drop 2 }
    else if hasPrefix p (text "r=") then { f with nonce := p.drop 2 }
    else if hasPrefix p (text "p=") then { f with proofB64 := p.drop 2 }
    else f) {}

def ClientFinal.withoutProof (f : ClientFinal) : Bytes :=
  text "c=" ++ f.cbind ++ text ",r=" ++ f.nonce

/-- The credential is a nil pointer until a client-first message was accepted. The message goes into
`authMessage` before its proof is decoded. -/
def handleClientFinal (crypto : ScramCrypto) (msg : Bytes) : ScramM (Bytes × Bool) := do
  let f := readFinal (msg.splitOn comma)
  let before ← get
  if f.proofB64 = [] then throw .missingProof
  else if f.nonce ≠ before.serverNonce then throw .nonceMismatch
  else if f.cbind ≠ text "biws" ∧ f.cbind ≠ text "eSws" then throw (.unsupportedBinding f.cbind)
  else
    let authMessage := before.authMessage ++ text "," ++ f.withoutProof
    set { before with authMessage := authMessage }
    match before.creds with
    | none => throw .panic
    | some creds =>
      let clientSignature := crypto.hmacSHA256 creds.storedKey authMessage
      match Base64.decode f.proofB64 with
      | none => throw .badProof
      | some clientProof =>
        if clientProof.length ≠ scramHashSize then throw (.proofLength clientProof.length)
        else
          let clientKey := xorBytes clientProof clientSignature
          if crypto.sha256Sum clientKey ≠ creds.storedKey then
            modify fun c => { c with step := 2, valid := false }
            return (text "e=invalid-proof", true)
          else
            modify fun c => { c with step := 2, valid := true }
            let serverSignature := crypto.hmacSHA256 creds.serverKey authMessage
            return (text "v=" ++ Base64.encode true serverSignature, true)

def doStep (crypto : ScramCrypto) (msg : Bytes) (noise : Noise) : ScramM (Bytes × Bool) := do
  match (← get).step with
  | 0 => handleClientFirst msg noise
  | 1 => handleClientFinal crypto msg
  | _ => throw .tooManySteps

section Accepting

variable {c : ScramConversation} {msg : Bytes}

def opened (c : ScramConversation) (msg : Bytes) (noise : Noise) : ScramConversation :=
  let c := readFirst c ((msg.drop 3).splitOn comma)
  let creds := chooseCreds c.server c.username noise
  let serverNonce := c.clientNonce ++ Base64.encode false noise.nonce
  { c with
    creds := some creds
    serverNonce := serverNonce
    authMessage := msg.drop 3 ++ text "," ++ serverFirstMessage serverNonce creds
    step := 1 }

end Accepting

end KafkaWire.Wire
