import KafkaWire.Wire.Sasl

/-! A client that follows RFC 5802, and its conversation with the server. -/

namespace KafkaWire.Wire

open Programs

variable {key nonce : Bytes} {server : ScramServer}

/-- The gs2 flag of a client without channel binding: it has none, or the server is thought to. -/
inductive BindingFlag
  | n
  | y
  deriving DecidableEq, Repr

def BindingFlag.header : BindingFlag → Bytes
  | .n => text "n,,"
  | .y => text "y,,"

structure ScramClient where
  normalize : Bytes → Bytes
  username : Bytes
  password : Bytes
  nonce : Bytes
  flag : BindingFlag

/-- A `saslname`: commas and equals signs are written as their codes. -/
def saslChar (c : UInt8) : Bytes :=
  if c = 61 then text "=3D" else if c = 44 then text "=2C" else [c]

def saslName (name : Bytes) : Bytes := name.flatMap saslChar

def parseDecimal (digits : Bytes) : Nat :=
  digits.foldl (fun total digit => total * 10 + (digit.toNat - 48)) 0

structure ServerFirst where
  nonce : Bytes
  salt : Bytes
  iterations : Nat
  deriving DecidableEq, Repr

/-- `r=`, `s=` and `i=`, in this order. -/
def parseServerFirst (msg : Bytes) : Option ServerFirst :=
  match msg.splitOn comma with
  | [r, s, i] =>
    if hasPrefix r (text "r=") ∧ hasPrefix s (text "s=") ∧ hasPrefix i (text "i=") then
      (Base64.decode (s.drop 2)).map fun salt => ⟨r.drop 2, salt, parseDecimal (i.drop 2)⟩
    else none
  | _ => none

namespace ScramClient

variable (crypto : ScramCrypto) (client : ScramClient)

def firstBare : Bytes := text "n=" ++ saslName client.username ++ text ",r=" ++ client.nonce

def first : Bytes := client.flag.header ++ client.firstBare

def finalWithoutProof (nonce : Bytes) : Bytes :=
  text "c=" ++ Base64.encode true client.flag.header ++ text ",r=" ++ nonce

def authMessage (serverFirst nonce : Bytes) : Bytes :=
  client.firstBare ++ text "," ++ serverFirst ++ text "," ++ client.finalWithoutProof nonce

def saltedPassword (s : ServerFirst) : Bytes :=
  crypto.pbkdf2 (client.normalize client.password) s.salt s.iterations 32

def clientProof (serverFirst : Bytes) (s : ServerFirst) : Bytes :=
  let clientKey := crypto.hmacSHA256 (client.saltedPassword crypto s) (text "Client Key")
  let storedKey := crypto.sha256Sum clientKey
  let clientSignature := crypto.hmacSHA256 storedKey (client.authMessage serverFirst s.nonce)
  List.zipWith (· ^^^ ·) clientKey clientSignature

def serverSignature (serverFirst : Bytes) (s : ServerFirst) : Bytes :=
  let serverKey := crypto.hmacSHA256 (client.saltedPassword crypto s) (text "Server Key")
  crypto.hmacSHA256 serverKey (client.authMessage serverFirst s.nonce)

def final (serverFirst : Bytes) : Option Bytes := do
  let s ← parseServerFirst serverFirst
  if client.nonce.isPrefixOf s.nonce then
    return client.finalWithoutProof s.nonce ++ text ",p=" ++
      Base64.encode true (client.clientProof crypto serverFirst s)
  else none

end ScramClient

section Names

end Names

section Messages

def Keyed (key : Bytes) : Prop := key.length = 2 ∧ comma ∉ key

end Messages

section Conversation

variable (crypto : ScramCrypto) {client : ScramClient}

def answered (client : ScramClient) (server : ScramServer) (creds : ScramCreds) (nonce : Bytes) :
    ScramConversation where
  server := server
  step := 1
  username := client.username
  clientNonce := client.nonce
  serverNonce := nonce
  creds := some creds
  authMessage := client.firstBare ++ text "," ++ serverFirstMessage nonce creds

end Conversation

def toyCrypto : ScramCrypto where
  hmacSHA256 key msg := (msg ++ key ++ List.replicate 32 0).take 32
  sha256Sum data := (data ++ List.replicate 32 1).take 32
  pbkdf2 password salt _ _ := password ++ salt
  hmacSHA256_length key msg := by simp; omega
  sha256Sum_length data := by simp

def toyClient : ScramClient :=
  ⟨fun password => password, text "a,b=c", text "secret", text "nonce", .y⟩

def toyServer : ScramServer :=
  ⟨AList.insert (text "a,b=c") (deriveCreds toyCrypto (text "a,b=c") (text "secret")) ∅⟩

end KafkaWire.Wire
