import KafkaWire.Broker.Acl
import KafkaWire.Wire.Scram

/-! The SASL handlers of a connection, and the gate in front of the other requests. -/

namespace KafkaWire.Wire

open Broker Programs

def errCodeUnsupportedSaslMech : Int := 33
def errCodeSaslAuthFailed : Int := 58

/-- The dispatcher of a broker with SASL. Without a readable users file it has no credentials. -/
structure SaslDispatcher where
  crypto : ScramCrypto
  scram : Option ScramServer

structure ConnState where
  saslComplete : Bool
  saslMechanism : String := ""
  saslPrincipal : Bytes := []
  tenantID : String := ""
  saslState : Option ScramConversation := none

/-- `saslComplete` is `!d.cfg.SaslEnabled` for a new connection. -/
def connStart : ConnState := { saslComplete := false }

inductive SaslRequest
  | apiVersions
  | handshake (mechanism : String)
  | authenticate (authBytes : Bytes)
  | other (apiKey : Int)
  deriving DecidableEq, Repr

/-- A request, whether its body can be parsed and its response be written, the random bytes that it
draws and the grants that it finds. -/
structure ConnEvent where
  request : SaslRequest
  readable : Bool := true
  written : Bool := true
  noise : Noise := { nonce := [] }
  acl : Option ACLStore := none

inductive SaslMessage
  | handshakeFirst
  | scram (cause : ScramErr)
  deriving DecidableEq, Repr

inductive SaslReply
  | apiVersions
  | handshake (errorCode : Int)
  | authenticate (errorCode : Int) (message : Option SaslMessage) (authBytes : Bytes)
  | other (apiKey : Int)
  deriving DecidableEq, Repr

def SaslReply.authBytes : SaslReply → Option Bytes
  | .authenticate _ _ authBytes => some authBytes
  | _ => none

def tenantOf (acl : ACLStore) (principal : Bytes) : String :=
  if principal = [] then ""
  else
    match acl.entries.find? fun entry => text entry.1 = principal with
    | none => ""
    | some entry => entry.2.tenantID.getD ""

def handleSASLHandshake (d : SaslDispatcher) (s : ConnState) (mechanism : String) :
    ConnState × SaslReply :=
  if mechanism ≠ "SCRAM-SHA-256" then (s, .handshake errCodeUnsupportedSaslMech)
  else
    match d.scram with
    | none => (s, .handshake errCodeSaslAuthFailed)
    | some server =>
      ({ s with saslMechanism := mechanism, saslState := some (newScramConversation server) },
        .handshake 0)

def finish (s : ConnState) (acl : Option ACLStore) (username : Bytes) : ConnState :=
  { s with
    saslComplete := true
    saslPrincipal := username
    tenantID := (acl.map fun store => tenantOf store username).getD s.tenantID }

def handleSASLAuthenticate (d : SaslDispatcher) (s : ConnState) (authBytes : Bytes) (noise : Noise)
    (acl : Option ACLStore) : ConnState × SaslReply :=
  match s.saslState with
  | none => (s, .authenticate errCodeSaslAuthFailed (some .handshakeFirst) [])
  | some conv =>
    match doStep d.crypto authBytes noise conv with
    | .error err conv' =>
      ({ s with saslState := some conv' }, .authenticate errCodeSaslAuthFailed (some (.scram err)) [])
    | .ok (out, done) conv' =>
      let next := { s with saslState := some conv' }
      if done then
        if conv'.valid then (finish next acl conv'.username, .authenticate 0 none out)
        else (next, .authenticate errCodeSaslAuthFailed none out)
      else (next, .authenticate 0 none out)

/-- A request that is served, or an error that closes the connection. What the other requests do
does not touch the state of the connection. -/
def handle (d : SaslDispatcher) (s : ConnState) (e : ConnEvent) : Option (ConnState × SaslReply) :=
  match e.request with
  | .other apiKey =>
    if s.saslComplete ∧ e.readable ∧ e.written then some (s, .other apiKey) else none
  | .apiVersions => if e.readable ∧ e.written then some (s, .apiVersions) else none
  | .handshake mechanism =>
    if e.readable ∧ e.written then some (handleSASLHandshake d s mechanism) else none
  | .authenticate authBytes =>
    if e.readable ∧ e.written then some (handleSASLAuthenticate d s authBytes e.noise e.acl)
    else none

def serveConn (d : SaslDispatcher) (s : ConnState) : List ConnEvent → Option ConnState
  | [] => some s
  | e :: rest =>
    match handle d s e with
    | none => none
    | some (s', _) => serveConn d s' rest

section Authenticating

variable {d : SaslDispatcher} {s : ConnState} {conv conv' : ScramConversation} {authBytes out : Bytes}
  {noise : Noise}

end Authenticating

end KafkaWire.Wire
