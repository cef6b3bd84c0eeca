import KafkaWire.Wire.ScramClient

/-! Who a connection is authenticated as. The client chooses every message, may abandon
conversations and may go on after an error. -/

namespace KafkaWire.Wire

open Broker Programs

abbrev Turn := Bytes × Noise

def conversationOf {α : Type} : EStateM.Result ScramErr ScramConversation α → ScramConversation
  | .ok _ c => c
  | .error _ c => c

def converse (crypto : ScramCrypto) (server : ScramServer) (turns : List Turn) : ScramConversation :=
  turns.foldl (fun c turn => conversationOf (doStep crypto turn.1 turn.2 c))
    (newScramConversation server)

def readTurn (msg : Bytes) : ClientFinal := readFinal (msg.splitOn comma)

def ClientFinal.Answers (serverNonce : Bytes) (f : ClientFinal) : Prop :=
  f.proofB64 ≠ [] ∧ f.nonce = serverNonce ∧ (f.cbind = text "biws" ∨ f.cbind = text "eSws")

instance (serverNonce : Bytes) (f : ClientFinal) : Decidable (f.Answers serverNonce) :=
  inferInstanceAs (Decidable (_ ∧ _ ∧ _))

def spoken (serverNonce msg : Bytes) : Bytes :=
  if (readTurn msg).Answers serverNonce then text "," ++ (readTurn msg).withoutProof else []

section Steps

variable {c : ScramConversation}

theorem readFirst_frame (c : ScramConversation) (parts : List Bytes) :
    ∃ username clientNonce, readFirst c parts =
      { c with username := username, clientNonce := clientNonce } := by
  induction parts generalizing c with
  | nil => exact ⟨c.username, c.clientNonce, rfl⟩
  | cons part parts ih =>
    rw [readFirst, List.foldl_cons, ← readFirst]
    split
    · obtain ⟨username, clientNonce, same⟩ := ih { c with username := scramDecodeUsername (part.drop 2) }
      exact ⟨username, clientNonce, same⟩
    · split
      · obtain ⟨username, clientNonce, same⟩ := ih { c with clientNonce := part.drop 2 }
        exact ⟨username, clientNonce, same⟩
      · exact ih c

theorem handleClientFirst_spec (msg : Bytes) (noise : Noise) :
    Yields (handleClientFirst msg noise) c
      (fun reply c' =>
        let creds := chooseCreds c.server c'.username noise
        c'.server = c.server ∧ c'.step = 1 ∧ c'.creds = some creds ∧
          c'.authMessage = msg.drop 3 ++ text "," ++ serverFirstMessage c'.serverNonce creds ∧
          reply = (serverFirstMessage c'.serverNonce creds, false))
      (fun _ c' => ∃ username clientNonce,
        c' = { c with username := username, clientNonce := clientNonce }) := by
  have unchanged : ∃ username clientNonce,
      c = { c with username := username, clientNonce := clientNonce } :=
    ⟨c.username, c.clientNonce, rfl⟩
  obtain ⟨username, clientNonce, read⟩ := readFirst_frame c ((msg.drop 3).splitOn comma)
  rw [handleClientFirst]
  split
  · exact unchanged
  · dsimp only
    split
    · exact unchanged
    · simp only [yields_bind, yields_modify, yields_get]
      split
      · exact ⟨username, clientNonce, read⟩
      · simp only [read]
        exact ⟨rfl, rfl, rfl, rfl, rfl⟩

def ClientFinal.Proves (crypto : ScramCrypto) (creds : ScramCreds) (authMessage : Bytes)
    (f : ClientFinal) : Prop :=
  ∃ proof, Base64.decode f.proofB64 = some proof ∧ proof.length = scramHashSize ∧
    crypto.sha256Sum (xorBytes proof (crypto.hmacSHA256 creds.storedKey authMessage)) =
      creds.storedKey

theorem handleClientFinal_spec (crypto : ScramCrypto) (msg : Bytes) :
    Yields (handleClientFinal crypto msg) c
      (fun reply c' => reply.2 = true ∧ c'.step = 2 ∧ c'.server = c.server ∧
        c'.username = c.username ∧ (c'.valid = true →
          (readTurn msg).Answers c.serverNonce ∧ ∃ creds, c.creds = some creds ∧
            (readTurn msg).Proves crypto creds
              (c.authMessage ++ text "," ++ (readTurn msg).withoutProof)))
      (fun _ c' => c' = { c with authMessage := c.authMessage ++ spoken c.serverNonce msg }) := by
  have silent (refused : ¬ (readTurn msg).Answers c.serverNonce) :
      c = { c with authMessage := c.authMessage ++ spoken c.serverNonce msg } := by
    rw [spoken, if_neg refused, List.append_nil]
  simp only [handleClientFinal, yields_bind, yields_get]
  split
  · next none' => exact silent fun answers => answers.1 none'
  · next proven =>
      split
      · next other => exact silent fun answers => other answers.2.1
      · next nonce =>
          split
          · next unbound => exact silent fun answers => answers.2.2.elim unbound.1 unbound.2
          · next bound =>
              have answers : (readTurn msg).Answers c.serverNonce :=
                ⟨proven, not_not.mp nonce, by
                  rcases not_and_or.mp bound with n | y
                  · exact .inl (not_not.mp n)
                  · exact .inr (not_not.mp y)⟩
              have said : { c with authMessage := c.authMessage ++ text "," ++
                    (readTurn msg).withoutProof } =
                  { c with authMessage := c.authMessage ++ spoken c.serverNonce msg } := by
                rw [spoken, if_pos answers, List.append_assoc]
              simp only [yields_bind, yields_set]
              split
              · exact said
              · next creds known =>
                  split
                  · exact said
                  · next proof decoded =>
                      split
                      · exact said
                      · next size =>
                          split
                          · exact ⟨rfl, rfl, rfl, rfl, by simp⟩
                          · next fits =>
                              exact ⟨rfl, rfl, rfl, rfl, fun _ => ⟨answers, creds, known, proof,
                                decoded, not_not.mp size, not_not.mp fits⟩⟩

end Steps

section Conversations

variable (crypto : ScramCrypto) (server : ScramServer)

def Issued (early : List Turn) (first : Turn) (u serverFirst : Bytes) : Prop :=
  ∃ c, doStep crypto first.1 first.2 (converse crypto server early) = .ok (serverFirst, false) c ∧
    c.username = u

/-- `c` waits for a proof. Its credential was chosen for its name at the client-first message, and
what it has heard and said since is in `authMessage`. -/
def Waiting (turns : List Turn) (c : ScramConversation) : Prop :=
  ∃ early first middle, turns = early ++ first :: middle ∧
    c.creds = some (chooseCreds server c.username first.2) ∧
    Issued crypto server early first c.username
      (serverFirstMessage c.serverNonce (chooseCreds server c.username first.2)) ∧
    c.authMessage = first.1.drop 3 ++ text "," ++
      serverFirstMessage c.serverNonce (chooseCreds server c.username first.2) ++
      (middle.map fun turn => spoken c.serverNonce turn.1).flatten

/-- The messages of a conversation that ends with a proof for the name `u`: the nonce in the last
message is the one that the server issued, and the proof fits the credential chosen for `u`, over the
messages of this conversation. -/
def Proven (turns : List Turn) (u : Bytes) : Prop :=
  ∃ (early middle : List Turn) (first final : Turn) (serverNonce : Bytes),
    let creds := chooseCreds server u first.2
    let serverFirst := serverFirstMessage serverNonce creds
    let f := readTurn final.1
    turns = early ++ first :: middle ++ [final] ∧ Issued crypto server early first u serverFirst ∧
    f.nonce = serverNonce ∧
    f.Proves crypto creds (first.1.drop 3 ++ text "," ++ serverFirst ++
      (middle.map fun turn => spoken serverNonce turn.1).flatten ++ text "," ++ f.withoutProof)

theorem converse_concat (turns : List Turn) (turn : Turn) :
    converse crypto server (turns ++ [turn]) =
      conversationOf (doStep crypto turn.1 turn.2 (converse crypto server turns)) := by
  rw [converse, List.foldl_append]
  rfl

theorem doStep_first {c : ScramConversation} (fresh : c.step = 0) (msg : Bytes) (noise : Noise) :
    doStep crypto msg noise c = handleClientFirst msg noise c := by
  cases c
  cases fresh
  rfl

theorem doStep_final {c : ScramConversation} (waiting : c.step = 1) (msg : Bytes) (noise : Noise) :
    doStep crypto msg noise c = handleClientFinal crypto msg c := by
  cases c
  cases waiting
  rfl

theorem doStep_ended {c : ScramConversation} (ended : c.step = 2) (msg : Bytes) (noise : Noise) :
    doStep crypto msg noise c = .error .tooManySteps c := by
  cases c
  cases ended
  rfl

theorem converse_state (turns : List Turn) :
    (converse crypto server turns).server = server ∧
      ((converse crypto server turns).step = 0 ∨
        (converse crypto server turns).step = 1 ∧
          Waiting crypto server turns (converse crypto server turns) ∨
        (converse crypto server turns).step = 2) := by
  induction turns using List.reverseRecOn with
  | nil => exact ⟨rfl, .inl rfl⟩
  | append_singleton turns turn ih =>
    obtain ⟨same, fresh | ⟨waiting, state⟩ | ended⟩ := ih
    · rw [converse_concat, doStep_first crypto fresh]
      have spec := handleClientFirst_spec (c := converse crypto server turns) turn.1 turn.2
      cases ran : handleClientFirst turn.1 turn.2 (converse crypto server turns) with
      | ok reply c =>
        obtain ⟨server', waiting, creds, auth, answer⟩ := spec.of_ok ran
        rw [same] at creds auth answer
        refine ⟨server'.trans same, .inr (.inl ⟨waiting, turns, turn, [], rfl, creds, ⟨c, ?_, rfl⟩,
          auth.trans (List.append_nil _).symm⟩)⟩
        rw [doStep_first crypto fresh, ran, answer]
        rfl
      | error err c =>
        obtain ⟨username, clientNonce, rfl⟩ := spec.of_error ran
        exact ⟨same, .inl fresh⟩
    · rw [converse_concat, doStep_final crypto waiting]
      have spec := handleClientFinal_spec (c := converse crypto server turns) crypto turn.1
      cases ran : handleClientFinal crypto turn.1 (converse crypto server turns) with
      | ok reply c =>
        obtain ⟨-, ended, server', -⟩ := spec.of_ok ran
        exact ⟨server'.trans same, .inr (.inr ended)⟩
      | error err c =>
        obtain rfl := spec.of_error ran
        refine ⟨same, .inr (.inl ⟨waiting, ?_⟩)⟩
        obtain ⟨early, first, middle, rfl, creds, issued, auth⟩ := state
        refine ⟨early, first, middle ++ [turn], by simp, creds, issued, ?_⟩
        simp only [conversationOf, List.map_append, List.flatten_append, List.map_cons,
          List.map_nil, List.flatten_singleton]
        rw [auth, List.append_assoc]
    · rw [converse_concat, doStep_ended crypto ended]
      exact ⟨same, .inr (.inr ended)⟩

theorem converse_proven {turns : List Turn} {turn : Turn} {out : Bytes} {c : ScramConversation}
    (ran : doStep crypto turn.1 turn.2 (converse crypto server turns) = .ok (out, true) c)
    (valid : c.valid = true) : Proven crypto server (turns ++ [turn]) c.username := by
  obtain ⟨same, fresh | ⟨waiting, state⟩ | ended⟩ := converse_state crypto server turns
  · rw [doStep_first crypto fresh] at ran
    obtain ⟨-, -, -, -, answer⟩ := (handleClientFirst_spec turn.1 turn.2).of_ok ran
    cases (Prod.mk.inj answer).2
  · rw [doStep_final crypto waiting] at ran
    obtain ⟨-, -, -, named, proof⟩ := (handleClientFinal_spec crypto turn.1).of_ok ran
    obtain ⟨answers, creds, known, proves⟩ := proof valid
    obtain ⟨early, first, middle, rfl, chosen, issued, auth⟩ := state
    obtain rfl := Option.some.inj (known.symm.trans chosen)
    rw [auth] at proves
    rw [named]
    exact ⟨early, middle, first, turn, _, rfl, issued, answers.2.1, proves⟩
  · rw [doStep_ended crypto ended] at ran
    cases ran

end Conversations

section Connections

variable (d : SaslDispatcher)

def ConnEvent.Restarts (e : ConnEvent) : Prop :=
  e.request = .handshake "SCRAM-SHA-256" ∧ d.scram.isSome = true

def ConnEvent.turn (e : ConnEvent) : Option Turn :=
  match e.request with
  | .authenticate authBytes => some (authBytes, e.noise)
  | _ => none

def Finishes (s : ConnState) (e : ConnEvent) : Prop :=
  ∃ turn conv out conv', e.turn = some turn ∧ s.saslState = some conv ∧
    doStep d.crypto turn.1 turn.2 conv = .ok (out, true) conv' ∧ conv'.valid = true

def Conversing (events : List ConnEvent) (s : ConnState) : Prop :=
  ∀ conv, s.saslState = some conv → ∃ server before start after, d.scram = some server ∧
    events = before ++ start :: after ∧ start.Restarts d ∧ (∀ e ∈ after, ¬ e.Restarts d) ∧
    conv = converse d.crypto server (after.filterMap ConnEvent.turn)

def LastSuccess (events : List ConnEvent) (u : Bytes) : Prop :=
  ∃ server before start middle final after, d.scram = some server ∧
    events = before ++ start :: middle ++ final :: after ∧ start.Restarts d ∧
    (∀ e ∈ middle, ¬ e.Restarts d) ∧
    Proven d.crypto server ((middle ++ [final]).filterMap ConnEvent.turn) u ∧
    ∀ front e back s, after = front ++ e :: back →
      serveConn d connStart (before ++ start :: middle ++ final :: front) = some s → ¬ Finishes d s e

theorem serveConn_append (s : ConnState) (front back : List ConnEvent) :
    serveConn d s (front ++ back) = (serveConn d s front).bind fun s' => serveConn d s' back := by
  induction front generalizing s with
  | nil => rfl
  | cons first front ih =>
    rw [List.cons_append, serveConn, serveConn]
    cases handle d s first with
    | none => rfl
    | some next => exact ih next.1

theorem serveConn_cons {s s' : ConnState} {e : ConnEvent} {rest : List ConnEvent}
    (served : serveConn d s (e :: rest) = some s') :
    ∃ next reply, handle d s e = some (next, reply) ∧ serveConn d next rest = some s' := by
  rw [serveConn] at served
  cases handled : handle d s e with
  | none =>
    rw [handled] at served
    cases served
  | some next =>
    rw [handled] at served
    exact ⟨next.1, next.2, rfl, served⟩

inductive Handled (s : ConnState) (e : ConnEvent) : ConnState → Prop
  | idle (restarts : ¬ e.Restarts d) (silent : e.turn = none ∨ s.saslState = none)
      (gate : ∀ apiKey, e.request = .other apiKey → s.saslComplete = true) : Handled s e s
  | restarted (server : ScramServer) (mechanism : String) (restarts : e.Restarts d)
      (serving : d.scram = some server) :
      Handled s e { s with
        saslMechanism := mechanism, saslState := some (newScramConversation server) }
  | spoke (turn : Turn) (conv : ScramConversation) (said : e.turn = some turn)
      (state : s.saslState = some conv) (unfinished : ¬ Finishes d s e) :
      Handled s e { s with
        saslState := some (conversationOf (doStep d.crypto turn.1 turn.2 conv)) }
  | finished (turn : Turn) (conv : ScramConversation) (out : Bytes) (conv' : ScramConversation)
      (said : e.turn = some turn) (state : s.saslState = some conv)
      (ran : doStep d.crypto turn.1 turn.2 conv = .ok (out, true) conv') (valid : conv'.valid = true) :
      Handled s e (finish { s with saslState := some conv' } e.acl conv'.username)

variable {d}

theorem turn_authenticate {e : ConnEvent} {authBytes : Bytes}
    (request : e.request = .authenticate authBytes) : e.turn = some (authBytes, e.noise) := by
  rw [ConnEvent.turn, request]

theorem authenticate_handled {s : ConnState} {e : ConnEvent} {authBytes : Bytes}
    (request : e.request = .authenticate authBytes) :
    Handled d s e (handleSASLAuthenticate d s authBytes e.noise e.acl).1 := by
  have said := turn_authenticate request
  have calm : ¬ e.Restarts d := by
    rintro ⟨handshake, -⟩
    rw [request] at handshake
    cases handshake
  cases state : s.saslState with
  | none =>
    rw [handleSASLAuthenticate, state]
    refine .idle calm (.inr state) fun apiKey other => ?_
    rw [request] at other
    cases other
  | some conv =>
    -- Only an answer that ends the conversation with a valid proof finishes it.
    have unfinished (quiet : ∀ out conv', doStep d.crypto authBytes e.noise conv =
        .ok (out, true) conv' → conv'.valid ≠ true) : ¬ Finishes d s e := by
      rintro ⟨turn, conv', out, after, said', state', ran, valid⟩
      obtain rfl := Option.some.inj (said.symm.trans said')
      obtain rfl := Option.some.inj (state.symm.trans state')
      exact quiet out after ran valid
    have spoke := Handled.spoke (d := d) (s := s) (e := e) _ conv said state
    rw [handleSASLAuthenticate, state]
    dsimp only
    rcases ran : doStep d.crypto authBytes e.noise conv with ⟨⟨out, done⟩, conv'⟩ | ⟨err, conv'⟩
    · rw [ran] at spoke unfinished
      dsimp only
      cases done with
      | false => exact spoke (unfinished (by rintro _ _ ⟨⟩))
      | true =>
        cases valid : conv'.valid with
        | false =>
          refine spoke (unfinished ?_)
          rintro _ _ ⟨⟩
          simp [valid]
        | true => exact .finished _ conv out conv' said state ran valid
    · rw [ran] at spoke unfinished
      exact spoke (unfinished (by rintro _ _ ⟨⟩))

theorem handshake_handled {s : ConnState} {e : ConnEvent} {mechanism : String}
    (request : e.request = .handshake mechanism) :
    Handled d s e (handleSASLHandshake d s mechanism).1 := by
  have silent : e.turn = none := by rw [ConnEvent.turn, request]
  have idle (refused : ¬ e.Restarts d) : Handled d s e s := by
    refine .idle refused (.inl silent) fun apiKey other => ?_
    rw [request] at other
    cases other
  rw [handleSASLHandshake]
  split
  · next unsupported =>
      refine idle ?_
      rintro ⟨same, -⟩
      rw [request] at same
      exact unsupported (SaslRequest.handshake.inj same)
  · next supported =>
      split
      · next absent =>
          refine idle ?_
          rintro ⟨-, present⟩
          rw [absent] at present
          cases present
      · next server present =>
          refine .restarted server mechanism ⟨?_, by rw [present]; rfl⟩ present
          rw [request, not_not.mp supported]

theorem handle_handled {s s' : ConnState} {e : ConnEvent} {reply : SaslReply}
    (handled : handle d s e = some (s', reply)) : Handled d s e s' := by
  have idle {request : SaslRequest} (shape : e.request = request)
      (calm : ∀ mechanism, request ≠ .handshake mechanism) (silent : e.turn = none)
      (gate : ∀ apiKey, request = .other apiKey → s.saslComplete = true) : Handled d s e s :=
    .idle (fun restarts => calm _ (shape.symm.trans restarts.1)) (.inl silent)
      fun apiKey other => gate apiKey (shape.symm.trans other)
  rw [handle] at handled
  cases request : e.request with
  | apiVersions =>
    rw [request] at handled
    dsimp only at handled
    split at handled
    · cases handled
      exact idle request (fun _ => nofun) (by rw [ConnEvent.turn, request]) fun _ => nofun
    · cases handled
  | handshake mechanism =>
    rw [request] at handled
    dsimp only at handled
    split at handled
    · have same := congrArg Prod.fst (Option.some.inj handled)
      rw [show s' = _ from same.symm]
      exact handshake_handled request
    · cases handled
  | authenticate authBytes =>
    rw [request] at handled
    dsimp only at handled
    split at handled
    · have same := congrArg Prod.fst (Option.some.inj handled)
      rw [show s' = _ from same.symm]
      exact authenticate_handled request
    · cases handled
  | other apiKey =>
    rw [request] at handled
    dsimp only at handled
    split at handled
    · next open' =>
        cases handled
        exact idle request (fun _ => nofun) (by rw [ConnEvent.turn, request]) fun _ _ => open'.1
    · cases handled

variable {s s' : ConnState} {e : ConnEvent} {events : List ConnEvent}

theorem calm_of_turn {turn : Turn} (said : e.turn = some turn) : ¬ e.Restarts d := by
  rintro ⟨handshake, -⟩
  rw [ConnEvent.turn, handshake] at said
  cases said

theorem Conversing.hears {turn : Turn} {conv : ScramConversation} (conversing : Conversing d events s)
    (state : s.saslState = some conv) (said : e.turn = some turn) :
    ∃ server before start after, d.scram = some server ∧
      events ++ [e] = before ++ start :: (after ++ [e]) ∧ start.Restarts d ∧
      (∀ other ∈ after, ¬ other.Restarts d) ∧
      conv = converse d.crypto server (after.filterMap ConnEvent.turn) ∧
      conversationOf (doStep d.crypto turn.1 turn.2 conv) =
        converse d.crypto server ((after ++ [e]).filterMap ConnEvent.turn) := by
  obtain ⟨server, before, start, after, serving, rfl, restarts, calm, same⟩ := conversing conv state
  refine ⟨server, before, start, after, serving, by simp, restarts, calm, same, ?_⟩
  rw [List.filterMap_append, List.filterMap_cons_some said, List.filterMap_nil, converse_concat,
    ← same]

theorem Handled.conversing (handled : Handled d s e s') (conversing : Conversing d events s) :
    Conversing d (events ++ [e]) s' := by
  intro conv state
  have later {after : List ConnEvent} (calm : ∀ other ∈ after, ¬ other.Restarts d)
      (here : ¬ e.Restarts d) : ∀ other ∈ after ++ [e], ¬ other.Restarts d := by
    intro other member
    rcases List.mem_append.mp member with known | new
    · exact calm other known
    · rw [List.mem_singleton.mp new]
      exact here
  cases handled with
  | idle restarts silent gate =>
    obtain ⟨server, before, start, after, serving, rfl, starts, calm, same⟩ := conversing conv state
    have said : e.turn = none := silent.resolve_right (by rw [state]; exact nofun)
    refine ⟨server, before, start, after ++ [e], serving, by simp, starts, later calm restarts, ?_⟩
    rw [List.filterMap_append, List.filterMap_cons_none said, List.filterMap_nil, List.append_nil,
      same]
  | restarted server mechanism restarts serving =>
    cases state
    exact ⟨server, events, e, [], serving, rfl, restarts, by simp, rfl⟩
  | spoke turn before' said known unfinished =>
    cases state
    obtain ⟨server, before, start, after, serving, shape, starts, calm, -, same⟩ :=
      conversing.hears known said
    exact ⟨server, before, start, after ++ [e], serving, shape, starts,
      later calm (calm_of_turn said), same⟩
  | finished turn before' out conv' said known ran valid =>
    cases state
    obtain ⟨server, before, start, after, serving, shape, starts, calm, -, same⟩ :=
      conversing.hears known said
    rw [ran] at same
    exact ⟨server, before, start, after ++ [e], serving, shape, starts,
      later calm (calm_of_turn said), same⟩

/-- Nothing but the end of a conversation that ends well changes who the connection belongs to. -/
theorem Handled.keeps (handled : Handled d s e s') (unfinished : ¬ Finishes d s e) :
    s'.saslComplete = s.saslComplete ∧ s'.saslPrincipal = s.saslPrincipal ∧
      s'.tenantID = s.tenantID := by
  cases handled with
  | idle restarts silent gate => exact ⟨rfl, rfl, rfl⟩
  | restarted server mechanism restarts serving => exact ⟨rfl, rfl, rfl⟩
  | spoke turn conv said known unfinished => exact ⟨rfl, rfl, rfl⟩
  | finished turn conv out conv' said known ran valid =>
    exact absurd ⟨turn, conv, out, conv', said, known, ran, valid⟩ unfinished

theorem Handled.gate (handled : Handled d s e s') {apiKey : Int} (other : e.request = .other apiKey) :
    s.saslComplete = true := by
  have silent : e.turn = none := by rw [ConnEvent.turn, other]
  cases handled with
  | idle restarts quiet gate => exact gate apiKey other
  | restarted server mechanism restarts serving =>
    rw [restarts.1] at other
    cases other
  | spoke turn conv said known unfinished =>
    rw [silent] at said
    cases said
  | finished turn conv out conv' said known ran valid =>
    rw [silent] at said
    cases said

theorem LastSuccess.later {u : Bytes} (success : LastSuccess d events u)
    (served : serveConn d connStart events = some s) (unfinished : ¬ Finishes d s e) :
    LastSuccess d (events ++ [e]) u := by
  obtain ⟨server, before, start, middle, final, after, serving, rfl, restarts, calm, proven, quiet⟩ :=
    success
  refine ⟨server, before, start, middle, final, after ++ [e], serving, by simp, restarts, calm, proven,
    ?_⟩
  intro front other back state shape reached
  rcases List.eq_nil_or_concat back with rfl | ⟨rest, last, rfl⟩
  · obtain ⟨rfl, same⟩ := List.append_inj' shape rfl
    obtain rfl := List.singleton_inj.mp same
    rw [served] at reached
    cases reached
    exact unfinished
  · rw [List.concat_eq_append, ← List.cons_append, ← List.append_assoc] at shape
    obtain ⟨rfl, -⟩ := List.append_inj' shape rfl
    exact quiet front other rest state rfl reached

theorem Handled.lastSuccess (handled : Handled d s e s') (conversing : Conversing d events s)
    (served : serveConn d connStart events = some s)
    (before : s.saslComplete = true → LastSuccess d events s.saslPrincipal)
    (complete : s'.saslComplete = true) : LastSuccess d (events ++ [e]) s'.saslPrincipal := by
  by_cases finishes : Finishes d s e
  · obtain ⟨turn, conv, out, conv', said, known, ran, valid⟩ := id finishes
    cases handled with
    | idle restarts silent gate =>
      rcases silent with none' | none'
      · rw [said] at none'
        cases none'
      · rw [known] at none'
        cases none'
    | restarted server mechanism restarts serving => exact absurd restarts (calm_of_turn said)
    | spoke turn' conv'' said' known' unfinished => exact absurd finishes unfinished
    | finished turn' conv'' out' after said' known' ran' valid' =>
      obtain ⟨server, front, start, middle, serving, shape, starts, calm, same, -⟩ :=
        conversing.hears known' said'
      rw [same] at ran'
      have proven := converse_proven d.crypto server ran' valid'
      refine ⟨server, front, start, middle, e, [], serving, by simpa using shape, starts, calm, ?_,
        by simp⟩
      rw [List.filterMap_append, List.filterMap_cons_some said', List.filterMap_nil]
      exact proven
  · obtain ⟨same, principal, -⟩ := handled.keeps finishes
    rw [principal]
    exact (before (same ▸ complete)).later served finishes

theorem served_invariant (served : serveConn d connStart events = some s) :
    Conversing d events s ∧ (s.saslComplete = true → LastSuccess d events s.saslPrincipal) := by
  induction events using List.reverseRecOn generalizing s with
  | nil =>
    cases served
    exact ⟨nofun, nofun⟩
  | append_singleton events e ih =>
    rw [serveConn_append] at served
    obtain ⟨before, reached, step⟩ := Option.bind_eq_some_iff.mp served
    obtain ⟨after, reply, ran, rest⟩ := serveConn_cons d step
    obtain rfl : after = s := Option.some.inj rest
    obtain ⟨conversing, success⟩ := ih reached
    have handled := handle_handled ran
    exact ⟨handled.conversing conversing, handled.lastSuccess conversing reached success⟩

end Connections

/-- Whenever a connection is authenticated, the last conversation on it that ended well is a proof for
its principal; nothing else changes its principal or its tenant; and nothing but the SASL requests is
served before. -/
theorem authenticated_by_last_conversation (d : SaslDispatcher) (events : List ConnEvent)
    (s : ConnState) (served : serveConn d connStart events = some s) :
    (s.saslComplete = true → LastSuccess d events s.saslPrincipal) ∧
      ∀ front e back, events = front ++ e :: back → ∃ before after reply,
        serveConn d connStart front = some before ∧ handle d before e = some (after, reply) ∧
        (¬ Finishes d before e → after.saslComplete = before.saslComplete ∧
          after.saslPrincipal = before.saslPrincipal ∧ after.tenantID = before.tenantID) ∧
        ∀ apiKey, e.request = .other apiKey → before.saslComplete = true ∧
          LastSuccess d front before.saslPrincipal := by
  refine ⟨(served_invariant served).2, ?_⟩
  rintro front e back rfl
  rw [serveConn_append] at served
  obtain ⟨before, reached, rest⟩ := Option.bind_eq_some_iff.mp served
  obtain ⟨after, reply, ran, -⟩ := serveConn_cons d rest
  have handled := handle_handled ran
  refine ⟨before, after, reply, reached, ran, handled.keeps, fun apiKey other => ?_⟩
  have complete : before.saslComplete = true := handled.gate other
  exact ⟨complete, (served_invariant reached).2 complete⟩

private def retriedLogin : List ConnEvent :=
  let final := do
    let first ← (handleSASLAuthenticate ⟨toyCrypto, some toyServer⟩
      { connStart with saslState := some (newScramConversation toyServer) } toyClient.first
      { nonce := [1, 2, 3] } none).2.authBytes
    toyClient.final toyCrypto first
  [{ request := .apiVersions }, { request := .handshake "SCRAM-SHA-256" },
    { request := .authenticate (text "n,,n=a,x=y") }, { request := .handshake "SCRAM-SHA-256" },
    { request := .authenticate toyClient.first, noise := { nonce := [1, 2, 3] } },
    { request := .authenticate (final.getD []) }, { request := .other 3 }]

theorem retried_login_proven :
    ∃ s, serveConn ⟨toyCrypto, some toyServer⟩ connStart retriedLogin = some s ∧
      s.saslComplete = true ∧ s.saslPrincipal = text "a,b=c" ∧
      LastSuccess ⟨toyCrypto, some toyServer⟩ retriedLogin (text "a,b=c") := by
  have seen : (serveConn ⟨toyCrypto, some toyServer⟩ connStart retriedLogin).map
      (fun s => (s.saslComplete, s.saslPrincipal)) = some (true, text "a,b=c") := by decide +kernel
  obtain ⟨s, served, both⟩ := Option.map_eq_some_iff.mp seen
  obtain ⟨complete, principal⟩ := Prod.mk.inj both
  refine ⟨s, served, complete, principal, ?_⟩
  rw [← principal]
  exact (authenticated_by_last_conversation _ _ s served).1 complete

end KafkaWire.Wire
