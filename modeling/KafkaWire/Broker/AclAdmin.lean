import KafkaWire.Broker.Acl
import KafkaWire.Lib.Tables

/-! How the grants change: principals that are posted to `/v1/acls` and principals that are deleted. -/

namespace KafkaWire.Broker

/-- The grants in memory, and `acls.json` if there is one. -/
structure ACLFiles where
  state : ACLStore
  file : Option ACLStore

inductive ACLErr
  | nameRequired
  | invalidTopicOp (op : String)
  | invalidGroupOp (op : String)
  | notSaved
  deriving DecidableEq, Repr

structure PostedPrincipal where
  name : String
  tenantID : Option String
  topicPrefixes : List Grant
  groups : List Grant
  deriving DecidableEq, Repr

def PostedPrincipal.record (body : PostedPrincipal) : Principal :=
  ⟨body.tenantID, body.topicPrefixes, body.groups⟩

namespace ACLStore

def tenantOf (s : ACLStore) (principal : String) : String :=
  if principal = "" then ""
  else
    match s.lookup principal with
    | none => ""
    | some p => p.tenantID.getD ""

def load (file : Option ACLStore) : ACLStore := file.getD ∅

end ACLStore

namespace ACLFiles

def save (s : ACLFiles) (ok : Bool) : Except ACLErr Unit × ACLFiles :=
  if ok then (.ok (), { s with file := some s.state }) else (.error .notSaved, s)

def badOp (allowed : List String) (grants : List Grant) : Option String :=
  (grants.flatMap Grant.ops).find? fun op => op ∉ allowed

def upsert (s : ACLFiles) (name : String) (p : Principal) (ok : Bool) :
    Except ACLErr Unit × ACLFiles :=
  if name = "" then (.error .nameRequired, s)
  else
    match badOp ["read", "write"] p.topicPrefixes, badOp ["read"] p.groups with
    | some op, _ => (.error (.invalidTopicOp op), s)
    | none, some op => (.error (.invalidGroupOp op), s)
    | none, none => save { s with state := s.state.insert name p } ok

def delete (s : ACLFiles) (name : String) (ok : Bool) : Except ACLErr Unit × ACLFiles :=
  save { s with state := s.state.erase name } ok

/-- `POST /v1/acls`. The request type has no field for the tenant, so that what the body says of it
is not read. -/
def postAcls (s : ACLFiles) (body : PostedPrincipal) (ok : Bool) : Except ACLErr Unit × ACLFiles :=
  s.upsert body.name ⟨none, body.topicPrefixes, body.groups⟩ ok

end ACLFiles

theorem ACLStore.configured_iff (s : ACLStore) : s.configured = true ↔ ∃ name, name ∈ s := by
  rw [ACLStore.configured, decide_eq_true_eq, List.length_pos_iff_exists_mem]
  constructor
  · rintro ⟨⟨name, p⟩, member⟩
    exact ⟨name, AList.lookup_isSome.mp (Option.isSome_of_mem (AList.mem_lookup_iff.mpr member))⟩
  · rintro ⟨name, member⟩
    obtain ⟨p, found⟩ := Option.isSome_iff_exists.mp (AList.lookup_isSome.mpr member)
    exact ⟨⟨name, p⟩, AList.mem_lookup_iff.mp found⟩

theorem ACLStore.authorize_erase {s : ACLStore} {name : String}
    (another : ∃ other, other ≠ name ∧ other ∈ s) (list : Principal → List Grant)
    {principal resource op : String}
    (allowed : ACLStore.authorize (s.erase name) list principal resource op = true) :
    s.authorize list principal resource op = true := by
  obtain ⟨other, apart, there⟩ := another
  have before : s.configured = true := (configured_iff s).mpr ⟨other, there⟩
  have after : ACLStore.configured (s.erase name) = true :=
    (configured_iff _).mpr ⟨other, AList.mem_erase.mpr ⟨apart, there⟩⟩
  simp only [authorize, before, after, Tables.lookup_erase_eq] at allowed ⊢
  by_cases gone : principal = name
  · simp [gone] at allowed
  · simpa [gone] using allowed

/-- Deleting a principal allows nothing new, as long as another principal is left. -/
theorem delete_allows_nothing_new (s : ACLFiles) (name : String) (ok : Bool)
    (another : ∃ other, other ≠ name ∧ other ∈ s.state) (principal resource op : String) :
    ((s.delete name ok).2.state.authorizeTopic principal resource op = true →
        s.state.authorizeTopic principal resource op = true) ∧
      ((s.delete name ok).2.state.authorizeGroup principal resource op = true →
        s.state.authorizeGroup principal resource op = true) := by
  have state : (s.delete name ok).2.state = s.state.erase name := by
    cases ok <;> rfl
  rw [state]
  exact ⟨ACLStore.authorize_erase another _, ACLStore.authorize_erase another _⟩

def amyOnly : ACLFiles :=
  ⟨(∅ : ACLStore).insert "amy" ⟨some "acme", [⟨"orders", ["read", "write"]⟩], [⟨"g", ["read"]⟩]⟩, none⟩

theorem deleted_one_of_two :
    let s : ACLFiles := { amyOnly with state := amyOnly.state.insert "bob" ⟨none, [⟨"a", ["read"]⟩], []⟩ }
    (s.delete "amy" true).2.state.authorizeTopic "bob" "abc" "read" = true ∧
      s.state.authorizeTopic "bob" "abc" "read" = true := by
  intro s
  have allowed : (s.delete "amy" true).2.state.authorizeTopic "bob" "abc" "read" = true := by
    decide +kernel
  exact ⟨allowed, (delete_allows_nothing_new s "amy" true ⟨"bob", by decide, by decide +kernel⟩ "bob"
    "abc" "read").1 allowed⟩

/-- Without any principal the grants are not looked at. -/
theorem last_deletion_allows_all :
    amyOnly.state.authorizeTopic "bob" "orders" "write" = false ∧
      (amyOnly.delete "amy" true).2.state.authorizeTopic "bob" "orders" "write" = true := by
  decide +kernel

/-- What posting a principal should do: it is stored as it was posted, here and in the file, the
principal does not lose its tenant, and no other principal changes. -/
structure Posted (s : ACLFiles) (body : PostedPrincipal) (s' : ACLFiles) : Prop where
  stored : s'.state.lookup body.name = some body.record
  saved : (ACLStore.load s'.file).lookup body.name = some body.record
  tenant : ACLStore.tenantOf s'.state body.name = body.tenantID.getD ""
  bound : ACLStore.tenantOf s'.state body.name = "" → ACLStore.tenantOf s.state body.name = ""
  others : ∀ other, other ≠ body.name → s'.state.lookup other = s.state.lookup other

/-- A principal is stored as it was posted exactly when it has no tenant and replaces none that has
one. -/
theorem posted_principal_stored_iff (s : ACLFiles) (body : PostedPrincipal) (named : body.name ≠ "")
    (topicOps : ∀ grant ∈ body.topicPrefixes, ∀ op ∈ grant.ops, op = "read" ∨ op = "write")
    (groupOps : ∀ grant ∈ body.groups, ∀ op ∈ grant.ops, op = "read") :
    (s.postAcls body true).1 = .ok () ∧ (Posted s body (s.postAcls body true).2 ↔
      body.tenantID = none ∧ ACLStore.tenantOf s.state body.name = "") := by
  have topics : ACLFiles.badOp ["read", "write"] body.topicPrefixes = none := by
    simpa [ACLFiles.badOp, List.find?_eq_none, ← or_iff_not_imp_left] using topicOps
  have groups : ACLFiles.badOp ["read"] body.groups = none := by
    simpa [ACLFiles.badOp, List.find?_eq_none] using groupOps
  let bare : Principal := ⟨none, body.topicPrefixes, body.groups⟩
  have posted : s.postAcls body true =
      (.ok (), ⟨s.state.insert body.name bare, some (s.state.insert body.name bare)⟩) := by
    simp [ACLFiles.postAcls, ACLFiles.upsert, ACLFiles.save, named, topics, groups, bare]
  have unbound : ACLStore.tenantOf (s.state.insert body.name bare) body.name = "" := by
    simp [ACLStore.tenantOf, named, bare]
  rw [posted]
  refine ⟨rfl, fun done => ⟨?_, done.bound unbound⟩, ?_⟩
  · have same := done.stored
    rw [AList.lookup_insert] at same
    exact (congrArg Principal.tenantID (Option.some.inj same)).symm
  · rintro ⟨untenanted, free⟩
    have record : bare = body.record := by
      rw [PostedPrincipal.record, untenanted]
    refine ⟨?_, ?_, ?_, fun _ => free, fun other apart => AList.lookup_insert_ne apart⟩
    · rw [AList.lookup_insert, record]
    · exact (AList.lookup_insert _).trans (congrArg some record)
    · rw [unbound, untenanted]
      rfl

theorem posted_bob_stored :
    let body : PostedPrincipal := ⟨"bob", none, [⟨"orders", ["read"]⟩], [⟨"g", ["read"]⟩]⟩
    (amyOnly.postAcls body true).2.state.lookup "bob" = some body.record := by
  intro body
  exact ((posted_principal_stored_iff amyOnly body (by decide) (by decide) (by decide)).2.mpr
    ⟨rfl, by decide +kernel⟩).stored

/-- The new prefixes come with the tenant, and the principal loses it. -/
theorem posted_tenant_dropped :
    let body : PostedPrincipal := ⟨"amy", some "acme", [⟨"orders", ["read"]⟩], []⟩
    (amyOnly.postAcls body true).1 = .ok () ∧ ACLStore.tenantOf amyOnly.state "amy" = "acme" ∧
      ACLStore.tenantOf (amyOnly.postAcls body true).2.state "amy" = "" := by
  decide +kernel

end KafkaWire.Broker
