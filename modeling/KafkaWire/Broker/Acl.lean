import KafkaWire.Broker.Topics

/-! The grants of `acls.json`. -/

namespace KafkaWire.Broker

namespace ACLStore

def configured (s : ACLStore) : Bool := 0 < s.entries.length

def grants (grants : List Grant) (name op : String) : Bool :=
  grants.any fun grant => name.startsWith grant.start && grant.ops.any fun allowed => allowed = op

def authorize (s : ACLStore) (list : Principal → List Grant) (principal name op : String) : Bool :=
  if !s.configured then true
  else if principal = "" then false
  else
    match s.lookup principal with
    | none => false
    | some p => grants (list p) name op

def authorizeTopic (s : ACLStore) (principal topic op : String) : Bool :=
  s.authorize Principal.topicPrefixes principal topic op

def authorizeGroup (s : ACLStore) (principal groupID op : String) : Bool :=
  s.authorize Principal.groups principal groupID op

end ACLStore

/-- `acl != nil && !acl.AuthorizeTopic(...)`, the other way round. -/
def mayUseTopic (acl : Option ACLStore) (principal topic op : String) : Bool :=
  acl.all fun s => s.authorizeTopic principal topic op

def mayUseGroup (acl : Option ACLStore) (principal groupID op : String) : Bool :=
  acl.all fun s => s.authorizeGroup principal groupID op

end KafkaWire.Broker
