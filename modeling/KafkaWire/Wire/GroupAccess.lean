import KafkaWire.Wire.Groups

/-! Groups that a principal has no read grant on. -/

namespace KafkaWire.Wire

open Broker Programs

/-- Nothing is asked about the group that its state could decide. -/
def OffsetFetchRequest.Idle (req : OffsetFetchRequest) (group : String) : Prop :=
  if req.groups = [] then req.topics ≠ [] ∧ ∀ t ∈ req.topics, t.partitions = []
  else ∀ asked ∈ req.groups, asked.group = group → ∀ t ∈ asked.topics, t.partitions = []

/-- The requests that are checked against the grants, and those that do not come to the group. -/
def GroupRequest.Harmless (group : String) : GroupRequest → Prop
  | .joinGroup _ | .offsetCommit _ | .describeGroups _ => True
  | .syncGroup _ | .heartbeat _ => False
  | .leaveGroup _ memberID members => memberID = "" ∧ members = []
  | .offsetFetch req => req.Idle group

structure SameOtherGroups (group : String) (b b' : GroupBroker) : Prop where
  acl : b.acl = b'.acl
  script : b.script = b'.script
  live : ∀ other, other ≠ group → b.groups.live.lookup other = b'.groups.live.lookup other
  stored : ∀ other, other ≠ group →
    b.groups.store.groups.lookup other = b'.groups.store.groups.lookup other

structure StillGroups (group : String) (acl : Option ACLStore) (g g' : GroupCoordinator)
    (b b' : GroupBroker) : Prop where
  same : SameOtherGroups group b b'
  acl : b.acl = acl
  left : b.groups = g
  right : b'.groups = g'

section TwoRuns

variable {group : String} {acl : Option ACLStore} {g g' : GroupCoordinator} {conn : Conn}

theorem agrees_groupAnswer : Agrees (StillGroups group acl g g') GroupHandler.answer := by
  rintro ⟨acl, groups, answers⟩ ⟨acl', groups', answers'⟩ ⟨⟨grants, script, live, stored⟩, rfl, rfl, rfl⟩
  cases script
  cases answers with
  | nil => exact ⟨rfl, ⟨grants, rfl, live, stored⟩, rfl, rfl, rfl⟩
  | cons a rest => exact ⟨rfl, ⟨grants, rfl, live, stored⟩, rfl, rfl, rfl⟩

theorem relates_getGroups : Relates (StillGroups group acl g g')
    (fun b b' => SameOtherGroups group b b' ∧ b.acl = acl) (get : GroupM GroupBroker) get :=
  fun _ _ still => ⟨⟨still.same, still.acl⟩, still⟩

variable (ungranted : mayUseGroup acl conn.saslPrincipal group "read" = false)

include ungranted

theorem describeGroup_agrees (gid : String) :
    Agrees (StillGroups group acl g g') (GroupHandler.describeGroup conn gid) := by
  refine Relates.bind relates_getGroups ?_
  rintro b b' ⟨same, rfl⟩
  rw [← same.acl]
  split
  · next may =>
      have different : gid ≠ group := by
        rintro rfl
        rw [ungranted] at may
        cases may
      rw [same.live gid different]
      refine Agrees.bind agrees_groupAnswer fun a => ?_
      split <;> exact agrees_pure _
  · exact agrees_pure _

theorem handleJoinGroup_agrees (args : JoinGroupArgs) (named : args.groupID = group) :
    Agrees (StillGroups group acl g g') (GroupHandler.handleJoinGroup conn args) := by
  refine Relates.bind relates_getGroups ?_
  rintro b b' ⟨same, rfl⟩
  rw [← same.acl, named, ungranted]
  exact agrees_pure _

theorem handleOffsetCommit_agrees (req : OffsetCommitRequest) (named : req.group = group) :
    Agrees (StillGroups group acl g g') (GroupHandler.handleOffsetCommit conn req) := by
  refine Relates.bind relates_getGroups ?_
  rintro b b' ⟨same, rfl⟩
  dsimp only
  rw [← same.acl, named, ungranted]
  exact agrees_pure _

omit ungranted

theorem SameOtherGroups.record {b b' : GroupBroker} (same : SameOtherGroups group b b') {other : String}
    (different : other ≠ group) : b.groups.record other = b'.groups.record other := by
  rw [GroupCoordinator.record, GroupCoordinator.record, same.live other different,
    same.stored other different]

theorem fetchOffsets_agree {b b' : GroupBroker} (same : SameOtherGroups group b b') {asked : String}
    {t : OffsetFetchTopic} (idle : asked = group → t.partitions = []) :
    GroupHandler.fetchOffsets b.groups asked t = GroupHandler.fetchOffsets b'.groups asked t := by
  rw [GroupHandler.fetchOffsets, GroupHandler.fetchOffsets]
  by_cases isGroup : asked = group
  · rw [idle isGroup]
    rfl
  · simp only [GroupCoordinator.fetchOffset, same.record isGroup]

theorem handleOffsetFetch_agrees (req : OffsetFetchRequest) (idle : req.Idle group) :
    Agrees (StillGroups group acl g g') (GroupHandler.handleOffsetFetch req) := by
  refine Relates.bind relates_getGroups ?_
  rintro b b' ⟨same, rfl⟩
  dsimp only
  rw [OffsetFetchRequest.Idle] at idle
  split at idle
  · next none' =>
      rw [none', List.length_nil, if_neg (lt_irrefl 0), if_neg (lt_irrefl 0),
        if_neg (by simpa using idle.1), if_neg (by simpa using idle.1),
        List.map_congr_left fun t member => fetchOffsets_agree same fun _ => idle.2 t member]
      exact agrees_pure _
  · next some' =>
      rw [if_pos (List.length_pos_iff.mpr some'), if_pos (List.length_pos_iff.mpr some'),
        List.map_congr_left fun asked member => congrArg _ (List.map_congr_left fun t inside =>
          fetchOffsets_agree same fun isGroup => idle asked member isGroup t inside)]
      exact agrees_pure _

include ungranted

theorem dispatchGroup_agrees (request : GroupRequest) (harmless : request.Harmless group)
    (named : group ∈ request.names) :
    Agrees (StillGroups group acl g g') (dispatchGroup conn request) := by
  cases request with
  | joinGroup args =>
    exact handleJoinGroup_agrees ungranted args (List.mem_singleton.mp named).symm
  | offsetCommit req =>
    exact handleOffsetCommit_agrees ungranted req (List.mem_singleton.mp named).symm
  | describeGroups groups =>
    refine Agrees.bind (Agrees.collect groups fun gid _ => ?_) fun _ => agrees_pure _
    exact describeGroup_agrees ungranted gid
  | syncGroup req => exact harmless.elim
  | heartbeat args => exact harmless.elim
  | leaveGroup name memberID members =>
    obtain ⟨rfl, rfl⟩ := harmless
    exact agrees_pure _
  | offsetFetch req => exact handleOffsetFetch_agrees req harmless

end TwoRuns

def groupReply (conn : Conn) (request : GroupRequest) (b : GroupBroker) :
    Except Unit (Option GroupResponse) :=
  match dispatchGroup conn request b with
  | .ok response _ => .ok response
  | .error err _ => .error err

def groupsAfter (conn : Conn) (request : GroupRequest) (b : GroupBroker) : GroupCoordinator :=
  match dispatchGroup conn request b with
  | .ok _ final => final.groups
  | .error _ final => final.groups

/-- The request leaves the groups as they are, and its response does not depend on the group. -/
def GroupIsolated (conn : Conn) (acl : Option ACLStore) (group : String) (request : GroupRequest) : Prop :=
  ∀ b b', b.acl = acl → SameOtherGroups group b b' →
    groupReply conn request b = groupReply conn request b' ∧
      groupsAfter conn request b = b.groups ∧ groupsAfter conn request b' = b'.groups

section Probes

variable {conn : Conn} {acl : Option ACLStore} {group topic : String} {generation partition : Int}

def emptyGroups (acl : Option ACLStore) : GroupBroker := ⟨acl, ⟨⟨∅⟩, ∅⟩, []⟩

def probeState (group : String) (generation : Int) (topic : String) (partition : Int) : GroupState where
  groupID := group
  generation := generation
  offsets := AList.insert topic (AList.insert partition { offset := 7 } ∅) ∅

/-- A broker with one group, which has no members and one committed offset. -/
def probeBroker (acl : Option ACLStore) (group : String) (generation : Int) (topic : String)
    (partition : Int) : GroupBroker :=
  ⟨acl, ⟨⟨∅⟩, AList.insert group (.fresh (probeState group generation topic partition)) ∅⟩, []⟩

theorem sameOtherGroups_probe : SameOtherGroups group (emptyGroups acl)
    (probeBroker acl group generation topic partition) where
  acl := rfl
  script := rfl
  live _ different := (AList.lookup_insert_ne different).symm
  stored _ _ := rfl

theorem probe_lookup : (probeBroker acl group generation topic partition).groups.live.lookup group =
    some (.fresh (probeState group generation topic partition)) :=
  AList.lookup_insert _

theorem probe_record : (probeBroker acl group generation topic partition).groups.record group =
    some (probeState group generation topic partition) := by
  rw [GroupCoordinator.record, probe_lookup]
  rfl

theorem probe_offset : (probeBroker acl group generation topic partition).groups.fetchOffset group topic
    partition = { offset := 7 } := by
  have found : (probeState group generation topic partition).offset? topic partition =
      some { offset := 7 } := by
    rw [GroupState.offset?, probeState, AList.lookup_insert, Option.bind_some, AList.lookup_insert]
  rw [GroupCoordinator.fetchOffset, probe_record]
  dsimp only
  rw [found, Option.getD_some]

theorem GroupIsolated.reply {request : GroupRequest} (isolated : GroupIsolated conn acl group request)
    (generation : Int) (topic : String) (partition : Int) :
    groupReply conn request (emptyGroups acl) =
      groupReply conn request (probeBroker acl group generation topic partition) :=
  (isolated _ _ rfl sameOtherGroups_probe).1

/-- A request that goes to the coordinator at once is answered as the probed group answers it. -/
theorem groupReply_probe {request : GroupRequest} (event : GroupAnswer → Event) (reply : Reply)
    (dispatched : dispatchGroup conn request = GroupHandler.coordinate event >>= GroupHandler.respond)
    (named : (event {}).groupID = group)
    (replied : (stepEntry ⟨∅⟩ (some (.fresh (probeState group generation topic partition)))
      (event {})).2 = some reply) :
    groupReply conn request (probeBroker acl group generation topic partition) =
      match GroupHandler.respond (some reply) (emptyGroups acl) with
      | .ok response _ => .ok response
      | .error err _ => .error err := by
  have answered : (probeBroker acl group generation topic partition).groups.reply (event {}) =
      some reply := by
    rw [GroupCoordinator.reply, named, probe_lookup]
    exact replied
  rw [groupReply, dispatched]
  change (match GroupHandler.respond ((probeBroker acl group generation topic partition).groups.reply
    (event {})) _ with | .ok response _ => Except.ok response | .error err _ => .error err) = _
  rw [answered]
  cases reply <;> rfl

def otherGeneration (generation : Int) : Int := if generation = 0 then 1 else 0

theorem otherGeneration_ne (generation : Int) : otherGeneration generation ≠ generation := by
  unfold otherGeneration
  split <;> omega

theorem sync_stale (live : Broker.Group) (args : SyncGroupArgs) (now : Int) (persists : Bool)
    (stale : live.live.persisted.generation ≠ args.generation) :
    (live.sync args now persists).2 = some (.sync { errorCode := illegalGeneration }) := by
  rw [Group.sync, LiveGroup.syncGroup, if_pos stale]

theorem syncGroup_reaches (req : SyncGroupRequest) (named : req.group = group) :
    ¬GroupIsolated conn acl group (.syncGroup req) := by
  intro isolated
  have same := (isolated.reply (otherGeneration req.generation) "" 0).trans (groupReply_probe (fun a =>
    .sync ⟨req.group, req.generation, req.memberID, _⟩ a.now a.persists) _ rfl named
      (sync_stale _ _ _ _ (otherGeneration_ne req.generation)))
  change Except.ok (some (GroupResponse.syncGroup invalidGroupID [])) =
    .ok (some (.syncGroup illegalGeneration [])) at same
  exact absurd same (by decide)

theorem heartbeat_stale (live : LiveGroup) (args : HeartbeatArgs) (now : Int)
    (stale : live.persisted.generation ≠ args.generation) :
    some (Reply.code (live.heartbeat args now).2) = some (.code illegalGeneration) := by
  rw [LiveGroup.heartbeat, if_pos stale]

theorem heartbeat_reaches (args : HeartbeatArgs) (named : args.groupID = group) :
    ¬GroupIsolated conn acl group (.heartbeat args) := by
  intro isolated
  have same := (isolated.reply (otherGeneration args.generation) "" 0).trans (groupReply_probe (fun a =>
    .heartbeat args a.now) _ rfl named (heartbeat_stale _ _ _ (otherGeneration_ne args.generation)))
  change Except.ok (some (GroupResponse.heartbeat invalidGroupID)) =
    .ok (some (.heartbeat illegalGeneration)) at same
  exact absurd same (by decide)

section Leaving

variable {entry : Option Broker.Group} {code : Int} (turned : ∀ store memberID,
  stepEntry store entry (.leave group memberID) = (entry, some (.code code)))

include turned

theorem leave_answers (memberID : String) {b : GroupBroker} (found : b.groups.live.lookup group = entry) :
    Yields (GroupHandler.leave group memberID) b
      (fun answered final => answered = code ∧ final.groups.live.lookup group = entry)
      fun _ _ => False := by
  obtain ⟨acl, g, script⟩ := b
  have replied : g.reply (.leave group memberID) = some (.code code) := by
    rw [GroupCoordinator.reply, Event.groupID, found, turned]
  have kept : (g.step (.leave group memberID)).live.lookup group = entry := by
    rw [GroupCoordinator.step, Event.groupID, found, turned]
    cases entry with
    | none => exact found
    | some group => exact AList.lookup_insert _
  rw [GroupHandler.leave, yields_bind]
  have ran : ∃ rest, GroupHandler.coordinate (fun _ => .leave group memberID) ⟨acl, g, script⟩ =
      .ok (g.reply (.leave group memberID)) ⟨acl, g.step (.leave group memberID), rest⟩ := by
    cases script with
    | nil => exact ⟨[], rfl⟩
    | cons a rest => exact ⟨rest, rfl⟩
  obtain ⟨rest, ran⟩ := ran
  rw [Yields, ran, replied]
  exact ⟨rfl, kept⟩

theorem leaves_answer (members : List String) {b : GroupBroker} (found : b.groups.live.lookup group = entry) :
    Yields (collect (fun member => do return (member, ← GroupHandler.leave group member)) members) b
      (fun answered final => answered = members.map (fun member => (member, code)) ∧
        final.groups.live.lookup group = entry) fun _ _ => False := by
  induction members generalizing b with
  | nil => exact ⟨rfl, found⟩
  | cons member rest ih =>
    rw [collect, yields_bind, yields_bind]
    refine (leave_answers turned member found).mono ?_ fun _ _ never => never
    rintro _ middle ⟨rfl, found⟩
    rw [yields_pure, yields_bind]
    refine (ih found).mono ?_ fun _ _ never => never
    rintro _ final ⟨rfl, found⟩
    exact ⟨rfl, found⟩

theorem leaveGroup_answers (conn : Conn) (memberID : String) (members : List String) {b : GroupBroker}
    (found : b.groups.live.lookup group = entry) :
    groupReply conn (.leaveGroup group memberID members) b = .ok (some (.leaveGroup
      (if memberID ≠ "" then code else 0) (members.map fun member => (member, code)))) := by
  have rest (errorCode : Int) {b : GroupBroker} (found : b.groups.live.lookup group = entry) :
      Yields (collect (fun member => do return (member, ← GroupHandler.leave group member)) members >>=
        fun codes => pure (some (GroupResponse.leaveGroup errorCode codes))) b
        (fun response _ => response = some (.leaveGroup errorCode
          (members.map fun member => (member, code)))) fun _ _ => False := by
    rw [yields_bind]
    refine (leaves_answer turned members found).mono ?_ fun _ _ never => never
    rintro _ final ⟨rfl, -⟩
    rfl
  have answered : Yields (GroupHandler.handleLeaveGroup group memberID members) b
      (fun response _ => response = some (.leaveGroup (if memberID ≠ "" then code else 0)
        (members.map fun member => (member, code)))) fun _ _ => False := by
    rw [GroupHandler.handleLeaveGroup]
    split
    · rw [yields_bind]
      refine (leave_answers turned memberID found).mono ?_ fun _ _ never => never
      rintro _ middle ⟨rfl, found⟩
      exact rest _ found
    · exact rest 0 found
  obtain ⟨response, final, ran, rfl⟩ := answered.succeeds
  rw [groupReply, dispatchGroup, ran]

end Leaving

theorem leaveGroup_reaches (memberID : String) (members : List String)
    (asked : ¬(memberID = "" ∧ members = [])) :
    ¬GroupIsolated conn acl group (.leaveGroup group memberID members) := by
  intro isolated
  have bare := leaveGroup_answers (fun _ _ => rfl) conn memberID members
    (show (emptyGroups acl).groups.live.lookup group = none from rfl)
  have probed := leaveGroup_answers (fun _ _ => rfl) conn memberID members
    (probe_lookup : (probeBroker acl group 0 "" 0).groups.live.lookup group = _)
  have same := (bare.symm.trans (isolated.reply 0 "" 0)).trans probed
  simp only [Except.ok.injEq, Option.some.injEq, GroupResponse.leaveGroup.injEq] at same
  obtain ⟨first, others⟩ := same
  by_cases single : memberID = ""
  · obtain ⟨member, rest, rfl⟩ := List.exists_cons_of_ne_nil fun none => asked ⟨single, none⟩
    have codes := (List.cons.inj others).1
    exact absurd (Prod.mk.inj codes).2 (by decide)
  · rw [if_pos single, if_pos single] at first
    exact absurd first (by decide)

theorem fetchOffsets_differ {t : OffsetFetchTopic} (member : partition ∈ t.partitions) :
    GroupHandler.fetchOffsets (emptyGroups acl).groups group t ≠
      GroupHandler.fetchOffsets (probeBroker acl group generation t.topic partition).groups group t := by
  intro same
  have parts := List.map_eq_map_iff.mp (TopicAnswer.mk.inj same).2 partition member
  rw [probe_offset] at parts
  have offsets : (-1 : Int) = 7 := (OffsetFetchAnswer.mk.inj parts).2.1
  exact absurd offsets (by decide)

theorem everyOffset_probe : GroupHandler.everyOffset
    (probeBroker acl group generation topic partition).groups group ≠ [] := by
  rw [GroupHandler.everyOffset, GroupCoordinator.allOffsets, probe_record]
  exact List.cons_ne_nil _ _

theorem offsetFetch_reaches (req : OffsetFetchRequest)
    (named : group ∈ req.group :: req.groups.map OffsetFetchGroup.group) (busy : ¬req.Idle group) :
    ¬GroupIsolated conn acl group (.offsetFetch req) := by
  intro isolated
  have answers (b : GroupBroker) : groupReply conn (.offsetFetch req) b =
      .ok (some (if req.groups = [] then
          .offsetFetch (if req.topics = [] then GroupHandler.everyOffset b.groups req.group
            else req.topics.map (GroupHandler.fetchOffsets b.groups req.group)) []
        else .offsetFetch [] (req.groups.map fun asked =>
          ⟨asked.group, asked.topics.map (GroupHandler.fetchOffsets b.groups asked.group)⟩))) := by
    rw [groupReply, dispatchGroup, GroupHandler.handleOffsetFetch, get_bind]
    cases req.groups <;> cases req.topics <;> rfl
  have same (topic : String) (partition : Int) := (answers _).symm.trans
    ((isolated.reply 0 topic partition).trans (answers _))
  rw [OffsetFetchRequest.Idle] at busy
  split at busy
  · next single =>
      simp only [if_pos single, Except.ok.injEq, Option.some.injEq, GroupResponse.offsetFetch.injEq,
        and_true] at same
      rw [single] at named
      obtain rfl := List.mem_singleton.mp named
      by_cases every : req.topics = []
      · simp only [if_pos every] at same
        exact everyOffset_probe (same "" 0).symm
      · simp only [if_neg every] at same
        refine busy ⟨every, fun t member => List.eq_nil_iff_forall_not_mem.mpr fun p asked => ?_⟩
        exact fetchOffsets_differ asked (List.map_eq_map_iff.mp (same t.topic p) t member)
  · next several =>
      simp only [if_neg several, Except.ok.injEq, Option.some.injEq, GroupResponse.offsetFetch.injEq,
        true_and] at same
      refine busy fun asked inside isGroup t member => List.eq_nil_iff_forall_not_mem.mpr fun p wanted => ?_
      subst isGroup
      have entry := List.map_eq_map_iff.mp (same t.topic p) asked inside
      exact fetchOffsets_differ wanted
        (List.map_eq_map_iff.mp (OffsetFetchGroupAnswer.mk.inj entry).2 t member)

end Probes

/-- A request that names a group on which the principal has no read grant changes no group, and has a
response that does not depend on that group, exactly when it is checked or does not come to the
group. -/
theorem ungranted_group_isolated_iff (acl : Option ACLStore) (group : String) (conn : Conn)
    (ungranted : mayUseGroup acl conn.saslPrincipal group "read" = false)
    (request : GroupRequest) (named : group ∈ request.names) :
    GroupIsolated conn acl group request ↔ request.Harmless group := by
  constructor
  · intro isolated
    cases request with
    | joinGroup args => trivial
    | offsetCommit req => trivial
    | describeGroups groups => trivial
    | syncGroup req => exact syncGroup_reaches req (List.mem_singleton.mp named).symm isolated
    | heartbeat args => exact heartbeat_reaches args (List.mem_singleton.mp named).symm isolated
    | leaveGroup name memberID members =>
      obtain rfl := List.mem_singleton.mp named
      exact not_not.mp fun asked => leaveGroup_reaches memberID members asked isolated
    | offsetFetch req => exact not_not.mp fun busy => offsetFetch_reaches req named busy isolated
  · rintro harmless b b' rfl same
    have walk : Agrees (StillGroups group b.acl b.groups b'.groups) (dispatchGroup conn request) :=
      dispatchGroup_agrees ungranted request harmless named
    simp only [groupReply, groupsAfter]
    obtain ⟨response, final, _, final', ran, ran', rfl, still⟩ |
      ⟨err, final, final', ran, ran', still⟩ := walk.ends ⟨same, rfl, rfl, rfl⟩ <;> rw [ran, ran'] <;>
    exact ⟨rfl, still.left, still.right⟩

private def readsOwn : ACLStore := (∅ : ACLStore).insert "amy" ⟨none, [], [⟨"a", ["read"]⟩]⟩

private def workingGroup : GroupCoordinator :=
  Machine.exec GroupCoordinator.step (newGroupCoordinator ⟨∅⟩)
      [.join { groupID := "b", memberID := "m" } 0 [] [], .expire "b" 0 [],
        .sync ⟨"b", 1, "m", ∅⟩ 0 true]
    |>.commitOffset ⟨"b", "t", 0, 7, 0, "", 0⟩

private def groupBroker (groups : GroupCoordinator) : GroupBroker := ⟨some readsOwn, groups, []⟩

private theorem sameOthers : SameOtherGroups "b" (groupBroker workingGroup)
    (groupBroker (workingGroup.step (.leave "b" "m"))) where
  acl := rfl
  script := rfl
  live other different := (workingGroup.step_lookup_ne (.leave "b" "m") other different).symm
  stored _ _ := rfl

theorem described_group_isolated :
    groupReply ⟨"amy", ""⟩ (.describeGroups ["a", "b"]) (groupBroker workingGroup) =
        groupReply ⟨"amy", ""⟩ (.describeGroups ["a", "b"])
          (groupBroker (workingGroup.step (.leave "b" "m"))) ∧
      groupsAfter ⟨"amy", ""⟩ (.describeGroups ["a", "b"]) (groupBroker workingGroup) =
        workingGroup := by
  have isolated := (ungranted_group_isolated_iff (some readsOwn) "b" ⟨"amy", ""⟩ (by decide +kernel)
    (.describeGroups ["a", "b"]) (by decide)).mpr trivial _ _ rfl sameOthers
  exact ⟨isolated.1, isolated.2.1⟩

/-- LeaveGroup takes a member out of a group that the principal has no grant on, and SyncGroup,
Heartbeat and OffsetFetch tell what is in it. -/
theorem unchecked_requests_reach_group :
    mayUseGroup (groupBroker workingGroup).acl "amy" "b" "read" = false ∧
      ((groupsAfter ⟨"amy", ""⟩ (.leaveGroup "b" "m" []) (groupBroker workingGroup)).entry
        "b").live.members.keys = [] ∧ (workingGroup.entry "b").live.members.keys = ["m"] ∧
      groupReply ⟨"amy", ""⟩ (.heartbeat ⟨"b", "m", 1⟩) (groupBroker workingGroup) ≠
        groupReply ⟨"amy", ""⟩ (.heartbeat ⟨"b", "m", 1⟩)
          (groupBroker (workingGroup.step (.leave "b" "m"))) ∧
      groupReply ⟨"amy", ""⟩ (.syncGroup ⟨"b", 1, "m", []⟩) (groupBroker workingGroup) ≠
        groupReply ⟨"amy", ""⟩ (.syncGroup ⟨"b", 1, "m", []⟩)
          (groupBroker (workingGroup.step (.leave "b" "m"))) ∧
      groupReply ⟨"amy", ""⟩ (.offsetFetch ⟨"b", [], []⟩) (groupBroker workingGroup) =
        .ok (some (.offsetFetch [⟨"t", [⟨0, 7, 0, none⟩]⟩] [])) := by
  decide +kernel

end KafkaWire.Wire
