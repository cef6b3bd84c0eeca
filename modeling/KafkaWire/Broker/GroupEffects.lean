import KafkaWire.Broker.Requests

/-! What the pieces of a group request change. -/

namespace KafkaWire.Broker

open Storage (int32)

variable (gone : String → MemberState → Bool) (order : List String) (lg : LiveGroup)
  (members : Table MemberState) (round : RebalanceRound) (id : String)

theorem mem_of_lookup {T : Type} {table : Table T} {id : String} {value : T}
    (found : table.lookup id = some value) : id ∈ table := by
  rw [← AList.lookup_isSome, found]
  rfl

theorem lookup_of_mem {T : Type} {table : Table T} {id : String} (present : id ∈ table) :
    ∃ value, table.lookup id = some value :=
  Option.isSome_iff_exists.mp (AList.lookup_isSome.mpr present)

def MemberState.assigned (member : MemberState) (assignment : Option Bytes) : MemberState :=
  { member with assignment := assignment.getD member.assignment }

theorem assign_lookup (assignments : Table Bytes) (id : String) :
    (assign members assignments).lookup id =
      (members.lookup id).map fun member => member.assigned (assignments.lookup id) := by
  have loop : ∀ (entries : List (Sigma fun _ : String => Bytes)), entries.NodupKeys →
      ∀ members : Table MemberState, (entries.foldl (fun members entry =>
        (members.lookup entry.1).elim members fun mm =>
          members.insert entry.1 { mm with assignment := entry.2 }) members).lookup id =
      (members.lookup id).map fun member => member.assigned (entries.dlookup id) := by
    intro entries
    induction entries with
    | nil =>
      intro _ members
      rw [List.foldl_nil]
      cases members.lookup id <;> rfl
    | cons entry entries ih =>
      intro distinct members
      obtain ⟨alone, distinct⟩ := List.nodupKeys_cons.mp distinct
      rw [List.foldl_cons, ih distinct]
      by_cases same : id = entry.1
      · subst same
        have once : entries.dlookup entry.1 = none := List.dlookup_eq_none.mpr alone
        rw [once, List.dlookup_cons_eq]
        cases found : members.lookup entry.1 with
        | none => simp [found]
        | some member => simp [MemberState.assigned]
      · rw [List.dlookup_cons_ne _ _ same]
        cases members.lookup entry.1 with
        | none => rfl
        | some member => rw [Option.elim_some, AList.lookup_insert_ne same]
  have same : assign members assignments = assignments.entries.foldl (fun members entry =>
      (members.lookup entry.1).elim members fun mm =>
        members.insert entry.1 { mm with assignment := entry.2 }) members := by
    unfold assign
    congr
    funext members entry
    cases members.lookup entry.1 <;> rfl
  rw [same]
  exact loop assignments.entries assignments.nodupKeys members

theorem assign_mem (assignments : Table Bytes) (id : String) :
    id ∈ assign members assignments ↔ id ∈ members := by
  rw [← AList.lookup_isSome, ← AList.lookup_isSome, assign_lookup, Option.isSome_map]

namespace LiveGroup

/-- `lg'` has lost members, with their heartbeats and the leader's seat if it was theirs, and is
otherwise `lg`. -/
structure Shrunk (lg lg' : LiveGroup) : Prop where
  rest : ∃ members heartbeats leader,
    lg' = { lg.setMembers members with heartbeats := heartbeats, leader := leader }
  kept : ∀ id member, lg'.members.lookup id = some member → lg.members.lookup id = some member
  beats : ∀ id ∈ lg'.heartbeats, id ∈ lg.heartbeats ∧ (id ∈ lg.members → id ∈ lg'.members)
  seat : lg'.leader = "" ∧ lg.leader ∉ lg'.members ∨
    lg'.leader = lg.leader ∧ (lg.leader ∈ lg.members → lg.leader ∈ lg'.members)

theorem Shrunk.refl : Shrunk lg lg :=
  ⟨⟨lg.members, lg.heartbeats, lg.leader, rfl⟩, fun _ _ found => found, fun _ beat => ⟨beat, fun here => here⟩,
    .inr ⟨rfl, fun here => here⟩⟩

theorem Shrunk.mem {lg lg' : LiveGroup} (shrunk : Shrunk lg lg') {id : String}
    (present : id ∈ lg'.members) : id ∈ lg.members := by
  obtain ⟨member, found⟩ := lookup_of_mem present
  exact mem_of_lookup (shrunk.kept id member found)

theorem Shrunk.trans {first second third : LiveGroup} (front : Shrunk first second)
    (back : Shrunk second third) : Shrunk first third := by
  refine ⟨?_, fun id member found => front.kept id member (back.kept id member found),
    fun id beat => ?_, ?_⟩
  · obtain ⟨_, _, _, rfl⟩ := front.rest
    obtain ⟨members, heartbeats, leader, rfl⟩ := back.rest
    exact ⟨members, heartbeats, leader, rfl⟩
  · obtain ⟨earlier, stays⟩ := back.beats id beat
    exact ⟨(front.beats id earlier).1, fun present => stays ((front.beats id earlier).2 present)⟩
  · rcases front.seat with ⟨vacant, gone⟩ | ⟨same, stays⟩
    · refine .inl ⟨?_, fun present => gone (back.mem present)⟩
      rcases back.seat with ⟨vacant', _⟩ | ⟨same', _⟩
      · exact vacant'
      · exact same'.trans vacant
    · rw [← same]
      exact back.seat.imp_right fun later => ⟨later.1, fun present => later.2 (by
        rw [same] at present ⊢
        exact stays present)⟩

theorem drop_lookup (memberID id : String) :
    (lg.drop memberID).members.lookup id =
      if id = memberID then none else lg.members.lookup id := by
  have erased : (lg.drop memberID).members = lg.members.erase memberID := rfl
  rw [erased]
  split
  · next same => rw [same, AList.lookup_erase]
  · next other => rw [AList.lookup_erase_ne other]

theorem drop_shrunk (memberID : String) : Shrunk lg (lg.drop memberID) := by
  refine ⟨⟨_, _, _, rfl⟩, fun id member found => ?_, fun id beat => ?_, ?_⟩
  · rw [drop_lookup] at found
    split at found
    · cases found
    · exact found
  · obtain ⟨other, earlier⟩ := AList.mem_erase.mp beat
    exact ⟨earlier, fun present => AList.mem_erase.mpr ⟨other, present⟩⟩
  · by_cases leads : lg.leader = memberID
    · exact .inl ⟨if_pos leads, fun present => (AList.mem_erase.mp present).1 leads⟩
    · exact .inr ⟨if_neg leads, fun present => AList.mem_erase.mpr ⟨leads, present⟩⟩

theorem dropLoop_spec (entries : List (Sigma fun _ : String => MemberState)) (lg : LiveGroup) :
    let lg' := entries.foldl
      (fun lg entry => if gone entry.1 entry.2 then lg.drop entry.1 else lg) lg
    Shrunk lg lg' ∧ ∀ id, lg'.members.lookup id =
      if entries.any fun entry => entry.1 == id && gone entry.1 entry.2 then none
      else lg.members.lookup id := by
  induction entries generalizing lg with
  | nil => exact ⟨.refl lg, fun id => by simp⟩
  | cons entry entries ih =>
    simp only [List.foldl_cons]
    obtain ⟨shrunk, lookups⟩ := ih (if gone entry.1 entry.2 then lg.drop entry.1 else lg)
    by_cases leaves : gone entry.1 entry.2
    · rw [if_pos leaves] at shrunk lookups ⊢
      refine ⟨(drop_shrunk lg entry.1).trans shrunk, fun id => ?_⟩
      rw [lookups, drop_lookup, List.any_cons, leaves]
      by_cases same : id = entry.1
      · rw [if_pos same, same, beq_self_eq_true]
        simp
      · rw [if_neg same, beq_false_of_ne (Ne.symm same)]
        rfl
    · rw [if_neg leaves] at shrunk lookups ⊢
      refine ⟨shrunk, fun id => ?_⟩
      rw [lookups, List.any_cons, Bool.eq_false_iff.mpr leaves, Bool.and_false, Bool.false_or]

theorem dropWhere_shrunk :
    Shrunk lg (lg.dropWhere gone) := (dropLoop_spec gone lg.members.entries lg).1

theorem dropWhere_lookup :
    (lg.dropWhere gone).members.lookup id =
      (lg.members.lookup id).filter fun member => !gone id member := by
  rw [dropWhere, (dropLoop_spec gone lg.members.entries lg).2]
  cases found : lg.members.lookup id with
  | none => simp
  | some member =>
    have listed : Sigma.mk id member ∈ lg.members.entries := AList.mem_lookup_iff.mp found
    have only : (lg.members.entries.any fun entry => entry.1 == id && gone entry.1 entry.2) =
        gone id member := by
      rw [Bool.eq_iff_iff, List.any_eq_true]
      simp only [Bool.and_eq_true, beq_iff_eq]
      constructor
      · rintro ⟨⟨_, other⟩, present, rfl, leaves⟩
        have same := AList.mem_lookup_iff.mpr present
        rw [found, Option.mem_some_iff] at same
        rwa [same]
      · intro leaves
        exact ⟨_, listed, rfl, leaves⟩
    rw [Option.filter_some]
    by_cases leaves : gone id member <;> simp [only, leaves]

theorem dropWhere_none
    (stays : ∀ id member, lg.members.lookup id = some member → gone id member = false) :
    lg.dropWhere gone = lg := by
  have same : ∀ entries : List (Sigma fun _ : String => MemberState),
      (∀ entry ∈ entries, gone entry.1 entry.2 = false) → entries.foldl
        (fun lg entry => if gone entry.1 entry.2 then lg.drop entry.1 else lg) lg = lg := by
    intro entries all
    induction entries with
    | nil => rfl
    | cons entry entries ih =>
      rw [List.foldl_cons, all entry List.mem_cons_self]
      exact ih fun other present => all other (List.mem_cons_of_mem _ present)
  exact same _ fun entry present => stays _ _ (AList.mem_lookup_iff.mpr present)

theorem sweep_shrunk (args : JoinGroupArgs) (now : Int) : Shrunk lg (lg.sweep args now) := by
  have evicted : Shrunk lg (lg.evictExpired now) := dropWhere_shrunk _ lg
  unfold sweep
  split
  · unfold replaceClient
    split
    · exact evicted.trans (dropWhere_shrunk _ _)
    · exact evicted
  · exact evicted

theorem settle_lookup :
    (lg.settle order round).members.lookup id =
      if id ∈ round.joined then lg.members.lookup id else none := by
  have members : (lg.settle order round).members =
      (lg.dropWhere fun id _ => id ∉ round.joined).members := by
    unfold settle nextGeneration seatLeader
    split <;> rfl
  rw [members, dropWhere_lookup]
  by_cases joined : id ∈ round.joined <;> cases lg.members.lookup id <;> simp [joined]

theorem settle_fields :
    (lg.settle order round).persisted.generation = int32 (lg.persisted.generation + 1) ∧
      (lg.settle order round).state = .completingRebalance ∧
      (lg.settle order round).past = lg.past := by
  obtain ⟨members, heartbeats, leader, dropped⟩ :=
    (dropWhere_shrunk (fun id _ => id ∉ round.joined) lg).rest
  unfold settle nextGeneration seatLeader
  rw [dropped]
  refine ⟨?_, rfl, ?_⟩ <;> split <;> rfl

theorem pickLeader_mem (inhabited : members.keys ≠ []) : pickLeader members ∈ members := by
  have sorted := List.perm_insertionSort (· ≤ ·) members.keys
  unfold pickLeader
  cases front : members.keys.insertionSort (· ≤ ·) with
  | nil =>
    rw [front] at sorted
    exact absurd sorted.symm.eq_nil inhabited
  | cons first others =>
    have present : first ∈ members.keys := sorted.subset (by simp [front])
    exact AList.mem_keys.mpr present

theorem settle_leader (inhabited : (lg.settle order round).members.keys ≠ []) :
    (lg.settle order round).leader ∈ (lg.settle order round).members := by
  unfold settle nextGeneration at inhabited ⊢
  unfold seatLeader at inhabited ⊢
  split at inhabited
  · next vacant =>
      rw [if_pos vacant]
      exact pickLeader_mem _ inhabited
  · next seated =>
      rw [if_neg seated]
      exact not_not.mp fun gone => seated (.inr gone)

theorem answer_lookup :
    (lg.answer order round).lookup id =
      if id ∈ round.joined ∧ id ∈ lg.members then some (lg.result order id)
      else round.results.lookup id := by
  have loop : ∀ (joined : List String) (results : Table JoinGroupResult),
      (joined.foldl (fun results id => if id ∈ lg.members then
        results.insert id (lg.result order id) else results) results).lookup id =
      if id ∈ joined ∧ id ∈ lg.members then some (lg.result order id) else results.lookup id := by
    intro joined
    induction joined with
    | nil => simp
    | cons first joined ih =>
      intro results
      rw [List.foldl_cons, ih]
      by_cases same : id = first
      · subst same
        by_cases present : id ∈ lg.members <;> simp [present, AList.lookup_insert]
      · by_cases present : first ∈ lg.members <;>
          simp [present, same, AList.lookup_insert_ne same]
  exact loop round.joined round.results

theorem visit_perm :
    ((order.filter (· ∈ members)).dedup ++ members.keys.filter (· ∉ order)).Perm members.keys := by
  refine (List.perm_ext_iff_of_nodup ?_ members.keys_nodup).mpr fun id => ?_
  · refine List.Nodup.append (List.nodup_dedup _) (members.keys_nodup.filter _) ?_
    intro id early late
    simp only [List.mem_dedup, List.mem_filter, decide_eq_true_eq] at early late
    exact late.2 early.1
  · simp only [List.mem_append, List.mem_dedup, List.mem_filter, decide_eq_true_eq, AList.mem_keys]
    by_cases named : id ∈ order <;> simp [named]

theorem memberList_ids
    (named : ∀ id member, lg.members.lookup id = some member → member.memberID = id) :
    ((lg.memberList order).map (·.memberID)).Perm lg.members.keys := by
  have ids : ∀ keys : List String, (∀ id ∈ keys, id ∈ lg.members) →
      (keys.filterMap fun id => lg.members.lookup id).map (·.memberID) = keys := by
    intro keys
    induction keys with
    | nil => simp
    | cons id keys ih =>
      intro present
      obtain ⟨member, found⟩ := lookup_of_mem (present id List.mem_cons_self)
      simp only [List.filterMap_cons, found, List.map_cons]
      rw [named id member found,
        ih fun other listed => present other (List.mem_cons_of_mem _ listed)]
  have visited := visit_perm order lg.members
  have listed := ids _ fun id present => AList.mem_keys.mpr (visited.subset present)
  have sorted := (List.perm_insertionSort
    (fun left right : JoinGroupMember => left.memberID ≤ right.memberID)
    ((visit order lg.members).map fun mm => JoinGroupMember.mk mm.memberID mm.subscription)).map
      (·.memberID)
  rw [List.map_map] at sorted
  refine sorted.trans ?_
  have same : (visit order lg.members).map ((fun m : JoinGroupMember => m.memberID) ∘
      fun mm => JoinGroupMember.mk mm.memberID mm.subscription) =
      (order.filter (· ∈ lg.members)).dedup ++ lg.members.keys.filter (· ∉ order) := listed
  rw [same]
  exact visited

end LiveGroup

end KafkaWire.Broker
