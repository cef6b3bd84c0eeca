import KafkaWire.Broker.GroupEffects

/-! The protocol that a round selects: what `pickCommonProtocol` counts, and what it returns. -/

namespace KafkaWire.Broker

variable (visited : List MemberState) (name : String)

theorem decodeProtocolNames_eq (m : MemberState) : decodeProtocolNames m = m.protocols := by
  unfold decodeProtocolNames
  split
  · rfl
  · next empty => exact (List.length_eq_zero_iff.mp (Nat.eq_zero_of_not_pos empty)).symm

namespace Tally

variable (tally : Tally)

theorem count_note (other name : String) :
    (tally.note other).count name = tally.count name + if name = other then 1 else 0 := by
  by_cases same : name = other
  · subst same
    rw [note, count, AList.lookup_insert, if_pos rfl]
    rfl
  · rw [note, count, AList.lookup_insert_ne same, if_neg same]
    rfl

def Listed : Prop := ∀ name, name ∈ tally.order ↔ tally.count name ≠ 0

variable {tally}

theorem Listed.note (listed : tally.Listed) (other : String) : (tally.note other).Listed := by
  intro name
  rw [count_note]
  have kept := listed name
  have known := listed other
  by_cases same : name = other
  · subst same
    simp only [Tally.note]
    split <;> simp_all
  · simp only [Tally.note]
    split <;> simp_all

theorem note_order (other : String) : tally.order <+: (tally.note other).order := by
  unfold note
  split
  · exact List.prefix_append _ _
  · exact List.prefix_rfl

theorem count_member (seen names : List String) (name : String) :
    (tally.member seen names).count name =
      tally.count name + if name ∈ names ∧ name ∉ seen then 1 else 0 := by
  induction names generalizing tally seen with
  | nil => simp [member]
  | cons first names ih =>
    rw [member]
    split
    · next met =>
        rw [ih]
        by_cases same : name = first <;> simp [same, met]
    · next new =>
        rw [ih, count_note]
        by_cases same : name = first <;> simp [same, new]

theorem Listed.member (listed : tally.Listed) (seen names : List String) :
    (tally.member seen names).Listed := by
  induction names generalizing tally seen with
  | nil => exact listed
  | cons first names ih =>
    rw [Tally.member]
    split
    · exact ih listed seen
    · exact ih (listed.note first) _

theorem member_order (seen names : List String) : tally.order <+: (tally.member seen names).order := by
  induction names generalizing tally seen with
  | nil => exact List.prefix_rfl
  | cons first names ih =>
    rw [member]
    split
    · exact ih seen
    · exact (note_order first).trans (ih _)

def all (tally : Tally) (visited : List MemberState) : Tally :=
  visited.foldl (fun tally m => tally.member [] (decodeProtocolNames m)) tally

theorem all_spec (tally : Tally) (listed : tally.Listed) (visited : List MemberState) :
    (tally.all visited).Listed ∧ tally.order <+: (tally.all visited).order ∧
    ∀ name, (tally.all visited).count name =
      tally.count name + visited.countP fun m => name ∈ m.protocols := by
  induction visited generalizing tally with
  | nil => exact ⟨listed, List.prefix_rfl, fun name => rfl⟩
  | cons m visited ih =>
    obtain ⟨inOrder, longer, counts⟩ := ih _ (listed.member [] (decodeProtocolNames m))
    refine ⟨inOrder, (member_order _ _).trans longer, fun name => ?_⟩
    rw [show tally.all (m :: visited) =
      (tally.member [] (decodeProtocolNames m)).all visited from rfl, counts, count_member,
      decodeProtocolNames_eq, List.countP_cons]
    simp only [List.not_mem_nil, not_false_eq_true, and_true, decide_eq_true_eq]
    omega

end Tally

theorem mem_visit (order : List String) (members : Table MemberState) (m : MemberState) :
    m ∈ visit order members ↔ ∃ id, members.lookup id = some m := by
  have visited := LiveGroup.visit_perm order members
  rw [visit, List.mem_filterMap]
  constructor
  · rintro ⟨id, -, found⟩
    exact ⟨id, found⟩
  · rintro ⟨id, found⟩
    exact ⟨id, visited.symm.subset (AList.mem_keys.mp (mem_of_lookup found)), found⟩

theorem tally_spec :
    (Tally.all {} visited).Listed ∧
    ∀ name, (Tally.all {} visited).count name = visited.countP fun m => name ∈ m.protocols := by
  obtain ⟨listed, -, counts⟩ := Tally.all_spec {} (by intro name; simp [Tally.count]) visited
  refine ⟨listed, fun name => (counts name).trans ?_⟩
  simp [Tally.count]

theorem tally_first (m : MemberState) (visited : List MemberState) (name : String)
    (first : m.protocols.head? = some name) :
    ∃ others, (Tally.all {} (m :: visited)).order = name :: others := by
  obtain ⟨others, names⟩ := List.head?_eq_some_iff.mp first
  have listed : (Tally.member {} [] (decodeProtocolNames m)).Listed :=
    Tally.Listed.member (by intro name; simp [Tally.count]) _ _
  have longer := (Tally.all_spec _ listed visited).2.1
  rw [decodeProtocolNames_eq, names] at longer
  obtain ⟨rest, same⟩ := (Tally.member_order [name] others).trans longer
  rw [← names, ← decodeProtocolNames_eq] at same
  exact ⟨rest, same.symm⟩

def selects (visited : List MemberState) : Option String :=
  (Tally.all {} visited).order.find? fun name =>
    (Tally.all {} visited).count name = visited.length

theorem pickCommonProtocol_selects (order : List String) (lg : LiveGroup) (name : String)
    (selected : selects (visit order lg.members) = some name) :
    pickCommonProtocol order lg = name := by
  unfold pickCommonProtocol
  dsimp only
  split
  · next chosen found => exact Option.some.inj (found.symm.trans selected)
  · next missing => cases missing.symm.trans selected

theorem count_eq_length_iff :
    (Tally.all {} visited).count name = visited.length ↔ ∀ m ∈ visited, name ∈ m.protocols := by
  rw [(tally_spec visited).2, List.countP_eq_length]
  simp only [decide_eq_true_eq]

theorem selects_common (inhabited : visited ≠ []) (everyone : ∀ m ∈ visited, name ∈ m.protocols) :
    ∃ chosen, selects visited = some chosen ∧ ∀ m ∈ visited, chosen ∈ m.protocols := by
  have full := (count_eq_length_iff visited name).mpr everyone
  have counted : name ∈ (Tally.all {} visited).order := by
    rw [(tally_spec visited).1 name, full]
    exact fun empty => inhabited (List.length_eq_zero_iff.mp empty)
  cases selected : selects visited with
  | none => exact absurd full (by simpa using List.find?_eq_none.mp selected name counted)
  | some chosen =>
    rw [selects] at selected
    have reached := List.find?_some selected
    exact ⟨chosen, rfl, (count_eq_length_iff visited chosen).mp (of_decide_eq_true reached)⟩

theorem selects_favourite (inhabited : visited ≠ [])
    (everyone : ∀ m ∈ visited, m.protocols.head? = some name) : selects visited = some name := by
  obtain ⟨m, rest, rfl⟩ := List.exists_cons_of_ne_nil inhabited
  obtain ⟨others, order⟩ := tally_first m rest name (everyone m List.mem_cons_self)
  have full := (count_eq_length_iff (m :: rest) name).mpr fun m' present =>
    List.mem_of_head? (everyone m' present)
  rw [selects, order, List.find?_cons_of_pos (by rw [full]; exact decide_eq_true rfl)]

/-- Whatever the order in which the members are visited, a protocol that all members list is
selected if there is one. -/
theorem selected_protocol_common (order : List String) (lg : LiveGroup)
    (common : ∃ name, ∀ id m, lg.members.lookup id = some m → name ∈ m.protocols) :
    ∀ id m, lg.members.lookup id = some m → pickCommonProtocol order lg ∈ m.protocols := by
  intro id m found
  obtain ⟨name, everyone⟩ := common
  have present : m ∈ visit order lg.members := (mem_visit order lg.members m).mpr ⟨id, found⟩
  obtain ⟨chosen, selected, shared⟩ := selects_common (visit order lg.members) name
    (List.ne_nil_of_mem present) fun m' visited => by
      obtain ⟨id', found'⟩ := (mem_visit order lg.members m').mp visited
      exact everyone id' m' found'
  rw [pickCommonProtocol_selects order lg chosen selected]
  exact shared m present

def twoListings : LiveGroup :=
  (LiveGroup.register { id := "readers", persisted := { groupID := "readers" } } "a"
    { groupID := "readers", protocols := [⟨"range", [1]⟩, ⟨"sticky", [2]⟩, ⟨"range", [3]⟩] } 0).register
    "b" { groupID := "readers", protocols := [⟨"sticky", [4]⟩] } 0

theorem common_protocol_selected :
    ∃ m, twoListings.members.lookup "a" = some m ∧
      pickCommonProtocol ["b", "a"] twoListings ∈ m.protocols := by
  have all : ∀ entry ∈ twoListings.members.entries, "sticky" ∈ entry.2.protocols := by decide
  obtain ⟨m, found⟩ := Option.isSome_iff_exists.mp
    (by decide : (twoListings.members.lookup "a").isSome = true)
  refine ⟨m, found, selected_protocol_common ["b", "a"] twoListings ⟨"sticky", ?_⟩ "a" m found⟩
  exact fun id m found => all _ (AList.mem_lookup_iff.mp found)

end KafkaWire.Broker
