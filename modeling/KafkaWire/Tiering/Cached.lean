import KafkaWire.Lib.Tables
import KafkaWire.Tiering.Cache
import KafkaWire.Tiering.Keys

/-! What the cache of restored segments holds: the paths of its files, what a deleted topic leaves
behind, and what an eviction takes away. -/

namespace KafkaWire.Tiering

open Paths Storage

variable (files : List (Path × CachedFile))

variable {path : Path} {file : CachedFile}

section Paths

def ownerNames (tenant : String) : List String := if tenant = "" then [] else ["tenants", tenant]

theorem plain_tenants : Plain "tenants" := ⟨by decide, by decide, by decide, by decide⟩

theorem plain_ownerNames {tenant : String} (owner : tenant = "" ∨ Plain tenant) :
    ∀ name ∈ ownerNames tenant, Plain name := by
  intro name member
  rw [ownerNames] at member
  split at member
  · cases member
  · next named =>
      rcases List.mem_cons.mp member with rfl | last
      · exact plain_tenants
      · rw [List.mem_singleton.mp last]
        exact owner.resolve_left named

theorem ownerNames_injective {tenant tenant' : String} (same : ownerNames tenant = ownerNames tenant') :
    tenant = tenant' := by
  simp only [ownerNames] at same
  split at same <;> split at same <;> simp_all

variable {c : Cache} {tenant topic kind : String} {partition baseOffset : Int}

theorem Cache.pathTenant_eq (valid : Broker.validateName kind topic = .ok ())
    (owner : tenant = "" ∨ Plain tenant) : c.pathTenant tenant topic partition baseOffset =
      ⟨(join [c.dir]).rooted,
        (join [c.dir]).names ++ (ownerNames tenant ++ copyNames topic partition baseOffset)⟩ := by
  have plain : ∀ name ∈ ownerNames tenant ++ copyNames topic partition baseOffset, Plain name := by
    intro name member
    rcases List.mem_append.mp member with above | below
    · exact plain_ownerNames owner name above
    · exact (copyNames_spec valid partition baseOffset name below).1
  rw [← join_append [c.dir] _ plain, Cache.pathTenant, ownerNames]
  split <;> rfl

theorem Cache.pathTenant_injective {tenant' topic' : String} {partition' baseOffset' : Int}
    (valid : Broker.validateName kind topic = .ok ()) (valid' : Broker.validateName kind topic' = .ok ())
    (owner : tenant = "" ∨ Plain tenant) (owner' : tenant' = "" ∨ Plain tenant')
    (same : c.pathTenant tenant topic partition baseOffset =
      c.pathTenant tenant' topic' partition' baseOffset') :
    tenant = tenant' ∧ topic = topic' ∧ partition = partition' ∧ baseOffset = baseOffset' := by
  rw [pathTenant_eq valid owner, pathTenant_eq valid' owner', Paths.Path.mk.injEq] at same
  have names := List.append_cancel_left same.2
  obtain ⟨owners, copies⟩ := append_copyNames_injective names
  exact ⟨ownerNames_injective owners, copies⟩

theorem Cache.lookup_dropTopic (run : DropRun) (path : Path) :
    (c.dropTopic topic run).files.lookup path =
      if path ∈ c.droppedFiles topic run then none else c.files.lookup path :=
  Tables.lookup_eraseAll _ _ _

theorem Cache.dropTopic_sub {run : DropRun}
    (found : (c.dropTopic topic run).files.lookup path = some file) :
    c.files.lookup path = some file := by
  rw [Cache.lookup_dropTopic] at found
  split at found
  · cases found
  · exact found

theorem join_under (dir : String) (front names : List String) (plain : ∀ name ∈ front, Plain name) :
    (join (dir :: front)).under
      ⟨(join [dir]).rooted, (join [dir]).names ++ (front ++ names)⟩ = true := by
  have front' := join_append [dir] front plain
  rw [List.singleton_append] at front'
  rw [front', ← List.append_assoc]
  exact under_append _ _

theorem Cache.mem_tenants {names : List String}
    (stored : ⟨(join [c.dir]).rooted, (join [c.dir]).names ++ (["tenants", tenant] ++ names)⟩ ∈
      c.files.keys) : tenant ∈ c.tenants := by
  refine List.mem_filterMap.mpr ⟨_, stored, ?_⟩
  have root : ∀ name ∈ ["tenants"], Plain name := by
    intro name member
    rw [List.mem_singleton.mp member]
    exact plain_tenants
  have inside := join_under c.dir ["tenants"] (tenant :: names) root
  have shape := join_append [c.dir] ["tenants"] root
  rw [List.singleton_append] at shape
  refine (if_pos inside).trans ?_
  rw [shape, List.length_append, List.length_singleton,
    List.getElem?_append_right (Nat.le_add_right _ _), Nat.add_sub_cancel_left]
  rfl

theorem Cache.mem_filesUnder (valid : Broker.validateName kind topic = .ok ())
    (owner : tenant = "" ∨ Plain tenant)
    (found : c.files.lookup (c.pathTenant tenant topic partition baseOffset) = some file) :
    c.pathTenant tenant topic partition baseOffset ∈
      c.filesUnder (c.topicDirs c.tenants topic) := by
  have plainTopic := Broker.plain_of_valid valid
  have stored := AList.mem_keys.mp (AList.lookup_isSome.mp (by rw [found]; rfl))
  refine List.mem_filter.mpr ⟨stored, ?_⟩
  rw [Cache.pathTenant_eq valid owner] at stored ⊢
  rw [Cache.topicDirs, List.any_cons, Bool.or_eq_true]
  by_cases shared : tenant = ""
  · left
    rw [ownerNames, if_pos shared, List.nil_append]
    exact join_under c.dir [topic] _ (by simpa using plainTopic)
  · right
    have plainTenant := owner.resolve_left shared
    rw [ownerNames, if_neg shared] at stored ⊢
    refine List.any_eq_true.mpr
      ⟨_, List.mem_map.mpr ⟨tenant, Cache.mem_tenants stored, rfl⟩, ?_⟩
    refine join_under c.dir ["tenants", tenant, topic] _ ?_
    simpa using ⟨plain_tenants, plainTenant, plainTopic⟩

end Paths

section Evicting

variable {c : Cache} {cutoff now : Int}

@[simp] theorem Cache.evictLoop_dir (c : Cache) : (evictLoop cutoff files c).dir = c.dir := by
  induction files generalizing c with
  | nil => rfl
  | cons entry files ih =>
    simp only [evictLoop]
    split
    · rfl
    · split
      · exact ih c
      · exact ih _

theorem Cache.evictLoop_sub
    (c : Cache) (found : (evictLoop cutoff files c).files.lookup path = some file) :
    c.files.lookup path = some file := by
  induction files generalizing c with
  | nil => exact found
  | cons entry files ih =>
    simp only [evictLoop] at found
    split at found
    · exact found
    · split at found
      · exact ih c found
      · have before := ih _ found
        rw [Tables.lookup_erase_eq] at before
        split at before
        · cases before
        · exact before

theorem Cache.evictLoop_keeps (c : Cache)
    (recent : ∀ file, (path, file) ∈ files → cutoff < file.mtime) :
    (evictLoop cutoff files c).files.lookup path = c.files.lookup path := by
  induction files generalizing c with
  | nil => rfl
  | cons entry files ih =>
    have onwards := fun c => ih c fun file member => recent file (List.mem_cons_of_mem _ member)
    simp only [evictLoop]
    split
    · rfl
    · split
      · exact onwards c
      · next old =>
          rw [onwards, Tables.lookup_erase_eq, if_neg]
          rintro rfl
          exact old (recent entry.2 List.mem_cons_self)

variable {crypto : Crypto} {tenant topic expected : String} {partition baseOffset : Int} {data : Bytes}
  {after : Cache}

theorem Cache.putTenantStream_spec
    (put : c.putTenantStream crypto tenant topic partition baseOffset data expected now = some after) :
    (expected ≠ "" → crypto.sha256 data = expected) ∧ after.dir = c.dir ∧
      after.files.lookup (c.pathTenant tenant topic partition baseOffset) = some ⟨data, now⟩ ∧
      ∀ path file, after.files.lookup path = some file →
        path = c.pathTenant tenant topic partition baseOffset ∧ file = ⟨data, now⟩ ∨
          c.files.lookup path = some file := by
  rw [putTenantStream] at put
  split at put
  · cases put
  · next right =>
      cases put
      refine ⟨fun some => ?_, evictLoop_dir _ _, ?_, fun path file found => ?_⟩
      · by_contra different
        exact right ⟨some, different⟩
      · rw [evictLockedIfNeeded, evictLoop_keeps]
        · rw [AList.lookup_insert]
        · intro file member
          obtain ⟨⟨path, stored⟩, listed, same⟩ :=
            List.mem_map.mp ((List.mem_insertionSort _).mp member)
          obtain ⟨rfl, rfl⟩ := Prod.mk.inj same
          have found := AList.mem_lookup_iff.mpr listed
          rw [AList.lookup_insert] at found
          rw [← Option.some.inj found, evictionGrace]
          exact Int.sub_lt_self now (by decide)
      · have before := evictLoop_sub _ _ found
        rw [Tables.lookup_insert_eq] at before
        split at before
        · next same => exact .inl ⟨same, (Option.some.inj before).symm⟩
        · exact .inr before

end Evicting

end KafkaWire.Tiering
