import KafkaWire.Tiering.Cached

/-! Which files an eviction removes from the cache of restored segments, and when it ends. -/

namespace KafkaWire.Tiering

open Paths (Path)

namespace Cache

def without (c : Cache) (paths : List Path) : Cache :=
  { c with files := Tables.eraseAll c.files paths }

theorem lookup_without (c : Cache) (paths : List Path) (path : Path) :
    (c.without paths).files.lookup path = if path ∈ paths then none else c.files.lookup path :=
  Tables.lookup_eraseAll _ _ _

/-- What the loop does with a list of files from the oldest to the newest: it removes those at the
front until the cap is met or only files of the grace period are left. -/
theorem evictLoop_removes (cutoff : Int) (files : List (Path × CachedFile)) (c : Cache)
    (ordered : files.Pairwise fun first second => first.2.mtime ≤ second.2.mtime) :
    ∃ removed kept, files = removed ++ kept ∧
      evictLoop cutoff files c = c.without (removed.map Prod.fst) ∧
      (∀ entry ∈ removed, entry.2.mtime ≤ cutoff) ∧
      ((evictLoop cutoff files c).sizeBytes ≤ c.maxBytes ∨ ∀ entry ∈ kept, cutoff < entry.2.mtime) ∧
      ∀ front entry back, removed = front ++ entry :: back →
        c.maxBytes < (c.without (front.map Prod.fst)).sizeBytes := by
  induction files generalizing c with
  | nil => exact ⟨[], [], rfl, rfl, by simp, .inr (by simp), by simp⟩
  | cons entry files ih =>
    obtain ⟨path, file⟩ := entry
    obtain ⟨newer, ordered⟩ := List.pairwise_cons.mp ordered
    rw [evictLoop]
    split
    · next fits =>
        exact ⟨[], (path, file) :: files, rfl, rfl, by simp, .inl fits, by simp⟩
    · next above =>
        split
        · next recent =>
            -- The files behind this one are no older, so the loop removes none of them.
            obtain ⟨removed, kept, rfl, same, old, ends, needed⟩ := ih c ordered
            obtain rfl : removed = [] := by
              refine List.eq_nil_iff_forall_not_mem.mpr fun other member => ?_
              have later := newer other (List.mem_append_left _ member)
              have early := old other member
              dsimp only at later
              omega
            refine ⟨[], (path, file) :: kept, rfl, same, by simp, ?_, by simp⟩
            exact ends.imp_right fun young => List.forall_mem_cons.mpr ⟨recent, young⟩
        · next old =>
            obtain ⟨removed, kept, rfl, same, old', ends, needed⟩ :=
              ih { c with files := c.files.erase path } ordered
            refine ⟨(path, file) :: removed, kept, rfl, same,
              List.forall_mem_cons.mpr ⟨not_lt.mp old, old'⟩, ends, ?_⟩
            intro front entry back shape
            cases front with
            | nil => exact not_le.mp above
            | cons first front =>
              obtain ⟨rfl, rest⟩ := List.cons.inj shape
              exact needed front entry back rest

structure Evicted (c : Cache) (now : Int) (after : Cache) : Prop where
  enough : after.sizeBytes ≤ c.maxBytes ∨
    ∀ path file, after.files.lookup path = some file → now - evictionGrace < file.mtime
  grace : ∀ path file, c.files.lookup path = some file → now - evictionGrace < file.mtime →
    after.files.lookup path = some file
  oldest : ∀ path file, c.files.lookup path = some file → after.files.lookup path = none →
    ∀ other kept, after.files.lookup other = some kept → file.mtime ≤ kept.mtime
  needed : ∃ removed, after = c.without removed ∧ ∀ front path back, removed = front ++ path :: back →
    c.maxBytes < (c.without front).sizeBytes

theorem evictLoop_evicted (c : Cache) (now : Int) (files : List (Path × CachedFile))
    (listed : files.Perm (c.files.entries.map fun entry => (entry.1, entry.2)))
    (ordered : files.Pairwise fun first second => first.2.mtime ≤ second.2.mtime) :
    c.Evicted now (evictLoop (now - evictionGrace) files c) := by
  have member (path : Path) (file : CachedFile) :
      (path, file) ∈ files ↔ c.files.lookup path = some file := by
    rw [listed.mem_iff, List.mem_map, ← Option.mem_def, AList.mem_lookup_iff]
    constructor
    · rintro ⟨entry, here, same⟩
      obtain ⟨rfl, rfl⟩ := Prod.mk.inj same
      exact here
    · exact fun here => ⟨⟨path, file⟩, here, rfl⟩
  obtain ⟨removed, kept, rfl, same, old, ends, needed⟩ := evictLoop_removes (now - evictionGrace) files c ordered
  have gone (path : Path) (file : CachedFile) (found : c.files.lookup path = some file) :
      (c.without (removed.map Prod.fst)).files.lookup path = none ↔ (path, file) ∈ removed := by
    rw [lookup_without]
    split
    · next here =>
        obtain ⟨⟨path', file'⟩, there, rfl⟩ := List.mem_map.mp here
        have known := (member path' file').mp (List.mem_append_left _ there)
        obtain rfl := Option.some.inj (known.symm.trans found)
        exact ⟨fun _ => there, fun _ => rfl⟩
    · next absent =>
        rw [found]
        exact ⟨nofun, fun there => absurd (List.mem_map_of_mem there) absent⟩
  have stays (path : Path) (file : CachedFile)
      (found : (c.without (removed.map Prod.fst)).files.lookup path = some file) :
      (path, file) ∈ kept := by
    rw [lookup_without] at found
    split at found
    · cases found
    · next absent =>
        refine (List.mem_append.mp ((member path file).mpr found)).resolve_left fun there => ?_
        exact absent (List.mem_map_of_mem there)
  rw [same] at ends ⊢
  refine ⟨ends.imp_right fun young path file found => young _ (stays path file found), ?_, ?_, ?_⟩
  · intro path file found recent
    rw [lookup_without, if_neg, found]
    intro here
    have removed' := (gone path file found).mp (by rw [lookup_without, if_pos here])
    exact absurd (old _ removed') (not_le.mpr recent)
  · intro path file found absent other file' present
    exact (List.pairwise_append.mp ordered).2.2 _ ((gone path file found).mp absent) _
      (stays other file' present)
  · refine ⟨removed.map Prod.fst, rfl, fun front path back shape => ?_⟩
    obtain ⟨front', rest, rfl, rfl, behind⟩ := List.map_eq_append_iff.mp shape
    obtain ⟨entry, back', rfl, -⟩ := List.map_eq_cons_iff.mp behind
    exact needed front' entry back' rfl

/-- Whichever order the sort leaves files of the same age in. -/
theorem eviction_cap_or_grace (c : Cache) (now : Int) :
    c.Evicted now (c.evictLockedIfNeeded now) ∧
      ∀ files : List (Path × CachedFile),
        files.Perm (c.files.entries.map fun entry => (entry.1, entry.2)) →
        (files.Pairwise fun first second => first.2.mtime ≤ second.2.mtime) →
        c.Evicted now (evictLoop (now - evictionGrace) files c) := by
  have total : Std.Total fun first second : Path × CachedFile => first.2.mtime ≤ second.2.mtime :=
    ⟨fun first second => le_total first.2.mtime second.2.mtime⟩
  have trans : IsTrans (Path × CachedFile) fun first second => first.2.mtime ≤ second.2.mtime :=
    ⟨fun _ _ _ => le_trans⟩
  exact ⟨evictLoop_evicted c now _ (List.perm_insertionSort _ _) (List.pairwise_insertionSort _ _),
    fun files listed ordered => evictLoop_evicted c now files listed ordered⟩

end Cache

end KafkaWire.Tiering
