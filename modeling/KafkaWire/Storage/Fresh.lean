import KafkaWire.Storage.AppendEffects

/-! Opening the log of a partition whose directory is empty, and runs of appends on it. -/

namespace KafkaWire.Storage

open Bytes Files Programs

def World.Bare (world : World) : Prop := ∀ suffix, world.stores suffix = Store.empty

theorem World.bare_empty : World.empty.Bare := fun _ => rfl

theorem World.Bare.vacant {world : World} (bare : world.Bare) (base : Int) : Vacant base world := by
  intro suffix file found
  rw [bare suffix] at found
  cases found

structure Fresh (cfg : Config) (world : World) (log : Log) (after : World) : Prop where
  log : ∃ logFd idxFd tixFd createdAt,
    log = ⟨cfg, [emptySegment (segmentOpts cfg 0) logFd idxFd tixFd createdAt], 0⟩ ∧
      logFd < (after.stores .log).nextFd ∧ (after.stores .log).offset logFd = 0
  later : Later world after
  other : ∀ suffix key, key ≠ 0 → (after.stores suffix).lookup key = none
  vacant : Vacant 0 after
  created : ∃ mtime, (after.stores .log).lookup 0 = some ⟨[], [], mtime⟩

theorem openLog_bare (cfg : Config) (world : World) (bare : world.Bare) :
    Yields (openLog cfg) world
      (fun log after => Spent 8 world after ∧ Fresh cfg world log after)
      (fun _ after => Blocked 8 world ∧ Later world after) := by
  unfold openLog recoverLog readDir
  simp only [yields_bind, yields_mapError]
  refine (syscall_spec .log _ world).mono ?_ ?_
  · rintro _ first ⟨spent, now, -, shape⟩
    have same : first.stores = world.stores := by rw [shape, withStore_self]
    refine (syscall_spec .log _ first).mono ?_ ?_
    · rintro keys second ⟨spent', now', listed, shape'⟩
      have same' : second.stores = world.stores := by rw [shape', withStore_self, same]
      have none : keys = [] := by
        rw [listed, same, bare .log]
        rfl
      subst none
      simp only [segmentBases, List.filter_nil, List.mergeSort_nil, openAll, yields_pure,
        List.head?_nil, List.length_nil, if_true, yields_bind]
      have bare' : second.Bare := fun suffix => by rw [same']; exact bare suffix
      refine (openSegment_vacant (segmentOpts cfg 0) second (bare'.vacant 0)).mono ?_ ?_
      · rintro _ after ⟨spent'', opening, ⟨time, added⟩, idxFd, tixFd, createdAt, rfl⟩
        have spentAll := (spent.trans spent').trans spent''
        refine ⟨spentAll, ⟨⟨_, idxFd, tixFd, createdAt, rfl, ?_, ?_⟩, spentAll.later, ?_,
          opening.vacant, time, ?_⟩⟩
        · rw [added]
          exact Nat.lt_succ_self _
        · rw [added, Store.offset_openFile, if_pos rfl]
        · intro suffix key apart
          rw [opening.other suffix key apart, bare' suffix]
          rfl
        · rw [added, Store.lookup_openFile, bare' .log]
          rfl
      · rintro _ after ⟨blocked, opening, -⟩
        exact ⟨(spent.trans spent').blocked blocked,
          (spent.trans spent').later.trans opening.later⟩
    · rintro _ after ⟨blocked, later, -⟩
      exact ⟨(spent.blocked blocked).mono (by decide), spent.later.trans later⟩
  · rintro _ after ⟨blocked, later, -⟩
    exact ⟨blocked.mono (by decide), later⟩

theorem Fresh.layout {cfg : Config} {world after : World} {log : Log}
    (fresh : Fresh cfg world log after) (journal : List Stored) :
    ∃ active, Layout ⟨log, after, journal⟩ [] active ∧ active.nextOffset = 0 := by
  obtain ⟨logFd, idxFd, tixFd, createdAt, rfl, handle, -⟩ := fresh.log
  have zero : (0 : Int) < 2 ^ 63 := by decide
  refine ⟨_, ⟨rfl, by simp, by simp, by simp, le_refl _, ?_, zero, ?_, handle, ?_⟩, rfl⟩
  · intro s member
    rw [List.nil_append, List.mem_singleton] at member
    rw [member]
    exact le_refl _
  · intro s member
    rw [List.nil_append, List.mem_singleton] at member
    rw [member]
    exact ⟨rfl, rfl, rfl⟩
  · intro suffix key file found
    by_cases own : key = 0
    · exact .inl ⟨_, List.mem_singleton_self _, own.symm⟩
    · rw [fresh.other suffix key own] at found
      cases found

def Partition.facing (p : Partition) (ticks : List Tick) : Partition :=
  { p with world := { p.world with pending := ticks } }

def appendAll : List (List Bytes) → LogM Unit
  | [] => return ()
  | request :: rest => do
      let _ ← append false request
      appendAll rest

def partitionRun (cfg : Config) (world : World) (requests : List (List Bytes)) : Option Partition :=
  match openLog cfg world with
  | .error _ _ => none
  | .ok log opened =>
    match appendAll requests ⟨log, opened, []⟩ with
    | .error _ _ => none
    | .ok _ final => some final

theorem partitionRun_some {cfg : Config} {world : World} {requests : List (List Bytes)}
    {final : Partition} (ran : partitionRun cfg world requests = some final) :
    ∃ log opened, openLog cfg world = .ok log opened ∧
      appendAll requests ⟨log, opened, []⟩ = .ok () final := by
  unfold partitionRun at ran
  split at ran
  · cases ran
  · next log opened opening =>
      split at ran
      · cases ran
      · next _ last appending =>
          cases ran
          exact ⟨log, opened, opening, appending⟩

end KafkaWire.Storage
