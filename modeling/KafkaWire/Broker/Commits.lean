import KafkaWire.Broker.OffsetFiles
import KafkaWire.Lib.PublishRank

/-! Whether a committed offset is found again after a restart. -/

namespace KafkaWire.Broker

open Publish (Shared Contents Ranked Landing indicator)

namespace OffsetFiles

def view (groupID : String) (event : OffsetEvent) : Publish.Event GroupState :=
  if event.groupID = groupID then event.action else .idle

theorem step_entry (s : OffsetFiles) (event : OffsetEvent) (groupID : String) :
    (s.step event).entry groupID = (s.entry groupID).step (view groupID event) := by
  unfold view
  by_cases same : event.groupID = groupID
  · subst same
    rw [if_pos rfl, entry, step, AList.lookup_insert, Option.getD_some]
  · rw [if_neg same, entry, step, AList.lookup_insert_ne (Ne.symm same)]
    rfl

def Exclusive (s : OffsetFiles) (event : OffsetEvent) : Prop :=
  (s.entry event.groupID).Exclusive event.action

instance (s : OffsetFiles) (event : OffsetEvent) : Decidable (s.Exclusive event) :=
  inferInstanceAs (Decidable ((s.entry event.groupID).Exclusive event.action))

theorem boot_entry (dir : GroupsDir) (groupID : String) :
    dir.boot.entry groupID =
      match dir.files.lookup groupID with
      | some gs => { memory := gs, temp := none, file := some (.whole gs), calls := ∅ }
      | none => { memory := { groupID := groupID }, temp := none, file := none, calls := ∅ } := by
  have loop : ∀ (entries : List (Sigma fun _ : String => GroupState)), entries.NodupKeys →
      ∀ groups : Table (Shared GroupState), (entries.foldl (fun groups entry =>
        groups.insert entry.1 { memory := entry.2, temp := none, file := some (.whole entry.2),
                                calls := ∅ }) groups).lookup groupID =
      match entries.dlookup groupID with
      | some gs => some { memory := gs, temp := none, file := some (.whole gs), calls := ∅ }
      | none => groups.lookup groupID := by
    intro entries
    induction entries with
    | nil => exact fun _ groups => rfl
    | cons entry entries ih =>
      intro distinct groups
      obtain ⟨alone, distinct⟩ := List.nodupKeys_cons.mp distinct
      rw [List.foldl_cons, ih distinct]
      by_cases same : groupID = entry.1
      · subst same
        rw [List.dlookup_eq_none.mpr alone, List.dlookup_cons_eq, AList.lookup_insert]
      · rw [List.dlookup_cons_ne _ _ same, AList.lookup_insert_ne same]
  unfold entry GroupsDir.boot
  rw [loop dir.files.entries dir.files.nodupKeys ∅]
  change Option.getD (match dir.files.lookup groupID with | some gs => _ | none => _) _ = _
  cases dir.files.lookup groupID <;> rfl

theorem boot_loaded (dir : GroupsDir) (groupID : String) :
    (dir.boot.entry groupID).read { groupID := groupID } = some (dir.boot.entry groupID).memory ∧
      (dir.boot.entry groupID).calls = ∅ ∧ (dir.boot.entry groupID).memory.groupID = groupID := by
  rw [boot_entry]
  cases found : dir.files.lookup groupID with
  | none => exact ⟨rfl, rfl, rfl⟩
  | some gs => exact ⟨rfl, rfl, dir.named groupID gs found⟩

end OffsetFiles

namespace GroupState

theorem offset?_setOffset (gs : GroupState) (topic other : String) (partition part : Int)
    (value : CommittedOffset) :
    (gs.setOffset topic partition value).offset? other part =
      if other = topic ∧ part = partition then some value else gs.offset? other part := by
  unfold offset? setOffset
  by_cases same : other = topic
  · subst same
    rw [AList.lookup_insert, Option.bind_some]
    by_cases equal : part = partition
    · rw [equal, AList.lookup_insert, if_pos ⟨rfl, rfl⟩]
    · rw [AList.lookup_insert_ne equal, if_neg fun both => equal both.2]
      cases gs.offsets.lookup other <;> simp
  · rw [AList.lookup_insert_ne same, if_neg fun both => same both.1]

end GroupState

def filesAfter (dir : GroupsDir) (events : List OffsetEvent) : OffsetFiles :=
  Machine.exec OffsetFiles.step dir.boot events

def CommittedAt (dir : GroupsDir) (events : List OffsetEvent) (k call : Nat) (made : Commit) : Prop :=
  events[k]? = some (.commit call made) ∧ made.valid = true ∧
    call ∉ ((filesAfter dir (events.take k)).entry made.groupID).calls

/-- Every commit that has returned without an error is found after a restart, or a later commit
for the same partition is. -/
def CommitsSurvive (dir : GroupsDir) (events : List OffsetEvent) : Prop :=
  ∀ k call made, CommittedAt dir events k call made →
    ((filesAfter dir events).entry made.groupID).calls.lookup call = some (.returned true) →
      ∃ store later call' next, (filesAfter dir events).restart = some store ∧ k ≤ later ∧
        CommittedAt dir events later call' next ∧ next.groupID = made.groupID ∧
        next.topic = made.topic ∧ next.partition = made.partition ∧
        store.fetchOffset made.groupID made.topic made.partition = next.value

theorem step_group (s : Shared GroupState) (event : OffsetEvent) (groupID : String) :
    ((s.step (OffsetFiles.view groupID event)).memory.offsets = s.memory.offsets ∧
        (s.step (OffsetFiles.view groupID event)).memory.groupID = s.memory.groupID) ∨
      ∃ call made, event = .commit call made ∧ made.valid = true ∧ made.groupID = groupID ∧
        call ∉ s.calls ∧ (s.step (OffsetFiles.view groupID event)).memory =
          s.memory.setOffset made.topic made.partition made.value := by
  rcases s.step_memory (OffsetFiles.view groupID event) with same | ⟨f, seen, changed⟩ |
    ⟨call, f, seen, fresh, changed⟩
  · exact .inl ⟨by rw [same], by rw [same]⟩
  · left
    rw [changed]
    unfold OffsetFiles.view at seen
    split at seen
    · cases event with
      | coordinate name change =>
        cases seen
        exact ⟨rfl, rfl⟩
      | commit known made =>
        simp only [OffsetEvent.action] at seen
        split at seen <;> cases seen
      | _ => cases seen
    · cases seen
  · unfold OffsetFiles.view at seen
    split at seen
    · next mine =>
        cases event with
        | commit known made =>
          simp only [OffsetEvent.action] at seen
          split at seen
          · next valid =>
              cases seen
              exact .inr ⟨_, made, rfl, valid, mine, fresh, changed⟩
          · cases seen
        | persist known name =>
          cases seen
          exact .inl ⟨by rw [changed], by rw [changed]⟩
        | _ => cases seen
    · cases seen

theorem filesAfter_succ (dir : GroupsDir) (events : List OffsetEvent) (groupID : String) (n : Nat)
    (event : OffsetEvent) (found : events[n]? = some event) :
    (filesAfter dir (events.take (n + 1))).entry groupID =
      ((filesAfter dir (events.take n)).entry groupID).step (OffsetFiles.view groupID event) := by
  rw [List.take_add_one, found, Option.toList_some, filesAfter, Machine.exec_concat,
    OffsetFiles.step_entry]
  rfl

def HoldsCommit (dir : GroupsDir) (events : List OffsetEvent) (k : Nat) (made : Commit)
    (gs : GroupState) : Prop :=
  ∃ later call next, k ≤ later ∧ CommittedAt dir events later call next ∧
    next.groupID = made.groupID ∧ next.topic = made.topic ∧ next.partition = made.partition ∧
    gs.offset? made.topic made.partition = some next.value

theorem step_holdsCommit (dir : GroupsDir) (events : List OffsetEvent) (k n : Nat) (made : Commit)
    (event : OffsetEvent) (found : events[n]? = some event) (since : k ≤ n)
    (before : HoldsCommit dir events k made
      ((filesAfter dir (events.take n)).entry made.groupID).memory) :
    HoldsCommit dir events k made
      ((filesAfter dir (events.take (n + 1))).entry made.groupID).memory := by
  obtain ⟨later, call, next, order, there, group, topic, partition, held⟩ := before
  rw [filesAfter_succ dir events made.groupID n event found]
  rcases step_group ((filesAfter dir (events.take n)).entry made.groupID) event made.groupID with
    ⟨offsets, _⟩ | ⟨other, newer, rfl, valid, mine, fresh, set⟩
  · refine ⟨later, call, next, order, there, group, topic, partition, ?_⟩
    rw [← held, GroupState.offset?, offsets, GroupState.offset?]
  · rw [HoldsCommit, set, GroupState.offset?_setOffset]
    by_cases key : made.topic = newer.topic ∧ made.partition = newer.partition
    · rw [if_pos key]
      exact ⟨n, other, newer, since, ⟨found, valid, by rw [mine]; exact fresh⟩, mine, key.1.symm,
        key.2.symm, rfl⟩
    · rw [if_neg key]
      exact ⟨later, call, next, order, there, group, topic, partition, held⟩

section Run

variable (dir : GroupsDir) (events : List OffsetEvent)
  (exclusive : Machine.Guarded OffsetFiles.step OffsetFiles.Exclusive dir.boot events)

include exclusive

theorem exclusive_at (groupID : String) (n : Nat) (event : OffsetEvent)
    (found : events[n]? = some event) :
    ((filesAfter dir (events.take n)).entry groupID).Exclusive (OffsetFiles.view groupID event) := by
  obtain ⟨inside, rfl⟩ := List.getElem?_eq_some_iff.mp found
  rw [← List.take_append_drop n events, Machine.guarded_append, List.drop_eq_getElem_cons inside]
    at exclusive
  rw [OffsetFiles.view]
  split
  · next same =>
      subst same
      exact exclusive.2.1
  · trivial

theorem files_named (groupID : String) (n : Nat) (inside : n ≤ events.length) :
    Ranked (indicator fun gs : GroupState => gs.groupID = groupID) { groupID := groupID }
        ((filesAfter dir (events.take n)).entry groupID) ∧
      ∃ gs, ((filesAfter dir (events.take n)).entry groupID).read { groupID := groupID } = some gs ∧
        gs.groupID = groupID := by
  induction n with
  | zero =>
    obtain ⟨loaded, unused, named⟩ := OffsetFiles.boot_loaded dir groupID
    exact ⟨.loaded loaded unused, _, loaded, named⟩
  | succ n ih =>
    obtain ⟨ranked, holds⟩ := ih (by omega)
    have found := List.getElem?_eq_getElem (l := events) (i := n) (by omega)
    rw [filesAfter_succ dir events groupID n _ found]
    refine ranked.keeps _ (exclusive_at dir events exclusive groupID n _ found) (fun named => ?_)
      holds
    rcases step_group ((filesAfter dir (events.take n)).entry groupID) events[n] groupID with
      ⟨_, same⟩ | ⟨call, made, _, _, _, _, set⟩
    · exact same.trans named
    · rw [set]
      exact named

theorem commit_landing (k call : Nat) (made : Commit)
    (committed : CommittedAt dir events k call made) (n : Nat) (later : k < n)
    (inside : n ≤ events.length) :
    Landing (HoldsCommit dir events k made) { groupID := made.groupID } call
        ((filesAfter dir (events.take n)).entry made.groupID) ∧
      call ∈ ((filesAfter dir (events.take n)).entry made.groupID).calls := by
  induction n, later using Nat.le_induction with
  | base =>
    obtain ⟨found, valid, fresh⟩ := id committed
    have orderly := (files_named dir events exclusive made.groupID k (by omega)).1.orderly
    have seen : OffsetFiles.view made.groupID (.commit call made) = .submit call fun gs =>
        gs.setOffset made.topic made.partition made.value := (if_pos rfl).trans (if_pos valid)
    have guard := exclusive_at dir events exclusive made.groupID k _ found
    have holds (gs : GroupState) : HoldsCommit dir events k made
        (gs.setOffset made.topic made.partition made.value) := by
      refine ⟨k, call, made, le_rfl, committed, rfl, rfl, rfl, ?_⟩
      rw [GroupState.offset?_setOffset, if_pos ⟨rfl, rfl⟩]
    have stepped := Shared.step_submit _ (fun gs : GroupState =>
      gs.setOffset made.topic made.partition made.value) fresh
    rw [filesAfter_succ dir events made.groupID k _ found, seen]
    rw [seen] at guard
    refine ⟨(orderly.unsubmitted ?_).step _ guard (fun _ => ?_) ?_, ?_⟩
    · exact AList.lookup_eq_none.mpr fresh
    · rw [stepped]
      exact holds _
    · rintro f is -
      cases is
      exact holds _
    · rw [stepped]
      exact (AList.mem_insert _).mpr (.inl rfl)
  | succ n later ih =>
    obtain ⟨landing, known⟩ := ih (by omega)
    have found := List.getElem?_eq_getElem (l := events) (i := n) (by omega)
    have kept := step_holdsCommit dir events k n made _ found (by omega)
    rw [filesAfter_succ dir events made.groupID n _ found] at kept ⊢
    exact ⟨landing.step _ (exclusive_at dir events exclusive made.groupID n _ found) kept
      fun f _ fresh => absurd known fresh, Publish.mem_calls_step _ known⟩

end Run

theorem loadFiles (entries : List (Sigma fun _ : String => Shared GroupState))
    (distinct : entries.NodupKeys)
    (whole : ∀ entry ∈ entries, entry.2.file = none ∨
      ∃ gs, entry.2.file = some (.whole gs) ∧ gs.groupID = entry.1) (groups : Table GroupState) :
    ∃ loaded, (entries.map fun entry => entry.2.file).foldlM OffsetFiles.loadFile groups =
        some loaded ∧ ∀ groupID, loaded.lookup groupID =
          match (entries.dlookup groupID).bind (·.file) with
          | some (.whole gs) => some gs
          | _ => groups.lookup groupID := by
  induction entries generalizing groups with
  | nil => exact ⟨groups, rfl, fun _ => rfl⟩
  | cons entry entries ih =>
    obtain ⟨alone, distinct⟩ := List.nodupKeys_cons.mp distinct
    have rest := ih distinct fun other here => whole other (List.mem_cons_of_mem _ here)
    have absent : entries.dlookup entry.1 = none := List.dlookup_eq_none.mpr alone
    rcases whole entry List.mem_cons_self with missing | ⟨gs, held, named⟩
    · obtain ⟨loaded, run, lookups⟩ := rest groups
      refine ⟨loaded, ?_, fun groupID => ?_⟩
      · rw [List.map_cons, List.foldlM_cons, missing]
        exact run
      · rw [lookups]
        by_cases same : groupID = entry.1
        · subst same
          rw [absent, List.dlookup_cons_eq, Option.bind_some, missing]
          rfl
        · rw [List.dlookup_cons_ne _ _ same]
    · obtain ⟨loaded, run, lookups⟩ := rest (groups.insert gs.groupID gs)
      refine ⟨loaded, ?_, fun groupID => ?_⟩
      · rw [List.map_cons, List.foldlM_cons, held]
        exact run
      · rw [lookups]
        by_cases same : groupID = entry.1
        · subst same
          rw [absent, List.dlookup_cons_eq, Option.bind_some, held, named]
          exact AList.lookup_insert _
        · rw [List.dlookup_cons_ne _ _ same, AList.lookup_insert_ne (by rw [named]; exact same)]

theorem restart_fetch (s : OffsetFiles) (states : String → GroupState)
    (readable : ∀ groupID, (s.entry groupID).read { groupID := groupID } = some (states groupID))
    (named : ∀ groupID, (states groupID).groupID = groupID) :
    ∃ store, s.restart = some store ∧ ∀ groupID topic partition,
      store.fetchOffset groupID topic partition =
        ((states groupID).offset? topic partition).getD { offset := -1 } := by
  have listed : ∀ groupID shared, s.groups.lookup groupID = some shared →
      s.entry groupID = shared := by
    intro groupID shared found
    rw [OffsetFiles.entry, found, Option.getD_some]
  have held : ∀ groupID shared, s.groups.lookup groupID = some shared → shared.file = none ∨
      ∃ gs, shared.file = some (.whole gs) ∧ gs = states groupID := by
    intro groupID shared found
    have reads := readable groupID
    rw [listed groupID shared found, Shared.read] at reads
    cases file : shared.file with
    | none => exact .inl rfl
    | some contents =>
      rw [file] at reads
      cases contents with
      | torn => cases reads
      | whole gs => exact .inr ⟨gs, rfl, Option.some.inj reads⟩
  obtain ⟨loaded, run, lookups⟩ := loadFiles s.groups.entries s.groups.nodupKeys (fun entry here => by
    rcases held entry.1 entry.2 (AList.mem_lookup_iff.mpr here) with missing | ⟨gs, file, same⟩
    · exact .inl missing
    · exact .inr ⟨gs, file, by rw [same, named]⟩) ∅
  refine ⟨⟨loaded⟩, by rw [OffsetFiles.restart, run]; rfl, fun groupID topic partition => ?_⟩
  have found := lookups groupID
  change loaded.lookup groupID = match (s.groups.lookup groupID).bind (·.file) with
    | some (.whole gs) => some gs
    | _ => _ at found
  unfold OffsetStore.fetchOffset
  -- A group without a file reads like the empty record that a restart would make for it.
  have empty : (s.groups.lookup groupID).bind (·.file) = none →
      states groupID = { groupID := groupID } := by
    intro missing
    have reads := readable groupID
    have file : (s.entry groupID).file = none := by
      unfold OffsetFiles.entry
      cases known : s.groups.lookup groupID with
      | none => rfl
      | some shared =>
        rw [known] at missing
        exact missing
    rw [Shared.read, file] at reads
    exact (Option.some.inj reads).symm
  cases file : (s.groups.lookup groupID).bind (·.file) with
  | none =>
    rw [file] at found
    rw [found, AList.lookup_empty, empty file]
    rfl
  | some contents =>
    obtain ⟨shared, known, here⟩ := Option.bind_eq_some_iff.mp file
    rcases held groupID shared known with missing | ⟨gs, whole, same⟩
    · rw [missing] at here
      cases here
    · rw [whole] at here
      cases here
      rw [file] at found
      rw [found, same]

theorem exclusive_commits_survive (dir : GroupsDir) (events : List OffsetEvent)
    (exclusive : Machine.Guarded OffsetFiles.step OffsetFiles.Exclusive dir.boot events) :
    CommitsSurvive dir events := by
  intro k call made committed returned
  have whole : filesAfter dir events = filesAfter dir (events.take events.length) := by
    rw [List.take_length]
  choose states reads named using fun groupID =>
    (files_named dir events exclusive groupID events.length le_rfl).2
  rw [← whole] at reads
  obtain ⟨store, restarted, fetched⟩ := restart_fetch (filesAfter dir events) states reads named
  have inside : k < events.length := (List.getElem?_eq_some_iff.mp committed.1).1
  obtain ⟨landing, -⟩ := commit_landing dir events exclusive k call made committed events.length
    inside le_rfl
  rw [← whole] at landing
  obtain ⟨-, gs, found, later, call', next, order, there, group, topic, partition, held⟩ :=
    landing.landed returned
  obtain rfl := Option.some.inj ((reads made.groupID).symm.trans found)
  refine ⟨store, later, call', next, restarted, order, there, group, topic, partition, ?_⟩
  rw [fetched, held, Option.getD_some]

def emptyDir : GroupsDir := ⟨∅, fun id gs found => by cases found⟩

def commitOf (offset : Int) : Commit := { groupID := "g", topic := "t", partition := 0, offset }

def tidyRun : List OffsetEvent :=
  [.commit 0 (commitOf 5), .commit 1 (commitOf 6),
    .marshal "g" 0 true, .write "g" 0 .done, .rename "g" 0 true,
    .marshal "g" 1 true, .write "g" 1 .done, .rename "g" 1 true]

theorem tidy_commits_survive :
    Machine.Guarded OffsetFiles.step OffsetFiles.Exclusive emptyDir.boot tidyRun ∧
      ((filesAfter emptyDir tidyRun).restart.map fun store => (store.fetchOffset "g" "t" 0).offset) =
        some 6 ∧
      CommitsSurvive emptyDir tidyRun := by
  have exclusive : Machine.Guarded OffsetFiles.step OffsetFiles.Exclusive emptyDir.boot tidyRun := by
    decide +kernel
  exact ⟨exclusive, by decide +kernel, exclusive_commits_survive emptyDir tidyRun exclusive⟩

/-- The first commit marshals, the second one runs to its end, and the first one's older snapshot
is renamed over it. -/
def staleRun : List OffsetEvent :=
  [.commit 0 (commitOf 5), .marshal "g" 0 true,
    .commit 1 (commitOf 6), .marshal "g" 1 true, .write "g" 1 .done, .rename "g" 1 true,
    .write "g" 0 .done, .rename "g" 0 true]

theorem stale_snapshot_loses_commit : ¬ CommitsSurvive emptyDir staleRun := by
  intro survive
  have committed : CommittedAt emptyDir staleRun 2 1 (commitOf 6) :=
    ⟨rfl, by decide +kernel, by decide +kernel⟩
  have returned : ((filesAfter emptyDir staleRun).entry "g").calls.lookup 1 =
      some (.returned true) := rfl
  obtain ⟨store, later, call, next, restarted, order, there, _, _, _, fetched⟩ :=
    survive 2 1 (commitOf 6) committed returned
  have found : ((filesAfter emptyDir staleRun).restart.map fun store =>
      (store.fetchOffset "g" "t" 0).offset) = some 5 := by
    decide +kernel
  rw [restarted, Option.map_some] at found
  change store.fetchOffset "g" "t" 0 = next.value at fetched
  have stale : next.offset = 5 := by
    rw [fetched] at found
    exact Option.some.inj found
  -- From the second commit on, the run has no commit of another offset.
  have fresh : ∀ call next, OffsetEvent.commit call next ∈ staleRun.drop 2 → next.offset = 6 := by
    intro call next listed
    simp only [staleRun, List.drop_succ_cons, List.drop_zero, List.mem_cons, reduceCtorEq,
      List.not_mem_nil, or_false, OffsetEvent.commit.injEq] at listed
    rw [listed.2]
    rfl
  have listed : OffsetEvent.commit call next ∈ staleRun.drop 2 := by
    refine List.mem_of_getElem? (i := later - 2) ?_
    rw [List.getElem?_drop, Nat.add_sub_cancel' order]
    exact there.1
  rw [fresh call next listed] at stale
  cases stale

end KafkaWire.Broker
