import KafkaWire.Broker.Confined
import KafkaWire.Broker.TopicSteps

/-! What the operations on topics do to the directories of partitions. -/

namespace KafkaWire.Broker

open Paths (Path)
open Programs Storage

variable (name : String)

variable {d d' : Dir} {b b' : BrokerState}

structure Dir.Sound (d : Dir) : Prop where
  later : ∀ generation, d.generation < generation → (d.contents generation).Bare
  absent : d.present = false → (d.contents d.generation).Bare

inductive Touched (d : Dir) : Dir → Prop
  | same : Touched d d
  | used (d' : Dir) (present : d'.present = true) (generation : d'.generation = d.generation)
      (other : ∀ g, g ≠ d.generation → d'.contents g = d.contents g) : Touched d d'

theorem Touched.trans {d'' : Dir} (first : Touched d d') (second : Touched d' d'') :
    Touched d d'' := by
  cases first with
  | same => exact second
  | used _ present generation other =>
    cases second with
    | same => exact .used d' present generation other
    | used _ present' generation' other' =>
      refine .used d'' present' (generation'.trans generation) fun g different => ?_
      rw [other' g (generation ▸ different), other g different]

theorem Touched.generation (touched : Touched d d') : d'.generation = d.generation := by
  cases touched with
  | same => rfl
  | used _ _ generation _ => exact generation

theorem Touched.present (touched : Touched d d') (there : d.present = true) :
    d'.present = true := by
  cases touched with
  | same => exact there
  | used _ present _ _ => exact present

theorem Touched.sound (touched : Touched d d') (sound : d.Sound) : d'.Sound := by
  cases touched with
  | same => exact sound
  | used _ present generation other =>
    refine ⟨fun g later => ?_, fun absent => nomatch present.symm.trans absent⟩
    rw [generation] at later
    rw [other g later.ne']
    exact sound.later g later

def Linked (dirs : Path → Dir) (dir : Path) (generation : Nat) : Prop :=
  (dirs dir).present = true ∧ (dirs dir).generation = generation

def AllTouched (b b' : BrokerState) : Prop := ∀ path, Touched (b.dirs path) (b'.dirs path)

theorem AllTouched.refl (b : BrokerState) : AllTouched b b := fun _ => .same

theorem AllTouched.trans {b'' : BrokerState} (first : AllTouched b b')
    (second : AllTouched b' b'') : AllTouched b b'' := fun path => (first path).trans (second path)

theorem AllTouched.linked (touched : AllTouched b b') {dir : Path}
    {generation : Nat} (linked : Linked b.dirs dir generation) : Linked b'.dirs dir generation :=
  ⟨(touched dir).present linked.1, (touched dir).generation.trans linked.2⟩

theorem onFiles_touched {α : Type} {dir : Path} {generation : Nat} (ticks : List Tick) (prog : SysM α)
    (linked : Linked b.dirs dir generation) :
    Yields (onFiles dir generation ticks prog) b
      (fun result b' => AllTouched b b' ∧
        result = (runOn prog ticks ((b.dirs dir).contents generation)).1) fun _ _ => False := by
  rw [onFiles, yields_modifyGet]
  refine ⟨fun path => ?_, rfl⟩
  dsimp only
  by_cases here : path = dir
  · subst here
    rw [Function.update_self]
    refine .used _ linked.1 rfl fun g different => ?_
    exact Function.update_of_ne (linked.2 ▸ different) _ _
  · rw [Function.update_of_ne here]
    exact .same

theorem closePartitions_touched (parts : List LogHandle) (b : BrokerState)
    (linked : ∀ l ∈ parts, Linked b.dirs l.dir l.generation) :
    Yields (closePartitions parts) b (fun _ => AllTouched b) fun _ _ => False := by
  induction parts generalizing b with
  | nil => exact AllTouched.refl b
  | cons l rest ih =>
    simp only [closePartitions, yields_bind, yields_answer]
    refine (onFiles_touched _ _ ?_).mono ?_ fun _ _ impossible => impossible
    · exact linked l List.mem_cons_self
    · rintro failed b' ⟨touched, -⟩
      refine (ih b' fun other member => ?_).mono ?_ fun _ _ impossible => impossible
      · exact touched.linked (linked other (List.mem_cons_of_mem _ member))
      · intro later b'' touched'
        have all : AllTouched b b'' := touched.trans touched'
        split <;> exact all

theorem openLog_made (cfg : Storage.Config) (ticks : List Tick) (world : World) (log : Log)
    (opened : (runOn (openLog cfg) ticks world).1 = .ok log) :
    (ticks.head?.all fun tick => tick.fault = none) = true := by
  have made : Yields (openLog cfg) { world with pending := ticks }
      (fun _ _ => ({ world with pending := ticks } : World).next.fault = none) fun _ _ => True := by
    rw [openLog, yields_bind, yields_mapError]
    refine yields_syscall _ _ (fun _ => trivial) fun answered => ?_
    exact (yields_ran _ _).mono (fun _ _ _ => answered) fun _ _ _ => trivial
  rw [runOn] at opened
  split at opened
  · next value after ran =>
      have answered := made.of_ok ran
      cases ticks with
      | nil => rfl
      | cons tick rest => simpa [World.next] using answered
  · cases opened

theorem partitionDir_below (cfg : Config) (name : String) (partition : Int) :
    (topicDir cfg name).under (partitionDir cfg name partition) = true := by
  have joined := Paths.join_append [cfg.dataDir, "topics", name] [toString partition]
    (by simpa using plain_number partition)
  exact (congrArg (topicDir cfg name).under joined).trans (Paths.under_append _ _)

structure Opens (b b' : BrokerState) (name : String) (l : LogHandle) : Prop where
  dir : (topicDir b.cfg name).under l.dir = true
  linked : Linked b'.dirs l.dir l.generation
  fresh : b.nextLog ≤ l.id
  taken : l.id < b'.nextLog

theorem openPartition_touched (partition : Int) (b : BrokerState) :
    Yields (openPartition name partition) b
      (fun opened b' => ∀ l, opened = .ok l → AllTouched b b' ∧ Opens b b' name l)
      fun _ _ => False := by
  simp only [openPartition, yields_bind, yields_config, yields_answer, makeDir, onFiles,
    yields_modifyGet]
  split
  · next log opened =>
      simp only [newLogID, yields_bind, yields_modifyGet, yields_pure]
      rintro l ⟨⟩
      have made := openLog_made _ _ _ _ opened
      rw [made, Bool.or_true]
      refine ⟨fun path => ?_, partitionDir_below _ _ _, ⟨?_, ?_⟩, le_rfl, Nat.lt_succ_self _⟩
      · dsimp only
        by_cases here : path = partitionDir b.cfg name partition
        · subst here
          rw [Function.update_self, Function.update_self]
          exact .used _ rfl rfl fun g different => Function.update_of_ne different _ _
        · rw [Function.update_of_ne here, Function.update_of_ne here]
          exact .same
      · dsimp only
        rw [Function.update_self, Function.update_self]
      · dsimp only
        rw [Function.update_self, Function.update_self]
  · rintro l ⟨⟩

theorem Opens.later {b'' : BrokerState} {name : String} {l : LogHandle} (opens : Opens b b' name l)
    (touched : AllTouched b' b'') (later : b'.nextLog ≤ b''.nextLog) : Opens b b'' name l :=
  ⟨opens.dir, touched.linked opens.linked, opens.fresh, opens.taken.trans_le later⟩

theorem openPartitions_touched (count : Nat) (partition : Int)
    (parts : List LogHandle) (outside : Outside b b') (touched : AllTouched b b')
    (opened : ∀ l ∈ parts, Opens b b' name l) :
    Yields (openPartitions name count partition parts) b'
      (fun all b'' => AllTouched b b'' ∧ ∀ l ∈ all, Opens b b'' name l) fun _ _ => True := by
  induction count generalizing partition parts b' with
  | zero => exact ⟨touched, opened⟩
  | succ count ih =>
    simp only [openPartitions, yields_bind]
    have next := openPartition_touched name partition b'
    have frame := openPartition_spec name partition b'
    rcases ran : openPartition name partition b' with ⟨result, b''⟩ | ⟨err, b''⟩
    · have outside' := outside.trans (frame.of_ok ran).1
      have next := next.of_ok ran
      rw [Yields, ran]
      rcases result with err | l
      · simp only [yields_bind]
        refine (closePartitions_outside parts b'').mono ?_ fun _ _ impossible => impossible.elim
        exact fun _ _ _ => trivial
      · obtain ⟨used, new⟩ := next l rfl
        refine ih (partition + 1) (parts ++ [l]) outside' (touched.trans used) fun other member => ?_
        rcases List.mem_append.mp member with old | last
        · exact (opened other old).later used (frame.of_ok ran).1.nextLog
        · rw [List.mem_singleton.mp last]
          exact ⟨outside.cfg ▸ new.dir, new.linked, outside.nextLog.trans new.fresh, new.taken⟩
    · exact (frame.of_error ran).elim

theorem registryCreate_touched (cfg : TopicConfig) (b : BrokerState) :
    Yields (registryCreate name cfg) b
      (fun t b' => AllTouched b b' ∧ ∀ l ∈ t.partitions, Opens b b' name l) fun _ _ => True := by
  rw [registryCreate]
  split
  · trivial
  · simp only [yields_bind, yields_getTopic]
    split
    · trivial
    · simp only [yields_bind, putTopic, yields_modify, yields_pure]
      refine (openPartitions_touched name _ 0 [] (Outside.refl b) (AllTouched.refl b) (by simp)).mono
        ?_ fun _ _ _ => trivial
      exact fun parts b' opened => ⟨opened.1, fun l member =>
        ⟨(opened.2 l member).dir, (opened.2 l member).linked, (opened.2 l member).fresh,
          (opened.2 l member).taken⟩⟩

theorem registryDelete_touched (b : BrokerState)
    (linked : ∀ t, b.topics.lookup name = some t → ∀ l ∈ t.partitions, Linked b.dirs l.dir l.generation) :
    Yields (registryDelete name) b (fun _ => AllTouched b) fun _ => AllTouched b := by
  simp only [registryDelete, yields_bind, yields_getTopic]
  rcases found : b.topics.lookup name with _ | t
  · exact AllTouched.refl b
  · simp only [yields_bind]
    refine (closePartitions_touched t.partitions b (linked t found)).mono ?_
      fun _ _ impossible => impossible.elim
    rintro (_ | err) b' touched <;> exact touched

theorem appended_touched (idx : Nat) (batches : List Bytes) (answers : List Answer)
    (b : BrokerState)
    (linked : ∀ t, b.topics.lookup name = some t → ∀ l ∈ t.partitions, Linked b.dirs l.dir l.generation) :
    AllTouched b (after answers (appendOn name idx batches) b) := by
  have setLog_dirs (log : Log) (b : BrokerState) :
      Yields (setLog name idx log) b (fun _ b' => b'.dirs = b.dirs) fun _ _ => False := by
    rw [setLog, yields_modify]
    split <;> rfl
  have holds : Yields (appendOn name idx batches) { b with script := answers }
      (fun _ => AllTouched b) fun _ => AllTouched b := by
    simp only [appendOn, yields_bind, yields_getTopic]
    split
    · exact AllTouched.refl b
    · next t found =>
        split
        · exact AllTouched.refl b
        · next l there =>
            simp only [appendTo, yields_bind, yields_answer]
            refine (onFiles_touched _ _ ?_).mono ?_ fun _ _ impossible => impossible.elim
            · exact linked t found l (List.mem_of_getElem? there)
            · rintro (err | ⟨result, log⟩) b' ⟨touched, -⟩
              · exact touched
              · simp only [yields_bind]
                refine (setLog_dirs log b').mono ?_ fun _ _ impossible => impossible.elim
                intro _ b'' same
                have all : AllTouched b b'' := fun path => same ▸ touched path
                split <;> exact all
  obtain ⟨-, touched⟩ | ⟨-, touched⟩ := after_cases holds <;> exact touched

end KafkaWire.Broker
