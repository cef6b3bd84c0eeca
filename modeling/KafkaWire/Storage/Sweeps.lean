import KafkaWire.Storage.Operations
import KafkaWire.Storage.Retention

/-! Retention sweeps over the logs of a broker. -/

namespace KafkaWire.Storage

open Bytes Files Programs

/-- Every log loses as many of its oldest segments as the archive allows and one of the two rules
asks for. -/
theorem sweepOnce_deletes_exactly (cfg : RetentionConfig) (now : Int) (logs : List NamedLog)
    (contiguous : ∀ named ∈ logs, named.log.Contiguous)
    (quiet : ∀ named ∈ logs, named.log.partition.world.Quiet) :
    ∃ logs', sweepOnce cfg now logs = some logs' ∧
      List.Forall₂ (fun named named' => named'.topic = named.topic ∧
        named'.partition = named.partition ∧
        ∃ count, Swept cfg now named.topic named.partition named.log named'.log count) logs logs' := by
  induction logs with
  | nil => exact ⟨[], rfl, .nil⟩
  | cons named rest ih =>
    obtain ⟨rest', swept, each⟩ := ih
      (fun other member => contiguous other (List.mem_cons_of_mem _ member))
      fun other member => quiet other (List.mem_cons_of_mem _ member)
    obtain ⟨value, l', ran, count, here⟩ := (sweepLog_sweeps cfg now named.topic named.partition
      (contiguous named List.mem_cons_self) (quiet named List.mem_cons_self)).succeeds
    refine ⟨{ named with log := l' } :: rest', ?_, .cons ⟨rfl, rfl, count, here⟩ each⟩
    rw [sweepOnce, List.mapM_cons, ran, ← sweepOnce, swept]
    rfl

def threeSegments (ticks : List Tick) : LiveLog :=
  LogsState.facing (Machine.exec (LiveLog.operate ⟨61, 0, 4096, .none⟩)
    (.unopened ⟨61, 0, 4096, .none⟩)
    [⟨.openLog, []⟩, ⟨.append false [minimalBatch 0, minimalBatch 0, minimalBatch 0], []⟩]) ticks

theorem threeSegments_contiguous (ticks : List Tick) : (threeSegments ticks).Contiguous := by
  have same : (threeSegments ticks).segments = (threeSegments []).segments := rfl
  refine ⟨?_, ?_, ?_, ?_⟩ <;> rw [same] <;> decide +kernel

theorem threeSegments_quiet : (threeSegments []).partition.world.Quiet :=
  fun _ member => absurd member List.not_mem_nil

theorem archived_segment_swept :
    ∃ logs', sweepOnce ⟨0, 61, some fun _ _ seg => seg.baseOffset = 0⟩ 0
        [⟨"events", 0, threeSegments []⟩] = some logs' ∧
      logs'.map (fun named => named.log.segments.map Segment.summary) = [[(1, 61, 2), (2, 61, 3)]] := by
  obtain ⟨logs', swept, -⟩ := sweepOnce_deletes_exactly ⟨0, 61, some fun _ _ seg => seg.baseOffset = 0⟩ 0
    [⟨"events", 0, threeSegments []⟩] (by simpa using threeSegments_contiguous [])
    (by simpa using threeSegments_quiet)
  have left : (sweepOnce ⟨0, 61, some fun _ _ seg => seg.baseOffset = 0⟩ 0
      [⟨"events", 0, threeSegments []⟩]).map (fun logs => logs.map fun named =>
        named.log.segments.map Segment.summary) = some [[(1, 61, 2), (2, 61, 3)]] := by decide +kernel
  rw [swept] at left
  exact ⟨logs', swept, Option.some.inj left⟩

/-- Two segments are asked for, but the first file of the second one cannot be removed. -/
theorem failed_removal_keeps_segment :
    let cfg : RetentionConfig := ⟨0, 61, none⟩
    let l := threeSegments (List.replicate 9 ⟨0, none⟩ ++ [⟨0, some 0⟩])
    l.Contiguous ∧ cfg.Asks l.segments.dropLast l.segments 2 ∧
      cfg.archivedCount "events" 0 l.segments.dropLast = 2 ∧
      (sweepOnce cfg 0 [⟨"events", 0, l⟩]).map (fun logs => logs.map fun named =>
        named.log.segments.map Segment.summary) = some [[(1, 61, 2), (2, 61, 3)]] := by
  intro cfg l
  refine ⟨threeSegments_contiguous _, ?_, by decide +kernel, by decide +kernel⟩
  have count : sizeCount 61 l.segments.dropLast (RetentionConfig.totalBytes l.segments) = 2 := by
    decide +kernel
  have least := sizeCount_isLeast 61 l.segments.dropLast (RetentionConfig.totalBytes l.segments)
  rw [count] at least
  exact least

end KafkaWire.Storage
