import KafkaWire.Storage.Operations

/-! Fetches with the byte limits that a client may ask for. A limit that is too small for a header
is too small for the fallback that returns one whole batch. -/

namespace KafkaWire.Storage

open Bytes Files Programs

theorem LiveLog.fetchAt_eq {l : LiveLog} (handles : l.headClosed = false) (offset maxBytes : Int) :
    LiveLog.fetchAt offset maxBytes l =
      match Storage.fetchAt l.partition.log l.partition.world offset maxBytes with
      | .ok result => .ok result l
      | .error fault => .error fault l := by
  have unguarded : ¬ ((l.partition.log.findSegmentLocked offset).isSome = true ∧
      BinarySearch.search l.partition.log.segments.length (l.partition.log.startsPast offset) ≤ 1 ∧
      l.headClosed = true) := by simp [handles]
  show (if _ then _ else _ : LiveM (Bytes × Int)) l = _
  rw [if_neg unguarded]
  cases Storage.fetchAt l.partition.log l.partition.world offset maxBytes <;> rfl

/-- A limit with room for a header is enough to get the batch with the offset, whatever its size. -/
theorem fetch_returns_whole_batch (cfg : Config) (events : List LogStep)
    (guarded : Machine.Guarded (LiveLog.operate cfg) LiveLog.Steady (.unopened cfg) events)
    (opened : isOpen events = true) (offset maxBytes : Int)
    (least : 61 ≤ maxBytes) (most : maxBytes < 2 ^ 31) :
    let l := Machine.exec (LiveLog.operate cfg) (.unopened cfg) events
    l.partition.log.logStart ≤ offset → offset < l.partition.log.highWatermark →
    (∀ s ∈ l.segments, s.logSize < 2 ^ 62) →
    ∃ batch more,
      LiveLog.fetchAt offset maxBytes l =
        .ok ((batch :: more).flatten, (decodeHeader batch).baseOffset) l ∧
      IsBatch batch ∧ (decodeHeader batch).baseOffset ≤ offset ∧
      offset ≤ (decodeHeader batch).lastOffset := by
  intro l low high small
  have kept := steady_kept cfg events guarded
  rw [opened] at kept
  obtain ⟨retained, -, -⟩ := kept.files
  obtain ⟨front, active, old, new, intact⟩ := retained.intact
  have segments : l.segments = front ++ [active] := intact.readable.layout.segments
  obtain ⟨batch, more, later, found, fetched⟩ := intact.readable.fetchAt _ offset maxBytes
    retained.head_base low high (segments ▸ small) least (by rw [maxAlloc]; omega)
  obtain ⟨before, batch', rest, start, -, found', tiled, tiles, below, above⟩ :=
    fromOffset_cons (intact.tiles retained.start) low high
  obtain ⟨rfl, -⟩ := List.cons.inj (found.symm.trans found')
  have stored := tiles.1
  have positive := retained.start_nonneg
  refine ⟨batch, more, ?_, stored.whole, ?_, ?_⟩
  · rw [LiveLog.fetchAt_eq kept.handles, fetched]
  · rw [stored.baseOffset]
    exact below
  · rw [stored.lastOffset (le_trans positive tiled.le)]
    omega

theorem small_budget_returns_batch :
    let events : List LogStep :=
      [⟨.openLog, []⟩, ⟨.append false [minimalBatch 4], [⟨0, some 0⟩]⟩,
        ⟨.append false [minimalBatch 4, minimalBatch 0], []⟩, ⟨.close, []⟩, ⟨.openLog, []⟩,
        ⟨.deleteSegmentsBefore 2, []⟩]
    let l := Machine.exec (LiveLog.operate ⟨1000, 0, 4096, .none⟩) (.unopened ⟨1000, 0, 4096, .none⟩)
      events
    ∃ batch more, LiveLog.fetchAt 3 61 l =
        .ok ((batch :: more).flatten, (decodeHeader batch).baseOffset) l ∧
      IsBatch batch ∧ (decodeHeader batch).baseOffset ≤ 3 ∧ 3 ≤ (decodeHeader batch).lastOffset := by
  intro events l
  exact fetch_returns_whole_batch _ events (by decide +kernel) (by decide) 3 61 (by decide) (by decide)
    (by decide +kernel) (by decide +kernel) (by decide +kernel)

/-- Below that limit no log returns a batch. -/
theorem fetch_below_header (l : LiveLog) (offset maxBytes : Int) (low : -(2 ^ 63) ≤ maxBytes)
    (few : maxBytes < 61) :
    Yields (LiveLog.fetchAt offset maxBytes) l (fun result _ => result.1 = []) fun _ _ => True := by
  simp only [LiveLog.fetchAt, yields_bind, yields_get]
  split
  · exact trivial
  · split
    · next result fetched =>
        obtain empty | ⟨s, position, buf, read, rest⟩ := fetchAt_cases fetched
        · exact empty
        · have short := readAt_length low read
          obtain trimmed | ⟨hdr, parsed, -⟩ := rest
          · exact trimmed.trans (trimToBatchBoundary_short (by omega))
          · have long := ((parse_ok_iff buf hdr).mp parsed).1.long
            omega
    · exact trivial

/-- A negative limit panics, a limit of zero gets nothing, and with fewer bytes than a header the
header cannot be parsed. -/
theorem tiny_budgets_get_no_batch :
    let l := Machine.exec (LiveLog.operate ⟨1000, 0, 4096, .none⟩) (.unopened ⟨1000, 0, 4096, .none⟩)
      [⟨.openLog, []⟩, ⟨.append false [minimalBatch 0], []⟩]
    l.partition.log.logStart = 0 ∧ l.partition.log.highWatermark = 1 ∧
      LiveLog.fetchAt 0 (-1) l = .error .panic l ∧ LiveLog.fetchAt 0 0 l = .ok ([], 0) l ∧
      LiveLog.fetchAt 0 60 l = .error (.err (.text "batch header: need 61 bytes, have 60")) l := by
  intro l
  have handles : l.headClosed = false := by decide +kernel
  have negative : failure (fetchAt l.partition.log l.partition.world 0 (-1)) = some .panic := by
    decide +kernel
  have zero : (fetchAt l.partition.log l.partition.world 0 0).toOption = some ([], 0) := by
    decide +kernel
  have short : failure (fetchAt l.partition.log l.partition.world 0 60) =
      some (.err (.text "batch header: need 61 bytes, have 60")) := by decide +kernel
  refine ⟨by decide +kernel, by decide +kernel, ?_, ?_, ?_⟩
  · rw [LiveLog.fetchAt_eq handles, error_of_failure negative]
  · rw [LiveLog.fetchAt_eq handles, ok_of_toOption zero]
  · rw [LiveLog.fetchAt_eq handles, error_of_failure short]

end KafkaWire.Storage
