import KafkaWire.Storage.Stability

/-! Logs on which no write was left half-done. Their files hold the stored batches and
nothing else, and every segment but the active one is durable as a whole. -/

namespace KafkaWire.Storage

open Bytes Files Programs

def Filed (store : Store Int) (s : Segment) (data synced : Bytes) : Prop :=
  ∃ mtime, store.lookup s.baseOffset = some ⟨data, synced, mtime⟩

structure Intact (p : Partition) (front : List Segment) (active : Segment)
    (old : List (List Bytes)) (new : List Bytes) : Prop where
  readable : Readable p front active old new
  old : List.Forall₂ (fun s batches => Filed (p.world.stores .log) s batches.flatten batches.flatten)
    front old
  new : ∃ kept, kept <+: new ∧ Filed (p.world.stores .log) active new.flatten kept.flatten ∧
    (active.sealed = true → kept = new)
  offset : (p.world.stores .log).offset active.logFile.fd = active.logSize

theorem forall₂_filed_congr {store after : Store Int} {segments : List Segment}
    {groups : List (List Bytes)}
    (filed : List.Forall₂ (fun s batches => Filed store s batches.flatten batches.flatten) segments
      groups)
    (same : ∀ s ∈ segments, after.lookup s.baseOffset = store.lookup s.baseOffset) :
    List.Forall₂ (fun s batches => Filed after s batches.flatten batches.flatten) segments groups := by
  induction filed with
  | nil => exact .nil
  | cons here _ ih =>
    refine .cons ?_ (ih fun s member => same s (List.mem_cons_of_mem _ member))
    rw [Filed, same _ List.mem_cons_self]
    exact here

theorem HandleAdded.created {base : Int} {before after : World} (added : HandleAdded base before after)
    (vacant : Vacant base after) :
    ∃ mtime, (after.stores .log).lookup base = some ⟨[], [], mtime⟩ := by
  obtain ⟨now, log⟩ := added
  cases found : (after.stores .log).lookup base with
  | none =>
    rw [log, Store.lookup_openFile, if_pos rfl] at found
    cases found
  | some file =>
    obtain ⟨empty, unsynced⟩ := vacant .log file found
    obtain ⟨data, synced, mtime⟩ := file
    dsimp only at empty unsynced
    subst empty unsynced
    exact ⟨mtime, rfl⟩

theorem Sampled.indexOk {before after : Index} {base next : Int} {batches : List Bytes}
    {batch : Bytes} {position : Nat} (sampled : Sampled before after (int64 (next - base)) position)
    (ok : IndexOk base before.entries batches) (tiles : Tiles base batches next)
    (size : position = batches.flatten.length) (positive : 0 ≤ base) (bounded : next < 2 ^ 63) :
    IndexOk base after.entries (batches ++ [batch]) := by
  have le := tiles.le
  have relative : int64 (next - base) = next - base := int64_of_range _ (by omega) (by omega)
  rw [relative] at sampled
  rcases sampled.2 with same | ⟨-, -, -, -, more⟩
  · rw [same]
    exact ok.append [batch]
  · rw [more]
    intro entry member
    rcases List.mem_append.mp member with known | sample
    · exact ok.append [batch] entry known
    · rw [List.mem_singleton.mp sample]
      refine ⟨batches, [batch], rfl, ?_, ?_⟩
      · rw [← size]
        exact Int.toNat_natCast position
      · have end' : base + ((next - base).toNat : Int) = next := by omega
        rw [end']
        exact tiles

section Steps

variable {p : Partition} {front : List Segment} {active : Segment} {old : List (List Bytes)}
  {new : List Bytes} (intact : Intact p front active old new)

include intact

theorem Intact.idle {after : World} (same : after.stores = p.world.stores) :
    Intact { p with world := after } front active old new := by
  refine ⟨intact.readable.idle same, ?_, ?_, ?_⟩
  · rw [same]
    exact intact.old
  · rw [same]
    exact intact.new
  · rw [same]
    exact intact.offset

theorem Intact.tore {batch : Bytes} {after : World} (tore : Tore active batch p.world after)
    (empty : p.world.next.fault = some 0) : Intact { p with world := after } front active old new := by
  have layout := intact.readable.layout
  have keyed := layout.active_keyed
  obtain ⟨kept, inside, ⟨mtime, found⟩, whole⟩ := intact.new
  obtain ⟨count, faulty, shape⟩ := id tore
  obtain rfl : 0 = count := Option.some.inj (empty.symm.trans faulty)
  have log : after.stores .log = (p.world.stores .log).write active.logFile [] p.world.next.now := by
    rw [shape]
    simp
  refine ⟨intact.readable.tore tore, ?_, ⟨kept, inside, ⟨p.world.next.now, ?_⟩, whole⟩, ?_⟩
  · apply forall₂_filed_congr intact.old
    intro s member
    exact tore.other keyed .log s.baseOffset (ne_of_lt (layout.base_lt s member))
  · show (after.stores .log).lookup active.baseOffset = _
    rw [log, Store.lookup_write, keyed.log, if_pos rfl, found, intact.offset,
      intact.readable.new.size, Option.map_some, Store.overwrite_end, List.append_nil]
  · show (after.stores .log).offset active.logFile.fd = _
    rw [log, Store.offset_write, if_pos rfl, intact.offset]
    rfl

theorem Intact.flushed {after : World} (synced : Synced active p.world after) :
    List.Forall₂ (fun s batches => Filed (after.stores .log) s batches.flatten batches.flatten)
        front old ∧ Filed (after.stores .log) active new.flatten new.flatten ∧
      (after.stores .log).offset active.logFile.fd = active.logSize := by
  have layout := intact.readable.layout
  have keyed := layout.active_keyed
  obtain ⟨kept, inside, ⟨mtime, found⟩, whole⟩ := intact.new
  rw [synced.log]
  refine ⟨?_, ⟨mtime, ?_⟩, ?_⟩
  · apply forall₂_filed_congr intact.old
    intro s member
    rw [Store.lookup_sync, keyed.log, if_neg (ne_of_lt (layout.base_lt s member))]
  · rw [Store.lookup_sync, keyed.log, if_pos rfl, found]
    rfl
  · rw [Store.offset_sync]
    exact intact.offset

theorem Intact.synced {after : World} (synced : Synced active p.world after) :
    Intact { p with world := after } front active old new := by
  obtain ⟨before, here, offset⟩ := intact.flushed synced
  exact ⟨intact.readable.synced synced, before, ⟨new, List.prefix_rfl, here, fun _ => rfl⟩, offset⟩

theorem Intact.closed {after : World} (synced : Synced active p.world after) :
    Intact { p with log := p.log.setActive { active with sealed := true }, world := after } front
      { active with sealed := true } old new := by
  obtain ⟨before, here, offset⟩ := intact.flushed synced
  exact ⟨intact.readable.closed synced, before, ⟨new, List.prefix_rfl, here, fun _ => rfl⟩, offset⟩

theorem Intact.opening {after : World} (isSealed : active.sealed = true)
    (ahead : active.nextOffset ≠ active.baseOffset)
    (opening : Opening active.nextOffset p.world after)
    (handles : after.stores .log = p.world.stores .log ∨
      HandleAdded active.nextOffset p.world after) :
    Intact { p with world := after } front active old new := by
  have layout := intact.readable.layout
  have same := layout.opening_lookup ahead opening .log
  obtain ⟨kept, inside, ⟨mtime, found⟩, whole⟩ := intact.new
  refine ⟨intact.readable.opening isSealed ahead opening handles, ?_,
    ⟨kept, inside, ⟨mtime, ?_⟩, whole⟩, ?_⟩
  · exact forall₂_filed_congr intact.old fun s member => same s (List.mem_append_left _ member)
  · show (after.stores .log).lookup active.baseOffset = _
    rw [same active (by simp), found]
  · show (after.stores .log).offset active.logFile.fd = _
    rw [← intact.offset]
    rcases handles with unchanged | added
    · rw [unchanged]
    · exact added.offset _ layout.handle

theorem Intact.rolled {after : World} (cfg : Config) (idxFd tixFd : Nat) (createdAt : Int)
    (isSealed : active.sealed = true) (ahead : active.nextOffset ≠ active.baseOffset)
    (opening : Opening active.nextOffset p.world after)
    (added : HandleAdded active.nextOffset p.world after) :
    let seg := emptySegment (segmentOpts cfg active.nextOffset) (p.world.stores .log).nextFd
      idxFd tixFd createdAt
    Intact { p with log := { p.log with segments := p.log.segments ++ [seg] }, world := after }
      (front ++ [active]) seg (old ++ [new]) [] := by
  intro seg
  have still := intact.opening isSealed ahead opening (.inr added)
  obtain ⟨kept, -, filed, whole⟩ := still.new
  rw [whole isSealed] at filed
  refine ⟨intact.readable.rolled cfg idxFd tixFd createdAt isSealed ahead opening added,
    List.rel_append still.old (.cons filed .nil),
    ⟨[], List.prefix_rfl, added.created opening.vacant, fun _ => rfl⟩, ?_⟩
  obtain ⟨now, log⟩ := added
  show (after.stores .log).offset (p.world.stores .log).nextFd = 0
  rw [log, Store.offset_openFile, if_pos rfl]

theorem Intact.stored {batch : Bytes} {done : Appended} {after : World} (whole : IsBatch batch)
    (counted : 0 < offsetCount batch) (fits : active.nextOffset + offsetCount batch < 2 ^ 63)
    (wrote : Wrote active (stamp batch active.nextOffset) p.world done after) :
    Intact (recordStored batch (stamp batch active.nextOffset) done { p with world := after }) front
      done.segment old (new ++ [stamp batch active.nextOffset]) := by
  have readable := intact.readable
  have layout := readable.layout
  have keyed := layout.active_keyed
  have long := whole.length_ge
  obtain ⟨storedAt, count⟩ :=
    stamp_storedAt batch active.nextOffset whole wrote.crc layout.next_positive counted fits
  have next := wrote.nextOffset_stamp long layout.next_positive counted fits
  obtain ⟨kept, inside, ⟨mtime, found⟩, -⟩ := intact.new
  obtain ⟨now, log⟩ := wrote.log
  have written : (after.stores .log).lookup active.baseOffset =
      some ⟨(new ++ [stamp batch active.nextOffset]).flatten, kept.flatten, now⟩ := by
    rw [log, Store.lookup_write, keyed.log, if_pos rfl, found, intact.offset, readable.new.size,
      Option.map_some, Store.overwrite_end]
    simp
  have others : ∀ s ∈ front, (after.stores .log).lookup s.baseOffset =
      (p.world.stores .log).lookup s.baseOffset :=
    fun s member => wrote.other .log s.baseOffset (ne_of_lt (layout.base_lt s member))
  have size : done.segment.logSize = (new ++ [stamp batch active.nextOffset]).flatten.length := by
    rw [wrote.logSize, readable.new.size]
    simp
  have offset : (after.stores .log).offset done.segment.logFile.fd = done.segment.logSize := by
    rw [wrote.logFile, wrote.logSize, log, Store.offset_write, if_pos rfl, intact.offset]
  refine ⟨⟨layout.stored long counted fits wrote, ?_, ⟨?_, size, ?_, ?_⟩, ?_⟩, ?_,
    ⟨kept, inside.trans (List.prefix_append _ _), ?_, ?_⟩, offset⟩
  · exact forall₂_congr_of_mem readable.old fun s member => by rw [← others s member]; rfl
  · rw [wrote.baseOffset, next, ← count]
    exact readable.new.tiles.snoc storedAt
  · rw [wrote.baseOffset]
    exact ⟨_, written, List.prefix_rfl⟩
  · have sampled := wrote.segment.idx
    rw [(stamp_offsets batch _ long layout.next_positive counted fits).1] at sampled
    rw [wrote.baseOffset]
    exact sampled.indexOk readable.new.index readable.new.tiles readable.new.size
      layout.active_positive layout.bounded
  · exact le_of_eq offset.symm
  · exact forall₂_filed_congr intact.old others
  · rw [Filed, wrote.baseOffset]
    exact ⟨now, written⟩
  · intro isSealed
    rw [wrote.segment.shape] at isSealed
    have unsealed := wrote.unsealed
    simp [Segment.past, unsealed] at isSealed

end Steps

section Runs

variable {p p' : Partition} {front : List Segment} {active : Segment} {old : List (List Bytes)}
  {new : List Bytes}

def Extends (p p' : Partition) (stored : List Bytes) : Prop :=
  ∃ front active old new more, Intact p' front active old new ∧
    (old ++ [new]).flatten = stored ++ more ∧
    p'.journal.map Stored.written = p.journal.map Stored.written ++ more

theorem Extends.of_intact {front' : List Segment} {active' : Segment} {old' : List (List Bytes)}
    {new' : List Bytes} {stored : List Bytes} (intact : Intact p' front' active' old' new')
    (same : (old' ++ [new']).flatten = stored) (journal : p'.journal = p.journal) :
    Extends p p' stored :=
  ⟨front', active', old', new', [], intact, by rw [same, List.append_nil],
    by rw [journal, List.append_nil]⟩

theorem Effect.extends (effect : Effect IsBatch False p p') (intact : Intact p front active old new) :
    Extends p p' (old ++ [new]).flatten := by
  have layout := intact.readable.layout
  cases effect with
  | idle later same => exact .of_intact (intact.idle same) rfl rfl
  | tore segments tore allowed =>
    obtain ⟨rfl, rfl⟩ := segments_unique layout.segments segments
    exact .of_intact (intact.tore tore (allowed.resolve_left id)) rfl rfl
  | stored segments member counted fits long wrote =>
    obtain ⟨rfl, rfl⟩ := segments_unique layout.segments segments
    rename_i batch _ _
    exact ⟨front, _, old, _, [stamp batch active.nextOffset],
      intact.stored member counted fits wrote, by simp, by simp [recordStored]⟩
  | synced segments later synced =>
    obtain ⟨rfl, rfl⟩ := segments_unique layout.segments segments
    exact .of_intact (intact.synced synced) rfl rfl
  | closed segments later synced =>
    obtain ⟨rfl, rfl⟩ := segments_unique layout.segments segments
    exact .of_intact (intact.closed synced) rfl rfl
  | opening segments isSealed ahead opening handles =>
    obtain ⟨rfl, rfl⟩ := segments_unique layout.segments segments
    exact .of_intact (intact.opening isSealed ahead opening handles) rfl rfl
  | rolled idxFd tixFd createdAt segments isSealed ahead opening added =>
    obtain ⟨rfl, rfl⟩ := segments_unique layout.segments segments
    exact .of_intact
      (intact.rolled p.log.cfg idxFd tixFd createdAt isSealed ahead opening added) (by simp) rfl

theorem Effects.extends (effects : Effects IsBatch False p p')
    (intact : Intact p front active old new) : Extends p p' (old ++ [new]).flatten := by
  induction effects with
  | refl => exact .of_intact intact rfl rfl
  | tail _ effect ih =>
    obtain ⟨front', active', old', new', more, intact', stored, journal⟩ := ih
    obtain ⟨front'', active'', old'', new'', more', intact'', stored', journal'⟩ :=
      effect.extends intact'
    refine ⟨front'', active'', old'', new'', more ++ more', intact'', ?_, ?_⟩
    · rw [stored', stored, List.append_assoc]
    · rw [journal', journal, List.append_assoc]

theorem head_base_snoc (front : List Segment) (s s' : Segment) (same : s'.baseOffset = s.baseOffset) :
    (front ++ [s']).head?.map Segment.baseOffset = (front ++ [s]).head?.map Segment.baseOffset := by
  cases front <;> simp [same]

theorem Effect.start {whole : Bytes → Prop} {tearing : Prop} (effect : Effect whole tearing p p') :
    p'.log.segments.head?.map Segment.baseOffset = p.log.segments.head?.map Segment.baseOffset ∧
      p'.log.logStart = p.log.logStart := by
  cases effect with
  | stored segments member counted fits long wrote =>
    refine ⟨?_, rfl⟩
    rw [recordStored, setActive_segments _ _ _ _ segments, segments]
    exact head_base_snoc _ _ _ wrote.baseOffset
  | closed segments later synced =>
    refine ⟨?_, rfl⟩
    rw [setActive_segments _ _ _ _ segments, segments]
    exact head_base_snoc _ _ _ rfl
  | rolled idxFd tixFd createdAt segments isSealed ahead opening added =>
    exact ⟨by simp [segments], rfl⟩
  | _ => exact ⟨rfl, rfl⟩

theorem Effects.start {whole : Bytes → Prop} {tearing : Prop} (effects : Effects whole tearing p p') :
    p'.log.segments.head?.map Segment.baseOffset = p.log.segments.head?.map Segment.baseOffset ∧
      p'.log.logStart = p.log.logStart := by
  induction effects with
  | refl => exact ⟨rfl, rfl⟩
  | tail _ effect ih => exact ⟨effect.start.1.trans ih.1, effect.start.2.trans ih.2⟩

theorem Intact.tiles (intact : Intact p front active old new) {start : Int}
    (first : p.log.segments.head?.map Segment.baseOffset = some start) :
    Tiles start (old ++ [new]).flatten p.log.highWatermark := by
  have layout := intact.readable.layout
  rw [layout.segments] at first
  refine tiles_flatten start _ intact.readable.held layout.linked ?_ ?_ (by simp)
  · intro s isFirst
    rw [Option.mem_def.mp isFirst] at first
    exact Option.some.inj first
  · intro s isLast
    rw [List.getLast?_concat] at isLast
    rw [layout.highWatermark, ← Option.some.inj isLast]

end Runs

end KafkaWire.Storage
