import PartitionLog.KeyValue.Fixture
import PartitionLog.Proofs.Canonical
import PartitionLog.Proofs.KeyValue.KeyOrder
import PartitionLog.Proofs.KeyValue.Replay

/-!
# Bytes behind the layout of a key

A key is read from the front of its bytes, and what stands behind its layout, the surplus, is passed
over. So a decoded key writes back the stored key up to the surplus, and the items of a store have
equal keys exactly where the stored keys agree up to theirs: `decoded_upToSurplus`.
-/
namespace PartitionLog.KeyValue

/-! ## Layouts -/

theorem ConsensusKind.tag_ofTag (t : Int8) : (ofTag t).tag = t := by
  grind [ofTag, tag]

theorem StorageKind.tag_ofTag (t : Int8) : (ofTag t).tag = t := by
  grind [ofTag, tag]

namespace KeyData

theorem decodes_consensus (kind : ConsensusKind) (group : Int64) :
    readConsensus.Decodes (consensus kind group).write (.consensus (.ofTag kind.tag) group) := by
  rw [write]
  exact (Reader.Decodes.i8 kind.tag).bind ((Reader.Decodes.i64 group).bind_pure _)

theorem decodes_storage (kind : StorageKind) {ntp : Ntp} (ns : ntp.ns.utf8ByteSize < 2 ^ 31)
    (topic : ntp.topic.utf8ByteSize < 2 ^ 31) :
    readStorage.Decodes (storage kind ntp).write (.storage (.ofTag kind.tag) ntp) := by
  rw [write]
  exact (Reader.Decodes.i8 kind.tag).bind ((Ntp.decodes_write ns topic).bind_pure _)

theorem canonical_readConsensus : readConsensus.Canonical write := by
  have fields := Reader.Canonical.i8.pair Reader.Canonical.i64
  refine .of_eq ?_ (fields.map (f := fun x => consensus (.ofTag x.1) x.2) fun _ => ?_)
  · simp [readConsensus, Reader.pair]
  · rw [write, ConsensusKind.tag_ofTag]

theorem canonical_readStorage : readStorage.Canonical write := by
  have fields := Reader.Canonical.i8.pair Ntp.canonical_read
  refine .of_eq ?_ (fields.map (f := fun x => storage (.ofTag x.1) x.2) fun _ => ?_)
  · simp [readStorage, Reader.pair]
  · rw [write, StorageKind.tag_ofTag]

end KeyData

def KeySpace.layout? : KeySpace → Option (Reader KeyData)
  | consensus => some KeyData.readConsensus
  | storage => some KeyData.readStorage
  | _ => none

theorem KeySpace.canonical_layout {space : KeySpace} {layout : Reader KeyData}
    (laid : space.layout? = some layout) : layout.Canonical KeyData.write := by
  cases space with
  | consensus =>
    cases laid
    exact KeyData.canonical_readConsensus
  | storage =>
    cases laid
    exact KeyData.canonical_readStorage
  | testing => cases laid
  | cluster => cases laid
  | unknown tag => cases laid

/-! ## Stored keys up to their surplus -/

namespace StoredKey

def decoded (key : StoredKey) : Key := Key.decode key.space key.buffer

def surplus (key : StoredKey) : Bytes :=
  match key.space.layout? with
  | none => []
  | some layout =>
    match layout.run key.buffer with
    | (.ok _, behind) => behind
    | (.error _, _) => []

def trimmed (key : StoredKey) : StoredKey :=
  { key with buffer := key.buffer.take (key.buffer.length - key.surplus.length) }

theorem trimmed_of_surplus_eq_nil {key : StoredKey} (none : key.surplus = []) :
    key.trimmed = key := by
  rw [trimmed, none, List.length_nil, Nat.sub_zero, List.take_length]

theorem decoded_data (key : StoredKey) :
    key.decoded.data = match key.space.layout? with
      | none => .raw key.buffer
      | some layout => .readOrRaw layout key.buffer := by
  obtain ⟨space, buffer⟩ := key
  cases space <;> rfl

/-- A key is read by its layout, or kept as bytes. -/
theorem read_or_raw (key : StoredKey) :
    (∃ layout, key.space.layout? = some layout ∧
      layout.run key.buffer = (.ok key.decoded.data, key.surplus)) ∨
    (key.decoded.data = .raw key.buffer ∧ key.surplus = []) := by
  rw [decoded_data, surplus]
  cases key.space.layout? with
  | none => exact .inr ⟨rfl, rfl⟩
  | some layout =>
    dsimp only [KeyData.readOrRaw]
    cases run : layout.run key.buffer with
    | mk answer behind =>
      cases answer with
      | error e => exact .inr ⟨rfl, rfl⟩
      | ok data => exact .inl ⟨layout, rfl, run⟩

theorem write_data_append_surplus (key : StoredKey) :
    key.decoded.data.write ++ key.surplus = key.buffer := by
  cases key.read_or_raw with
  | inl read =>
    obtain ⟨layout, laid, run⟩ := read
    exact (KeySpace.canonical_layout laid _ _ _ run).1.symm
  | inr raw =>
    obtain ⟨raw, none⟩ := raw
    rw [raw, none, List.append_nil, KeyData.write]

theorem buffer_trimmed (key : StoredKey) : key.trimmed.buffer = key.decoded.data.write := by
  have whole := key.write_data_append_surplus
  rw [trimmed, ← whole, List.length_append, Nat.add_sub_cancel, List.take_left]

theorem write_decoded_append_surplus (key : StoredKey) :
    key.decoded.write ++ key.surplus = key.write := by
  rw [Key.write, List.append_assoc, write_data_append_surplus]
  rfl

theorem decoded_trimmed (key : StoredKey) : key.trimmed.decoded = key.decoded := by
  cases key.read_or_raw with
  | inl read =>
    obtain ⟨layout, laid, run⟩ := read
    have again := (KeySpace.canonical_layout laid _ _ _ run).2.run
    rw [← buffer_trimmed] at again
    have data : key.trimmed.decoded.data = key.decoded.data := by
      have laid' : key.trimmed.space.layout? = some layout := laid
      rw [decoded_data, laid']
      simp only [KeyData.readOrRaw, again]
    exact congrArg (Key.mk key.space) data
  | inr raw => rw [trimmed_of_surplus_eq_nil raw.2]

theorem decoded_eq_iff {a b : StoredKey} : a.decoded = b.decoded ↔ a.trimmed = b.trimmed := by
  constructor
  · intro same
    have space : a.space = b.space := congrArg Key.space same
    have buffer : a.trimmed.buffer = b.trimmed.buffer := by
      rw [buffer_trimmed, buffer_trimmed, same]
    have rebuilt (key : StoredKey) : key.trimmed = ⟨key.space, key.trimmed.buffer⟩ := rfl
    rw [rebuilt a, rebuilt b, space, buffer]
  · intro same
    rw [← decoded_trimmed a, same, decoded_trimmed]

theorem surplus_of_decodes {space : KeySpace} {layout : Reader KeyData} {encoded : Bytes}
    {data : KeyData} (laid : space.layout? = some layout) (decodes : layout.Decodes encoded data)
    (behind : Bytes) : surplus ⟨space, encoded ++ behind⟩ = behind := by
  simp only [surplus, laid, decodes behind]

theorem surplus_consensus (kind : ConsensusKind) (group : Int64) (behind : Bytes) :
    surplus ⟨.consensus, (KeyData.consensus kind group).write ++ behind⟩ = behind :=
  surplus_of_decodes rfl (KeyData.decodes_consensus kind group) behind

theorem surplus_storage (kind : StorageKind) {ntp : Ntp} (ns : ntp.ns.utf8ByteSize < 2 ^ 31)
    (topic : ntp.topic.utf8ByteSize < 2 ^ 31) (behind : Bytes) :
    surplus ⟨.storage, (KeyData.storage kind ntp).write ++ behind⟩ = behind :=
  surplus_of_decodes rfl (KeyData.decodes_storage kind ns topic) behind

end StoredKey

/-! ## Stores -/

namespace State

/-- What every step of a rebuild keeps of the entries. -/
structure Coherent (state : State) : Prop where
  sorted : SortedMap.Sorted state.entries
  decoded : ∀ entry ∈ state.entries, entry.2.key = entry.1.decoded

namespace Coherent

variable {state : State} {readConfig : Reader Json}

theorem of_entries_eq {state' : State} (coherent : state.Coherent)
    (same : state'.entries = state.entries) : state'.Coherent :=
  ⟨same ▸ coherent.sorted, same ▸ coherent.decoded⟩

theorem apply (coherent : state.Coherent) (entry : Entry) :
    (State.apply readConfig state entry).Coherent := by
  unfold State.apply
  cases entry.payload with
  | none => exact coherent.of_entries_eq rfl
  | some payload =>
    refine ⟨SortedMap.sorted_insert _ _ coherent.sorted, fun item member => ?_⟩
    cases SortedMap.mem_insert member with
    | inl new =>
      rw [new]
      rfl
    | inr old => exact coherent.decoded item old

theorem replayEntry {store : Store} (coherent : state.Coherent) (entry : Entry) :
    (store.replayEntry state entry).Coherent := by
  by_cases covered : store.isCovered state.stats.snapshotLastOffset entry.offset = true
  · rw [Store.replayEntry_of_covered covered]
    exact coherent.of_entries_eq rfl
  · rw [Store.replayEntry_of_uncovered covered]
    have counted : (state.mapStats ReplayStats.addApplied).Coherent := coherent.of_entries_eq rfl
    exact counted.apply entry

theorem bootstrapLog (store : Store) (snapshot : Option SnapshotLog) :
    (store.bootstrapLog snapshot).Coherent := by
  have empty : State.Coherent {} := ⟨.nil, fun _ member => absurd member List.not_mem_nil⟩
  cases snapshot with
  | none => exact empty
  | some snapshot =>
    have run : (snapshot.records.foldl store.bootstrapLogged {}).Coherent := by
      refine List.foldlRecOn (motive := State.Coherent) _ _ empty fun state coherent r _ => ?_
      have counted : State.Coherent
          { state with stats.snapshotRecords := state.stats.snapshotRecords + 1 } :=
        coherent.of_entries_eq rfl
      exact counted.apply r.entry
    exact run.of_entries_eq rfl

theorem rebuild (store : Store) (log : StoreLog) : (store.rebuild log).Coherent := by
  have start : (store.bootstrapLog log.snapshot).unframed.Coherent :=
    (bootstrapLog store log.snapshot).of_entries_eq rfl
  have run : (store.rebuild log).unframed.Coherent := by
    rw [Store.unframed_rebuild]
    exact List.foldlRecOn (motive := State.Coherent) _ _ start
      fun state coherent entry _ => coherent.replayEntry entry
  exact run.of_entries_eq rfl

theorem key_eq_iff (coherent : state.Coherent) {a b : StoredKey × Item} (a_mem : a ∈ state.entries)
    (b_mem : b ∈ state.entries) : a.2.key = b.2.key ↔ a.1.trimmed = b.1.trimmed := by
  rw [coherent.decoded a a_mem, coherent.decoded b b_mem, StoredKey.decoded_eq_iff]

theorem nodup_keys_iff (coherent : state.Coherent) :
    (state.items.map Item.key).Nodup ↔
      (state.entries.map fun entry => entry.1.trimmed).Nodup := by
  have keys : state.items.map Item.key = state.entries.map fun entry => entry.1.decoded := by
    rw [State.items, List.map_map]
    exact List.map_congr_left coherent.decoded
  rw [keys, List.Nodup, List.Nodup, List.pairwise_map, List.pairwise_map]
  exact List.Pairwise.iff (fun a b => not_congr StoredKey.decoded_eq_iff)

end Coherent
end State

/-- A decoded key writes back the stored key less its surplus, which is whatever follows the kind
and the group or partition of a key. Items have equal keys where stored keys agree up to that. -/
theorem decoded_upToSurplus (store : Store) (tree : FileTree) :
    (∀ key : StoredKey,
      (Key.decode key.space key.buffer).write ++ key.surplus = key.write ∧
      ((Key.decode key.space key.buffer).write = key.write ↔ key.surplus = [])) ∧
    (∀ kind group behind,
      StoredKey.surplus ⟨.consensus, (KeyData.consensus kind group).write ++ behind⟩ = behind) ∧
    (∀ (kind : StorageKind) (ntp : Ntp) (behind : Bytes), ntp.ns.utf8ByteSize < 2 ^ 31 →
      ntp.topic.utf8ByteSize < 2 ^ 31 →
      StoredKey.surplus ⟨.storage, (KeyData.storage kind ntp).write ++ behind⟩ = behind) ∧
    ∀ state, store.decode tree = .ok state →
      (state.entries.map Prod.fst).Nodup ∧
      (∀ a ∈ state.entries, ∀ b ∈ state.entries, a.2.key = b.2.key ↔ a.1.trimmed = b.1.trimmed) ∧
      ((state.items.map Item.key).Nodup ↔
        (state.entries.map fun entry => entry.1.trimmed).Nodup) := by
  refine ⟨fun key => ⟨key.write_decoded_append_surplus, ?_⟩, StoredKey.surplus_consensus, ?_, ?_⟩
  · have whole := key.write_decoded_append_surplus
    rw [← whole]
    exact List.self_eq_append_right
  · intro kind ntp behind ns topic
    exact StoredKey.surplus_storage kind ns topic behind
  · intro state decoded
    obtain ⟨-, log, -, rfl⟩ := Store.decode_eq_ok_iff.mp decoded
    have coherent := State.Coherent.rebuild store log
    exact ⟨SortedMap.nodup_keys coherent.sorted, fun a a_mem b b_mem =>
      coherent.key_eq_iff a_mem b_mem, coherent.nodup_keys_iff⟩

/-! ## Two keys that differ behind their layout only -/

namespace Surplus

def short : StoredKey := ⟨.consensus, [3, 1, 0, 0, 0, 0, 0, 0, 0]⟩

def long : StoredKey := ⟨.consensus, [3, 1, 0, 0, 0, 0, 0, 0, 0, 255]⟩

def draft : BatchDraft where
  baseOffset := 0
  batchType := storeBatchType
  records := Write.toRecords
    [⟨short.write, some (Wire.i64 5)⟩, ⟨long.write, some (Wire.i64 6)⟩]

def store : Store := { partition := OneSegment.partition }

def tree : FileTree := OneSegment.tree [draft.build]

theorem intact : ∀ batch ∈ [draft.build], Batch.Intact store.config.reader batch := by
  have small : draft.region.length ≤ 1000 := by decide
  have fits : draft.Fits store.config.reader := .of_le small (by decide) (by decide)
  simp [fits.intact]

theorem read_draft :
    (store.readWritten [OneSegment.segment] [[draft.build]]).toOption.map (fun logs =>
      ((store.rebuild ⟨none, logs⟩).entries.map Prod.fst,
        (store.rebuild ⟨none, logs⟩).items.map Item.key)) =
      some ([short, long], [.consensus .lastAppliedOffset 1, .consensus .lastAppliedOffset 1]) := by
  decide +kernel

/-- The store lists both keys, as the same one. -/
theorem exists_state : ∃ state, store.decode tree = .ok state ∧
    state.entries.map Prod.fst = [short, long] ∧
    state.items.map Item.key =
      [.consensus .lastAppliedOffset 1, .consensus .lastAppliedOffset 1] := by
  obtain ⟨logs, read, facts⟩ := exists_ok_of_map_eq_some read_draft
  have decoded : store.decode tree = _ := OneSegment.decode_tree rfl rfl intact
  rw [read] at decoded
  exact ⟨_, decoded, Prod.mk.inj facts⟩

end Surplus

theorem decoded_upToSurplus_oneByte :
    StoredKey.surplus ⟨.storage,
      (KeyData.storage .startOffset ⟨"kafka", "t", 0⟩).write ++ [0]⟩ = [0] ∧
    ∃ state, Surplus.store.decode Surplus.tree = .ok state ∧
      (state.entries.map Prod.fst).Nodup ∧
      ¬ (state.entries.map fun entry => entry.1.trimmed).Nodup := by
  obtain ⟨-, -, storage, stored⟩ := decoded_upToSurplus Surplus.store Surplus.tree
  obtain ⟨state, decoded, -, keys⟩ := Surplus.exists_state
  obtain ⟨distinct, -, nodup⟩ := stored state decoded
  refine ⟨storage .startOffset ⟨"kafka", "t", 0⟩ [0] (by decide) (by decide), state, decoded,
    distinct, nodup.not.mp ?_⟩
  rw [keys]
  decide

/-- One byte behind the group is lost, and two stored keys are listed as one key twice. -/
theorem decoded_upToSurplus_lost :
    (Key.decode .consensus Surplus.long.buffer).write ≠ Surplus.long.write ∧
      Surplus.short ≠ Surplus.long ∧
      ∃ state, Surplus.store.decode Surplus.tree = .ok state ∧
        state.entries.map Prod.fst = [Surplus.short, Surplus.long] ∧
        ¬ (state.items.map Item.key).Nodup := by
  obtain ⟨state, decoded, stored, keys⟩ := Surplus.exists_state
  refine ⟨by decide, by decide, state, decoded, stored, ?_⟩
  rw [keys]
  decide

end PartitionLog.KeyValue
