import PartitionLog.Partition.Fixture
import PartitionLog.Proofs.KeyValue.Replay
import PartitionLog.Proofs.KeyValue.SnapshotLayout
import PartitionLog.Proofs.KeyValue.Writes

/-!
# Records of a snapshot and records of a segment

The two forms of a record differ where a value has no bytes: a segment reads it as absent, and the
record as one without a payload, while a snapshot reads it as a value that is cut short. Records
with values in them do the same in both (`decode_bothForms`).
-/
namespace PartitionLog.KeyValue

namespace State

/-- What records do to a state: the items, and the count of records without a payload. -/
def effect (state : State) : State where
  entries := state.entries
  stats := { absentPayloads := state.stats.absentPayloads }

def countAbsent (state : State) : State := state.mapStats ReplayStats.addAbsent

theorem apply_effect (readConfig : Reader Json) (state : State) (entry : Entry) :
    State.apply readConfig state.effect entry = (State.apply readConfig state entry).effect :=
  @apply_mapStats (fun stats => { absentPayloads := stats.absentPayloads }) (fun _ => rfl)
    readConfig state entry

theorem apply_countAbsent (readConfig : Reader Json) (state : State) (entry : Entry) :
    State.apply readConfig state.countAbsent entry =
      (State.apply readConfig state entry).countAbsent :=
  apply_mapStats (fun _ => rfl) readConfig state entry

end State

/-- Applies records one after another, if all of them can be read. -/
def applyRecords (readConfig : Reader Json) (header : BatchHeader) (records : List Record) :
    Except StoreError State :=
  (records.mapM (Store.decodeEntry header)).map fun entries =>
    entries.foldl (State.apply readConfig) {}

/-- All that a store has is this snapshot. -/
structure OnlySnapshot (store : Store) (tree : FileTree) (snapshot : StoreSnapshot) : Prop where
  valid : store.config.validate = .ok ()
  file : store.partition.snapshot.map tree.fileContents = some (.ok snapshot.toSnapshot.write)
  alone : store.partition.segments = []
  counted : snapshot.batch.header.recordCount.toInt.toNat = snapshot.batch.records.length
  small : snapshot.batch.write.length ≤ Int32.maxValue.toInt

/-- All that a store has is a segment with this batch. -/
structure OnlyBatch (store : Store) (tree : FileTree) (draft : BatchDraft) : Prop where
  valid : store.config.validate = .ok ()
  file : (store.partition.segments.map fun segment => tree.fileContents segment.path) =
    [.ok (Segment.write [draft.build])]
  alone : store.partition.snapshot = none
  own : draft.batchType = store.config.batchType
  fits : draft.Fits store.config.reader

namespace Store

theorem mapM_decodeEntry (header : BatchHeader) (records : List Record) :
    records.mapM (decodeEntry header) =
      List.map LoggedRecord.entry <$> records.mapM (readRecord header) := by
  induction records with
  | nil => rfl
  | cons r records ih =>
    rw [List.mapM_cons, List.mapM_cons, ih, decodeEntry_eq]
    cases readRecord header r with
    | error e => rfl
    | ok logged => cases records.mapM (readRecord header) <;> rfl

theorem decodeEntry_congr {header header' : BatchHeader} {r r' : Record}
    (base : header'.baseOffset = header.baseOffset)
    (time : header'.firstTimestamp = header.firstTimestamp)
    (key : r'.key.getD [] = r.key.getD []) (value : r'.value = r.value)
    (delta : r'.offsetDelta = r.offsetDelta) :
    decodeEntry header' r' = decodeEntry header r := by
  unfold decodeEntry Entry.ofRecord Entry.offsetOf
  rw [base, time, key, value, delta]

/-! ## A store with a snapshot -/

theorem effect_bootstrapLog (store : Store) (snapshot : SnapshotLog) :
    (store.bootstrapLog (some snapshot)).effect =
      (snapshot.records.map LoggedRecord.entry).foldl (State.apply store.readConfig) {} := by
  have step (state : State) (r : LoggedRecord) :
      State.apply store.readConfig state.effect r.entry =
        (store.bootstrapLogged state r).effect := by
    unfold bootstrapLogged
    rw [← State.apply_effect]
    rfl
  rw [List.foldl_map]
  exact (List.foldl_hom State.effect step).symm

theorem readSnapshot_written {tree : FileTree} {path : Path} {snapshot : StoreSnapshot}
    (contents : tree.fileContents path = .ok snapshot.toSnapshot.write)
    (counted : snapshot.batch.header.recordCount.toInt.toNat = snapshot.batch.records.length)
    (small : snapshot.batch.write.length < 2 ^ 31) :
    readSnapshot tree path = .ok { snapshot with batch := snapshot.batch.kept } := by
  simp only [readSnapshot, contents, snapshot.ofBytes_write_toSnapshot,
    StoreSnapshot.ofSnapshot_toSnapshot counted small, bind, Except.bind, Except.mapError]

theorem map_effect_decode_snapshot {store : Store} {tree : FileTree} {snapshot : StoreSnapshot}
    (only : OnlySnapshot store tree snapshot) :
    (store.decode tree).map State.effect =
      applyRecords store.readConfig snapshot.batch.header
        (snapshot.batch.records.map SnapshotBatch.keptRecord) := by
  obtain ⟨path, found, contents⟩ := Option.map_eq_some_iff.mp only.file
  have small : snapshot.batch.write.length < 2 ^ 31 := by
    have small := only.small
    rw [Int32.toInt_maxValue] at small
    omega
  rw [decode_eq_rebuild, only.valid, readLog, readSnapshotLog, found, only.alone, applyRecords,
    mapM_decodeEntry]
  simp only [readSnapshot_written contents only.counted small, SnapshotBatch.kept, bind,
    Except.bind, Except.mapError]
  cases (snapshot.batch.records.map SnapshotBatch.keptRecord).mapM
      (readRecord snapshot.batch.header) with
  | error e => rfl
  | ok logged =>
    exact congrArg Except.ok (store.effect_bootstrapLog ⟨snapshot.lastOffset, logged⟩)

/-! ## A store with a segment -/

theorem effect_foldl_replayEntry {store : Store} {state : State} (entries : List Entry)
    (uncovered : state.stats.snapshotLastOffset = none) :
    (entries.foldl store.replayEntry state).effect =
      entries.foldl (State.apply store.readConfig) state.effect := by
  induction entries generalizing state with
  | nil => rfl
  | cons entry entries ih =>
    have step : store.replayEntry state entry =
        State.apply store.readConfig (state.mapStats ReplayStats.addApplied) entry := by
      apply replayEntry_of_uncovered
      rw [uncovered, isCovered, Option.any_none, Bool.and_false]
      exact Bool.false_ne_true
    rw [List.foldl_cons, List.foldl_cons, ih, step, ← State.apply_effect]
    · rfl
    · rw [step, State.apply]
      cases entry.payload <;> exact uncovered

theorem effect_rebuild (store : Store) (segments : List (List LogBatch)) :
    (store.rebuild ⟨none, segments⟩).effect =
      (segments.flatMap (·.flatMap (LogBatch.entries store.config))).foldl
        (State.apply store.readConfig) {} :=
  (congrArg State.effect (store.unframed_rebuild ⟨none, segments⟩)).trans
    (effect_foldl_replayEntry _ rfl)

theorem map_effect_decode_batch {store : Store} {tree : FileTree} {draft : BatchDraft}
    (only : OnlyBatch store tree draft) :
    (store.decode tree).map State.effect =
      applyRecords store.readConfig draft.header (draft.records.map Record.asWritten) := by
  obtain ⟨segment, segments, found, here, last⟩ := List.map_eq_cons_iff.mp only.file
  obtain rfl := List.map_eq_nil_iff.mp last
  rw [Segment.write, ← List.append_nil (List.flatMap _ _)] at here
  have read := readSegment_of_written (.short (by decide))
    (fun batch member => List.mem_singleton.mp member ▸ only.fits.intact) here
  rw [decode_eq_rebuild, only.valid, readLog, readSnapshotLog, only.alone, found,
    List.mapM_cons, read, List.mapM_cons, readBatch_build segment.path only.own only.fits,
    applyRecords, mapM_decodeEntry]
  cases (draft.records.map Record.asWritten).mapM (readRecord draft.header) with
  | error e => rfl
  | ok logged =>
    have rebuilt := store.effect_rebuild [[⟨draft.header, logged⟩]]
    rw [List.flatMap_singleton, List.flatMap_singleton, LogBatch.entries_of_own only.own] at rebuilt
    exact congrArg Except.ok rebuilt

/-! ## Records of which nothing is left -/

theorem decodeEntry_keptRecord {header header' : BatchHeader} {r : Record}
    (base : header'.baseOffset = header.baseOffset)
    (time : header'.firstTimestamp = header.firstTimestamp)
    (delta : r.offsetDelta.toInt32.toInt64 = r.offsetDelta) (value : r.value.getD [] ≠ []) :
    decodeEntry header' (SnapshotBatch.keptRecord r) = decodeEntry header r := by
  refine decodeEntry_congr base time rfl ?_ delta
  obtain ⟨bs, present⟩ := Option.ne_none_iff_exists'.mp fun absent =>
    value (congrArg (Option.getD · []) absent)
  rw [SnapshotBatch.keptRecord, present, Option.getD_some]

theorem decodeEntry_asWritten {header : BatchHeader} {r : Record} (value : r.value.getD [] ≠ []) :
    decodeEntry header r.asWritten = decodeEntry header r :=
  decodeEntry_congr rfl rfl (getD_filter_ne_nil r.key) (filter_ne_nil_of_ne value) rfl

theorem decodeEntry_keptRecord_absent (header : BatchHeader) {r : Record}
    (delta : r.offsetDelta.toInt32.toInt64 = r.offsetDelta) (absent : r.value.getD [] = []) :
    decodeEntry header (SnapshotBatch.keptRecord r) =
      .error (.entry (header.baseOffset + r.offsetDelta) (.truncated 1 0)) := by
  have offset : Entry.offsetOf header (SnapshotBatch.keptRecord r) =
      header.baseOffset + r.offsetDelta := congrArg (header.baseOffset + ·) delta
  have value : Entry.payloadOf (SnapshotBatch.keptRecord r).value = .error (.truncated 1 0) := by
    rw [SnapshotBatch.keptRecord, absent]
    rfl
  have failed : Entry.ofRecord header (SnapshotBatch.keptRecord r) = .error (.truncated 1 0) := by
    rw [Entry.ofRecord, value]
    -- The key is read first, but of an empty key the same byte is missing.
    cases key : (SnapshotBatch.keptRecord r).key.getD [] with
    | nil => rfl
    | cons b buffer =>
      rw [StoredKey.run_read_cons]
      rfl
  rw [decodeEntry, failed, offset]
  rfl

theorem exists_decodeEntry_asWritten_absent {r : Record} (header : BatchHeader)
    (keyed : r.key.getD [] ≠ []) (absent : r.value.getD [] = []) :
    ∃ entry, decodeEntry header r.asWritten = .ok entry ∧ entry.payload = none := by
  obtain ⟨b, buffer, bytes⟩ := List.exists_cons_of_ne_nil keyed
  have key : (StoredKey.read.run (r.asWritten.key.getD [])).1 = .ok ⟨.ofTag b.toInt8, buffer⟩ := by
    rw [Record.asWritten, getD_filter_ne_nil, bytes, StoredKey.run_read_cons]
  have value : Entry.payloadOf r.asWritten.value = .ok none := by
    rw [Record.asWritten, filter_ne_nil_of_eq absent]
    rfl
  refine ⟨⟨⟨.ofTag b.toInt8, buffer⟩, none, Entry.offsetOf header r.asWritten,
    header.firstTimestamp⟩, ?_, rfl⟩
  rw [decodeEntry, Entry.ofRecord_of_parts key value]
  rfl

end Store

/-! ## Lists of records -/

section

variable {readConfig : Reader Json} {header : BatchHeader}

theorem applyRecords_congr {header' : BatchHeader} {form : Record → Record} {records : List Record}
    (same : ∀ r ∈ records, Store.decodeEntry header' (form r) = Store.decodeEntry header r) :
    applyRecords readConfig header' (records.map form) =
      applyRecords readConfig header records := by
  rw [applyRecords, List.mapM_map, applyRecords]
  exact congrArg _ (mapM_congr_left same)

theorem applyRecords_error {front back : List Record} {r : Record} {e : StoreError}
    (failed : Store.decodeEntry header r = .error e) :
    applyRecords readConfig header (front ++ r :: back) =
      (applyRecords readConfig header front >>= fun _ => .error e) := by
  rw [applyRecords, applyRecords, List.mapM_append, List.mapM_cons, failed]
  cases front.mapM (Store.decodeEntry header) <;> rfl

theorem applyRecords_absent {front back : List Record} {r : Record} {entry : Entry}
    (decoded : Store.decodeEntry header r = .ok entry) (absent : entry.payload = none) :
    applyRecords readConfig header (front ++ r :: back) =
      (applyRecords readConfig header (front ++ back)).map State.countAbsent := by
  have counted (state : State) : State.apply readConfig state entry = state.countAbsent := by
    rw [State.apply, absent]
    rfl
  have fold (before after : List Entry) :
      (before ++ entry :: after).foldl (State.apply readConfig) {} =
        ((before ++ after).foldl (State.apply readConfig) {}).countAbsent := by
    rw [List.foldl_append, List.foldl_cons, counted, List.foldl_append]
    exact List.foldl_hom State.countAbsent (State.apply_countAbsent readConfig)
  rw [applyRecords, applyRecords, List.mapM_append, List.mapM_append, List.mapM_cons, decoded]
  cases front.mapM (Store.decodeEntry header) with
  | error e => rfl
  | ok before =>
    cases back.mapM (Store.decodeEntry header) with
    | error e => rfl
    | ok after => exact congrArg Except.ok (fold before after)

theorem exists_entry_of_applyRecords_error {records : List Record} {e : StoreError}
    (failed : applyRecords readConfig header records = .error e) :
    ∃ offset cause, e = .entry offset cause := by
  rw [applyRecords] at failed
  cases read : records.mapM (Store.decodeEntry header) with
  | ok entries =>
    rw [read] at failed
    cases failed
  | error e' =>
    rw [read] at failed
    cases failed
    obtain ⟨r, -, first⟩ := exists_error_of_mapM read
    rw [Store.decodeEntry] at first
    cases decoded : Entry.ofRecord header r with
    | ok entry =>
      rw [decoded] at first
      cases first
    | error cause =>
      rw [decoded] at first
      cases first
      exact ⟨_, cause, rfl⟩

end

/-! ## Both forms -/

/-- The records, and what of a header their entries depend on. -/
structure SameRecords (batch : SnapshotBatch) (draft : BatchDraft) : Prop where
  records : batch.records = draft.records
  base : batch.header.baseOffset = draft.baseOffset
  time : batch.header.firstTimestamp = draft.firstTimestamp
  deltas : ∀ r ∈ draft.records, Int32.minValue.toInt ≤ r.offsetDelta.toInt ∧
    r.offsetDelta.toInt ≤ Int32.maxValue.toInt

theorem decode_bothForms {store store' : Store} {tree tree' : FileTree} {snapshot : StoreSnapshot}
    {draft : BatchDraft} (only : OnlySnapshot store tree snapshot)
    (only' : OnlyBatch store' tree' draft) (hook : store'.readConfig = store.readConfig)
    (same : SameRecords snapshot.batch draft) :
    ((∀ r ∈ draft.records, r.value.getD [] ≠ []) →
      (store.decode tree).map State.effect = (store'.decode tree').map State.effect) ∧
    (∀ front r back, draft.records = front ++ r :: back → r.value.getD [] = [] →
      ((∀ earlier ∈ front, earlier.value.getD [] ≠ []) →
        (store.decode tree).map State.effect =
          (applyRecords store.readConfig draft.header front >>= fun _ =>
            .error (.entry (draft.baseOffset + r.offsetDelta) (.truncated 1 0)))) ∧
      (r.key.getD [] ≠ [] →
        (store'.decode tree').map State.effect =
          (applyRecords store.readConfig draft.header
            ((front ++ back).map Record.asWritten)).map State.countAbsent)) ∧
    ∀ e, store.decode tree = .error e ∨ store'.decode tree' = .error e →
      ∃ offset cause, e = .entry offset cause := by
  -- Each form is compared with the records as they were before they were written.
  have kept := Store.map_effect_decode_snapshot only
  have written := Store.map_effect_decode_batch only'
  rw [same.records] at kept
  rw [hook] at written
  have delta : ∀ r ∈ draft.records, r.offsetDelta.toInt32.toInt64 = r.offsetDelta :=
    fun r member => toInt64_toInt32 (same.deltas r member).1 (same.deltas r member).2
  have keptAs (records : List Record) (among : records ⊆ draft.records)
      (valued : ∀ r ∈ records, r.value.getD [] ≠ []) :
      applyRecords store.readConfig snapshot.batch.header
          (records.map SnapshotBatch.keptRecord) =
        applyRecords store.readConfig draft.header records :=
    applyRecords_congr fun r member =>
      Store.decodeEntry_keptRecord same.base same.time (delta r (among member)) (valued r member)
  refine ⟨fun valued => ?_, fun front r back split absent => ⟨fun valued => ?_, fun keyed => ?_⟩,
    fun e failed => ?_⟩
  · rw [kept, written, keptAs _ (List.Subset.refl _) valued]
    exact (applyRecords_congr fun r member => Store.decodeEntry_asWritten (valued r member)).symm
  · have among : front ⊆ draft.records := split ▸ List.subset_append_left front (r :: back)
    have member : r ∈ draft.records := split ▸ List.mem_append_right front List.mem_cons_self
    have failed := Store.decodeEntry_keptRecord_absent snapshot.batch.header (delta r member) absent
    rw [kept, split, List.map_append, List.map_cons, applyRecords_error failed,
      keptAs front among valued, same.base]
  · obtain ⟨entry, decoded, payload⟩ :=
      Store.exists_decodeEntry_asWritten_absent draft.header keyed absent
    rw [written, split, List.map_append, List.map_cons, applyRecords_absent decoded payload,
      List.map_append]
  · cases failed with
    | inl failed =>
      rw [failed] at kept
      exact exists_entry_of_applyRecords_error kept.symm
    | inr failed =>
      rw [failed] at written
      exact exists_entry_of_applyRecords_error written.symm

/-! ## Two records, and a value that may be absent -/

namespace BothForms

def key (group : Int64) : Key := .consensus .lastAppliedOffset group

def records (value : Option Bytes) : List Record := [
  .ofKeyValue 0 0 (some (key 1).write) (some (writePayload (some [1]))),
  .ofKeyValue 1 0 (some (key 2).write) value]

def snapshot (value : Option Bytes) : StoreSnapshot where
  lastOffset := 8
  batch := {
    header := { baseOffset := 7, batchType := storeBatchType, recordCount := 2 }
    term := 1
    compressed := 0
    records := records value }

def draft (value : Option Bytes) : BatchDraft where
  baseOffset := 7
  batchType := storeBatchType
  records := records value

def tree (value : Option Bytes) : FileTree where
  mount := ⟨"/"⟩
  root := .ok (.dir [
    ("snapshot", .file (snapshot value).toSnapshot.write),
    ("7-1-v1.log", .file (Segment.write [(draft value).build]))])

def store : Store where
  partition := ⟨⟨"redpanda", "kvstore", 0⟩, 0, ⟨"/"⟩, [], some ⟨"/snapshot"⟩⟩

def store' : Store where
  partition := ⟨⟨"redpanda", "kvstore", 0⟩, 0, ⟨"/"⟩, [⟨⟨"/7-1-v1.log"⟩⟩], none⟩

def present : Option Bytes := some (writePayload (some [2]))

set_option maxRecDepth 20000 in
theorem only {value : Option Bytes} (either : value = present ∨ value = none) :
    OnlySnapshot store (tree value) (snapshot value) where
  valid := rfl
  file := by obtain rfl | rfl := either <;> rfl
  alone := rfl
  counted := rfl
  small := by obtain rfl | rfl := either <;> decide

theorem only' {value : Option Bytes} (either : value = present ∨ value = none) :
    OnlyBatch store' (tree value) (draft value) where
  valid := rfl
  file := by obtain rfl | rfl := either <;> rfl
  alone := rfl
  own := rfl
  fits := by
    have region : (draft value).region.length ≤ 1000 := by
      obtain rfl | rfl := either <;> decide
    refine ⟨Nat.le_trans region (by decide), ?_⟩
    rw [Int32.toInt_maxValue, BatchHeader.size]
    omega

theorem same (value : Option Bytes) : SameRecords (snapshot value).batch (draft value) where
  records := rfl
  base := rfl
  time := rfl
  deltas r member := by
    have delta : r.offsetDelta ∈ ([0, 1] : List Int64) := List.mem_map_of_mem member
    cases List.mem_cons.mp delta with
    | inl first =>
      rw [first]
      decide
    | inr second =>
      rw [List.mem_singleton.mp second]
      decide

end BothForms

theorem decode_bothForms_oneAbsent :
    (BothForms.store.decode (BothForms.tree BothForms.present)).map State.effect =
        (BothForms.store'.decode (BothForms.tree BothForms.present)).map State.effect ∧
      (BothForms.store.decode (BothForms.tree none)).map State.effect =
        (applyRecords RaftConfig.readJson (BothForms.draft none).header
            ((BothForms.records none).take 1) >>= fun _ => .error (.entry 8 (.truncated 1 0))) ∧
      (BothForms.store'.decode (BothForms.tree none)).map State.effect =
        (applyRecords RaftConfig.readJson (BothForms.draft none).header
            (((BothForms.records none).take 1).map Record.asWritten)).map State.countAbsent := by
  obtain ⟨alike, -⟩ := decode_bothForms (BothForms.only (.inl rfl)) (BothForms.only' (.inl rfl)) rfl
    (BothForms.same BothForms.present)
  obtain ⟨-, absent, -⟩ := decode_bothForms (BothForms.only (.inr rfl))
    (BothForms.only' (.inr rfl)) rfl (BothForms.same none)
  obtain ⟨kept, written⟩ := absent ((BothForms.records none).take 1)
    (.ofKeyValue 1 0 (some (BothForms.key 2).write) none) [] rfl rfl
  exact ⟨alike (by decide), kept (by decide), written (by decide)⟩

theorem decode_bothForms_absentValue :
    (∀ r ∈ BothForms.records none, r.key.getD [] ≠ []) ∧
      failure? (BothForms.store.decode (BothForms.tree none)) =
        some (.entry 8 (.truncated 1 0)) ∧
      (BothForms.store'.decode (BothForms.tree none)).toOption.map (·.stats.absentPayloads) =
        some 1 := by
  have kept := Store.map_effect_decode_snapshot (BothForms.only (.inr rfl))
  have written := Store.map_effect_decode_batch (BothForms.only' (.inr rfl))
  refine ⟨by decide, ?_, ?_⟩
  · have failed := (failure?_map State.effect _).symm.trans (congrArg failure? kept)
    rw [failed]
    rfl
  · have counted := congrArg (fun result =>
      result.toOption.map fun state => state.stats.absentPayloads) written
    cases decoded : BothForms.store'.decode (BothForms.tree none) with
    | error e =>
      rw [decoded] at counted
      cases counted
    | ok state =>
      rw [decoded] at counted
      exact counted

end PartitionLog.KeyValue
