import PartitionLog.Proofs.KeyValue.Writes
import PartitionLog.Proofs.Sized

/-!
# Records as entries

A record is an entry unless its key has no byte for the space, or its value is neither a zero byte
in front of anything nor another byte in front of sized bytes (`Entry.ofRecord_exact`). What follows
a payload is passed over.
-/
namespace PartitionLog.KeyValue

/-! ## Values -/

/-- The payload in a value, in front of whatever follows it. -/
inductive Wraps : Option Bytes → Option Bytes → Prop
  | null : Wraps none none
  | absent (behind : Bytes) : Wraps (some (0 :: behind)) none
  | present {flag : UInt8} (isSet : flag ≠ 0) {payload : Bytes} (small : payload.length < 2 ^ 31)
      (trailing : Bytes) :
      Wraps (some (flag :: (Wire.sizedBytes payload ++ trailing))) (some payload)

/-- Without a flag, or with one that stands for a payload where no sized bytes are. -/
def Unwrapped (value : Bytes) : Prop :=
  value = [] ∨ ∃ flag behind, value = flag :: behind ∧ flag ≠ 0 ∧ ¬ Reader.Sized behind

theorem Wraps.eq_none_iff {value payload : Option Bytes} (wraps : Wraps value payload) :
    payload = none ↔ value = none ∨ ∃ behind, value = some (0 :: behind) := by
  cases wraps with
  | null => simp
  | absent behind => simp
  | present isSet => simp [isSet]

theorem run_readPayload_zero (behind : Bytes) :
    readPayload.run (0 :: behind) = (.ok none, behind) := by
  rw [readPayload, Reader.optional, Reader.run_bind_ok (Reader.run_bool_cons 0 behind)]
  rfl

theorem run_readPayload_cons {flag : UInt8} (isSet : flag ≠ 0) (behind : Bytes) :
    readPayload.run (flag :: behind) = (some <$> Reader.sizedBytes).run behind := by
  have there : (flag != 0) = true := bne_iff_ne.mpr isSet
  rw [readPayload, Reader.optional, Reader.run_bind_ok (Reader.run_bool_cons flag behind), there,
    if_pos rfl]

theorem run_readPayload {value : Bytes} {payload : Option Bytes} {rest : Bytes}
    (found : readPayload.run value = (.ok payload, rest)) : Wraps (some value) payload := by
  cases value with
  | nil => cases found
  | cons flag behind =>
    by_cases isSet : flag = 0
    · subst isSet
      rw [run_readPayload_zero] at found
      cases found
      exact .absent _
    · rw [run_readPayload_cons isSet] at found
      obtain ⟨bs, sized, rfl⟩ := Reader.run_map_eq_ok_iff.mp found
      obtain ⟨small, rfl⟩ := Reader.run_sizedBytes_eq_ok_iff.mp sized
      exact .present isSet small rest

theorem fails_readPayload_iff {value : Bytes} : readPayload.Fails value ↔ Unwrapped value := by
  unfold Unwrapped
  cases value with
  | nil => exact iff_of_true ⟨_, _, rfl⟩ (.inl rfl)
  | cons flag behind =>
    by_cases isSet : flag = 0
    · subst isSet
      simp [Reader.Fails, run_readPayload_zero]
    · have inner : readPayload.Fails (flag :: behind) ↔ ¬ Reader.Sized behind := by
        rw [← Reader.fails_sizedBytes_iff, Reader.Fails, run_readPayload_cons isSet]
        exact Reader.fails_map_iff
      simp [inner, isSet]

namespace Entry

theorem wraps_of_payloadOf {value payload : Option Bytes}
    (found : payloadOf value = .ok payload) : Wraps value payload := by
  cases value with
  | none =>
    cases found
    exact .null
  | some value => exact run_readPayload (Prod.ext found rfl)

theorem exists_payloadOf_error_iff {value : Option Bytes} :
    (∃ e, payloadOf value = .error e) ↔ ∃ bs ∈ value, Unwrapped bs := by
  cases value with
  | none => simp [payloadOf]
  | some value =>
    simp only [Option.mem_def, Option.some.injEq, exists_eq_left', ← fails_readPayload_iff]
    constructor
    · rintro ⟨e, failed⟩
      exact ⟨e, _, Prod.ext failed rfl⟩
    · rintro ⟨e, rest, failed⟩
      exact ⟨e, congrArg Prod.fst failed⟩

/-! ## Records -/

variable {header : BatchHeader} {record : Record}

theorem ofRecord_of_no_key (noKey : record.key.getD [] = []) :
    ofRecord header record = .error (.truncated 1 0) := by
  rw [ofRecord, noKey]
  rfl

theorem ofRecord_of_key {tag : UInt8} {buffer : Bytes}
    (key : record.key = some (tag :: buffer)) :
    ofRecord header record = (payloadOf record.value).map fun payload =>
      ⟨⟨.ofTag tag.toInt8, buffer⟩, payload, offsetOf header record, header.firstTimestamp⟩ := by
  rw [ofRecord, key, Option.getD_some, StoredKey.run_read_cons]
  cases payloadOf record.value <;> rfl

theorem exists_ofRecord_error_iff :
    (∃ e, ofRecord header record = .error e) ↔
      record.key = none ∨ record.key = some [] ∨ ∃ value ∈ record.value, Unwrapped value := by
  rw [← exists_payloadOf_error_iff]
  cases key : record.key with
  | none => exact iff_of_true ⟨_, ofRecord_of_no_key (by rw [key]; rfl)⟩ (.inl rfl)
  | some bytes =>
    cases bytes with
    | nil => exact iff_of_true ⟨_, ofRecord_of_no_key (by rw [key]; rfl)⟩ (.inr (.inl rfl))
    | cons tag buffer =>
      rw [ofRecord_of_key key]
      cases payloadOf record.value <;> simp [Except.map]

theorem wraps_of_ofRecord {entry : Entry} (found : ofRecord header record = .ok entry) :
    Wraps record.value entry.payload := by
  obtain ⟨key, -, found⟩ := bind_eq_ok_iff.mp found
  obtain ⟨payload, value, found⟩ := bind_eq_ok_iff.mp found
  cases found
  exact wraps_of_payloadOf value

theorem ofRecord_written {tag : Int8} {buffer trailing : Bytes} {payload : Option Bytes}
    (small : ∀ bs ∈ payload, bs.length < 2 ^ 31)
    (key : record.key = some (StoredKey.write ⟨.ofTag tag, buffer⟩))
    (value : record.value = some (writePayload payload ++ trailing)) :
    ofRecord header record =
      .ok ⟨⟨.ofTag tag, buffer⟩, payload, offsetOf header record, header.firstTimestamp⟩ := by
  have keyed : (StoredKey.read.run (record.key.getD [])).1 = .ok ⟨.ofTag tag, buffer⟩ := by
    rw [key, Option.getD_some, StoredKey.write, KeySpace.tag_ofTag, Wire.i8_eq,
      List.singleton_append, StoredKey.run_read_cons, Int8.toInt8_toUInt8]
  have wrapped : payloadOf record.value = .ok payload := by
    rw [value]
    exact congrArg Prod.fst (decodes_writePayload small trailing)
  exact ofRecord_of_parts keyed wrapped

/-- A record fails to be an entry in these ways only, and an entry has the payload that the value
wraps. -/
theorem ofRecord_exact :
    (∀ (tag : Int8) (buffer : Bytes) (payload : Option Bytes) (trailing : Bytes)
      (header : BatchHeader) (record : Record),
      (∀ bs ∈ payload, bs.length ≤ Int32.maxValue.toInt) →
      record.key = some (StoredKey.write ⟨.ofTag tag, buffer⟩) →
      record.value = some (writePayload payload ++ trailing) →
      ∃ entry, ofRecord header record = .ok entry ∧ entry.key = ⟨.ofTag tag, buffer⟩ ∧
        entry.payload = payload ∧
        entry.offset.toInt =
          (header.baseOffset.toInt + record.offsetDelta.toInt).bmod (2 ^ 64)) ∧
    ∀ (header : BatchHeader) (record : Record),
      ((∃ e, ofRecord header record = .error e) ↔
        record.key = none ∨ record.key = some [] ∨ ∃ value ∈ record.value, Unwrapped value) ∧
      ∀ entry, ofRecord header record = .ok entry →
        Wraps record.value entry.payload ∧
        (entry.payload = none ↔
          record.value = none ∨ ∃ behind, record.value = some (0 :: behind)) := by
  refine ⟨fun tag buffer payload trailing header record small key value => ?_,
    fun header record => ⟨exists_ofRecord_error_iff, fun entry found => ?_⟩⟩
  · have limited : ∀ bs ∈ payload, bs.length < 2 ^ 31 := by
      intro bs member
      have limit := small bs member
      rw [Int32.toInt_maxValue] at limit
      omega
    exact ⟨_, ofRecord_written limited key value, rfl, rfl, Int64.toInt_add _ _⟩
  · have wraps := wraps_of_ofRecord found
    exact ⟨wraps, wraps.eq_none_iff⟩

/-! ### An offset that wraps, and a flag without a payload -/

namespace AtLimit

def last : BatchHeader := { baseOffset := Int64.maxValue }

def written : Record :=
  .ofKeyValue 1 0 (some (StoredKey.write ⟨.ofTag (-1), [7]⟩))
    (some (writePayload (some [8, 9]) ++ [255]))

def flagOnly : Record := .ofKeyValue 0 0 (some [0]) (some [2, 1, 0, 0, 0])

end AtLimit

theorem ofRecord_exact_wrapped :
    (∃ entry, ofRecord AtLimit.last AtLimit.written = .ok entry ∧
      entry.key = ⟨.unknown (-1), [7]⟩ ∧ entry.payload = some [8, 9] ∧
      entry.offset = Int64.minValue) ∧
    ∃ e, ofRecord AtLimit.last AtLimit.flagOnly = .error e := by
  obtain ⟨readBack, any⟩ := ofRecord_exact
  constructor
  · obtain ⟨entry, found, key, payload, offset⟩ := readBack (-1) [7] (some [8, 9]) [255]
      AtLimit.last AtLimit.written (by decide) rfl rfl
    exact ⟨entry, found, key, payload, Int64.toInt_inj.mp (offset.trans (by decide))⟩
  · refine (any AtLimit.last AtLimit.flagOnly).1.mpr (.inr (.inr ⟨_, rfl, .inr ?_⟩))
    exact ⟨2, [1, 0, 0, 0], rfl, by decide,
      Reader.fails_sizedBytes_iff.mp ⟨.truncated 1 0, [], by decide⟩⟩

end Entry
end PartitionLog.KeyValue
