import PartitionLog.KeyValue.Value
import PartitionLog.Proofs.Raft.Config
import PartitionLog.Proofs.Raft.Json
import PartitionLog.Proofs.Width

/-!
# What a value holds

`Laid` says which bytes hold a value, for each kind of key, and `Unlaid` in which ways bytes can
fail to: they are short of a field, or the hook fails behind the offset of some pair. Bytes are in
one case or the other, so that no value is made of a part of its fields (`decode_eq_iff`).
-/
namespace PartitionLog

namespace KeyValue.Value

inductive HoldsOffset : KeyData → Prop
  | configLatestKnownOffset (group : Int64) :
      HoldsOffset (.consensus .configLatestKnownOffset group)
  | lastAppliedOffset (group : Int64) : HoldsOffset (.consensus .lastAppliedOffset group)
  | configNextCfgIdx (group : Int64) : HoldsOffset (.consensus .configNextCfgIdx group)
  | startOffset (ntp : Ntp) : HoldsOffset (.storage .startOffset ntp)

/-- Offsets and what the hook reads behind each, one pair after the other. -/
inductive Pairs (config : Reader Json) : Bytes → List (Int64 × Json) → Bytes → Prop
  | nil (rest : Bytes) : Pairs config rest [] rest
  | cons (offset : Int64) {input behind rest : Bytes} {value : Json} {pairs : List (Int64 × Json)}
      (read : config.run input = (.ok value, behind)) (others : Pairs config behind pairs rest) :
      Pairs config (Wire.i64 offset ++ input) ((offset, value) :: pairs) rest

/-- The bytes hold the value, in front of whatever follows it. -/
inductive Laid (config : Reader Json) : KeyData → Bytes → Value → Prop
  | votedFor (group : Int64) (node : Vnode) (term : Int64) (rest : Bytes) :
      Laid config (.consensus .votedFor group) (node.write ++ Wire.i64 term ++ rest)
        (.votedFor node term)
  | configMap (group : Int64) (count : UInt64) {input rest : Bytes} {pairs : List (Int64 × Json)}
      (read : Pairs config input pairs rest) (counted : pairs.length = count.toNat) :
      Laid config (.consensus .configMap group) (Wire.u64 count ++ input)
        (.configMap (.ofList pairs))
  | offset {data : KeyData} (holds : HoldsOffset data) (n : Int64) (rest : Bytes) :
      Laid config data (Wire.i64 n ++ rest) (.offset n)
  | empty (group : Int64) (bytes : Bytes) :
      Laid config (.consensus .uniqueLocalId group) bytes .empty

/-- A field of the value cannot be read, or the key says nothing of its value. -/
inductive Unlaid (config : Reader Json) : KeyData → Bytes → Prop
  | votedFor (group : Int64) {bytes : Bytes} (short : bytes.length < 20) :
      Unlaid config (.consensus .votedFor group) bytes
  | count (group : Int64) {bytes : Bytes} (short : bytes.length < 8) :
      Unlaid config (.consensus .configMap group) bytes
  | pairOffset (group : Int64) (count : UInt64) {input rest : Bytes} {pairs : List (Int64 × Json)}
      (read : Pairs config input pairs rest) (more : pairs.length < count.toNat)
      (short : rest.length < 8) :
      Unlaid config (.consensus .configMap group) (Wire.u64 count ++ input)
  | pairConfig (group : Int64) (count : UInt64) {input behind : Bytes} (offset : Int64)
      {pairs : List (Int64 × Json)} (read : Pairs config input pairs (Wire.i64 offset ++ behind))
      (more : pairs.length < count.toNat) (fails : config.Fails behind) :
      Unlaid config (.consensus .configMap group) (Wire.u64 count ++ input)
  | offset {data : KeyData} (holds : HoldsOffset data) {bytes : Bytes} (short : bytes.length < 8) :
      Unlaid config data bytes
  | unknownConsensus (tag : Int8) (group : Int64) (bytes : Bytes) :
      Unlaid config (.consensus (.unknown tag) group) bytes
  | unknownStorage (tag : Int8) (ntp : Ntp) (bytes : Bytes) :
      Unlaid config (.storage (.unknown tag) ntp) bytes
  | rawKey (key bytes : Bytes) : Unlaid config (.raw key) bytes

variable {config : Reader Json} {data : KeyData} {input rest bytes : Bytes} {value : Value}
  {pairs : List (Int64 × Json)} {count : Nat}

/-! ## Pairs -/

theorem run_readConfigEntry_iff {pair : Int64 × Json} :
    (readConfigEntry config).run input = (.ok pair, rest) ↔
      ∃ behind, input = Wire.i64 pair.1 ++ behind ∧ config.run behind = (.ok pair.2, rest) := by
  simp only [readConfigEntry, Reader.run_bind_eq_ok_iff, Reader.run_pure, Prod.mk.injEq,
    Except.ok.injEq]
  constructor
  · rintro ⟨offset, behind, taken, value, _, read, rfl, rfl⟩
    exact ⟨behind, (Reader.Canonical.i64 _ _ _ taken).1, read⟩
  · rintro ⟨behind, rfl, read⟩
    exact ⟨pair.1, behind, Reader.Decodes.i64 _ _, pair.2, rest, read, rfl, rfl⟩

theorem fails_readConfigEntry_iff :
    (readConfigEntry config).Fails input ↔
      input.length < 8 ∨
        ∃ offset behind, input = Wire.i64 offset ++ behind ∧ config.Fails behind := by
  simp only [readConfigEntry, Reader.fails_bind_iff, Reader.HasWidth.i64.fails_iff,
    Reader.not_fails_pure, and_false, exists_false, or_false]
  refine or_congr_right (exists_congr fun offset => exists_congr fun behind =>
    and_congr_left fun _ => ?_)
  constructor
  · intro taken
    exact (Reader.Canonical.i64 _ _ _ taken).1
  · rintro rfl
    exact Reader.Decodes.i64 _ _

theorem run_pairs_iff :
    (Reader.replicate (readConfigEntry config) count).run input = (.ok pairs, rest) ↔
      Pairs config input pairs rest ∧ pairs.length = count := by
  induction count generalizing input pairs rest with
  | zero =>
    constructor
    · intro found
      cases found
      exact ⟨.nil _, rfl⟩
    · rintro ⟨read, none⟩
      cases read with
      | nil => rfl
      | cons => cases none
  | succ count ih =>
    rw [Reader.replicate]
    simp only [Reader.run_bind_eq_ok_iff, ih, Reader.run_pure, Prod.mk.injEq, Except.ok.injEq,
      run_readConfigEntry_iff]
    constructor
    · rintro ⟨pair, _, ⟨behind, rfl, first⟩, others, _, ⟨read, counted⟩, rfl, rfl⟩
      exact ⟨.cons pair.1 first read, congrArg (· + 1) counted⟩
    · rintro ⟨read, counted⟩
      cases read with
      | nil => cases counted
      | cons offset first others =>
        exact ⟨_, _, ⟨_, rfl, first⟩, _, _, ⟨others, Nat.succ.inj counted⟩, rfl, rfl⟩

theorem fails_pairs_iff :
    (Reader.replicate (readConfigEntry config) count).Fails input ↔
      ∃ pairs rest, Pairs config input pairs rest ∧ pairs.length < count ∧
        (readConfigEntry config).Fails rest := by
  induction count generalizing input with
  | zero => simp [Reader.replicate, Reader.not_fails_pure]
  | succ count ih =>
    rw [Reader.replicate]
    simp only [Reader.fails_bind_iff, ih, Reader.not_fails_pure, and_false, exists_false, or_false]
    -- The pairs in front of the failure are none, or the first and those of the induction.
    constructor
    · rintro (failed | ⟨pair, behind, first, pairs, rest, read, more, failed⟩)
      · exact ⟨[], input, .nil input, Nat.succ_pos count, failed⟩
      · obtain ⟨_, rfl, hooked⟩ := run_readConfigEntry_iff.mp first
        exact ⟨_, rest, .cons pair.1 hooked read, Nat.succ_lt_succ more, failed⟩
    · rintro ⟨pairs, rest, read, more, failed⟩
      cases read with
      | nil => exact .inl failed
      | cons offset first others =>
        refine .inr ⟨(offset, _), _, run_readConfigEntry_iff.mpr ⟨_, rfl, first⟩, _, rest, others,
          Nat.lt_of_succ_lt_succ more, failed⟩

theorem fails_readConfigMap {count : UInt64} (read : Pairs config input pairs rest)
    (more : pairs.length < count.toNat) (failed : (readConfigEntry config).Fails rest) :
    (readConfigMap config).Fails (Wire.u64 count ++ input) := by
  refine Reader.fails_bind_iff.mpr (.inr ⟨count, input, Reader.Decodes.u64 count input, ?_⟩)
  exact Reader.fails_bind_iff.mpr (.inl (fails_pairs_iff.mpr ⟨pairs, rest, read, more, failed⟩))

/-! ## Values -/

theorem hasWidth_readVotedFor : readVotedFor.HasWidth 20 :=
  Vnode.hasWidth_read.bind fun _ => Reader.HasWidth.i64.bind fun _ => .pure _

theorem hasWidth_readOffset : readOffset.HasWidth 8 := Reader.HasWidth.i64.map _

theorem run_readVotedFor {input : Bytes} (found : readVotedFor.run input = (.ok value, rest)) :
    ∃ node term,
      input = Vnode.write node ++ Wire.i64 term ++ rest ∧ value = .votedFor node term := by
  obtain ⟨node, behind, first, found⟩ := Reader.run_bind_eq_ok_iff.mp found
  obtain ⟨term, behind, second, found⟩ := Reader.run_bind_eq_ok_iff.mp found
  cases found
  obtain ⟨rfl, -⟩ := Vnode.canonical_read _ _ _ first
  obtain ⟨rfl, -⟩ := Reader.Canonical.i64 _ _ _ second
  exact ⟨node, term, (List.append_assoc ..).symm, rfl⟩

theorem Laid.run (laid : Laid config data bytes value) :
    ∃ reader rest, reader? config data = some reader ∧ reader.run bytes = (.ok value, rest) := by
  cases laid with
  | votedFor group node term rest =>
    have decodes : readVotedFor.Decodes (node.write ++ Wire.i64 term) (.votedFor node term) :=
      node.decodes_write.bind ((Reader.Decodes.i64 term).bind_pure _)
    exact ⟨_, rest, rfl, decodes rest⟩
  | @configMap group count input rest pairs read counted =>
    have entries := run_pairs_iff.mpr ⟨read, counted⟩
    have found : (readConfigMap config).run (Wire.u64 count ++ input) =
        (.ok (.configMap (.ofList pairs)), rest) := by
      rw [readConfigMap, Reader.run_bind_ok (Reader.Decodes.u64 count _),
        Reader.run_bind_ok entries, Reader.run_pure]
    exact ⟨_, rest, rfl, found⟩
  | offset holds n rest =>
    have decodes : readOffset.Decodes (Wire.i64 n) (.offset n) := (Reader.Decodes.i64 n).map _
    cases holds <;> exact ⟨_, rest, rfl, decodes rest⟩
  | empty group bytes => exact ⟨_, bytes, rfl, rfl⟩

theorem Unlaid.fails (unlaid : Unlaid config data bytes) :
    ∀ reader, reader? config data = some reader → reader.Fails bytes := by
  intro reader found
  cases unlaid with
  | votedFor group short =>
    cases found
    exact hasWidth_readVotedFor.fails_iff.mpr short
  | count group short =>
    cases found
    exact Reader.fails_bind_iff.mpr (.inl (Reader.HasWidth.u64.fails_iff.mpr short))
  | pairOffset group count read more short =>
    cases found
    exact fails_readConfigMap read more (fails_readConfigEntry_iff.mpr (.inl short))
  | pairConfig group count offset read more fails =>
    cases found
    have failed := fails_readConfigEntry_iff.mpr (.inr ⟨offset, _, rfl, fails⟩)
    exact fails_readConfigMap read more failed
  | offset holds short =>
    cases holds <;> cases found <;> exact hasWidth_readOffset.fails_iff.mpr short
  | unknownConsensus tag group bytes => cases found
  | unknownStorage tag ntp bytes => cases found
  | rawKey key bytes => cases found

/-! ### Nothing in between -/

theorem laid_or_unlaid_offset (config : Reader Json) (holds : HoldsOffset data) (bytes : Bytes) :
    (∃ value, Laid config data bytes value) ∨ Unlaid config data bytes := by
  obtain ⟨n, rest, found⟩ | failed := Reader.i64.ok_or_fails bytes
  · obtain ⟨rfl, -⟩ := Reader.Canonical.i64 _ _ _ found
    exact .inl ⟨_, .offset holds n rest⟩
  · exact .inr (.offset holds (Reader.HasWidth.i64.fails_iff.mp failed))

theorem laid_or_unlaid_votedFor (config : Reader Json) (group : Int64) (bytes : Bytes) :
    (∃ value, Laid config (.consensus .votedFor group) bytes value) ∨
      Unlaid config (.consensus .votedFor group) bytes := by
  obtain ⟨value, rest, found⟩ | failed := readVotedFor.ok_or_fails bytes
  · obtain ⟨node, term, rfl, -⟩ := run_readVotedFor found
    exact .inl ⟨_, .votedFor group node term rest⟩
  · exact .inr (.votedFor group (hasWidth_readVotedFor.fails_iff.mp failed))

theorem laid_or_unlaid_configMap (config : Reader Json) (group : Int64) (bytes : Bytes) :
    (∃ value, Laid config (.consensus .configMap group) bytes value) ∨
      Unlaid config (.consensus .configMap group) bytes := by
  obtain ⟨count, input, found⟩ | failed := Reader.u64.ok_or_fails bytes
  · obtain ⟨rfl, -⟩ := Reader.Canonical.u64 _ _ _ found
    obtain ⟨pairs, rest, found⟩ | failed :=
      (Reader.replicate (readConfigEntry config) count.toNat).ok_or_fails input
    · obtain ⟨read, counted⟩ := run_pairs_iff.mp found
      exact .inl ⟨_, .configMap group count read counted⟩
    · obtain ⟨pairs, rest, read, more, failed⟩ := fails_pairs_iff.mp failed
      obtain short | ⟨offset, behind, rfl, fails⟩ := fails_readConfigEntry_iff.mp failed
      · exact .inr (.pairOffset group count read more short)
      · exact .inr (.pairConfig group count offset read more fails)
  · exact .inr (.count group (Reader.HasWidth.u64.fails_iff.mp failed))

theorem laid_or_unlaid (config : Reader Json) (data : KeyData) (bytes : Bytes) :
    (∃ value, Laid config data bytes value) ∨ Unlaid config data bytes := by
  cases data with
  | consensus kind group =>
    cases kind with
    | votedFor => exact laid_or_unlaid_votedFor config group bytes
    | configMap => exact laid_or_unlaid_configMap config group bytes
    | configLatestKnownOffset =>
      exact laid_or_unlaid_offset config (.configLatestKnownOffset group) bytes
    | lastAppliedOffset =>
      exact laid_or_unlaid_offset config (.lastAppliedOffset group) bytes
    | uniqueLocalId => exact .inl ⟨_, .empty group bytes⟩
    | configNextCfgIdx =>
      exact laid_or_unlaid_offset config (.configNextCfgIdx group) bytes
    | unknown tag => exact .inr (.unknownConsensus tag group bytes)
  | storage kind ntp =>
    cases kind with
    | startOffset => exact laid_or_unlaid_offset config (.startOffset ntp) bytes
    | unknown tag => exact .inr (.unknownStorage tag ntp bytes)
  | raw key => exact .inr (.rawKey key bytes)

theorem Laid.decode_eq {key : Key} (laid : Laid config key.data bytes value) :
    decode config key bytes = value := by
  obtain ⟨reader, rest, found, run⟩ := laid.run
  simp only [decode, found, run]

theorem Unlaid.decode_eq {key : Key} (unlaid : Unlaid config key.data bytes) :
    decode config key bytes = .raw bytes := by
  unfold decode
  cases found : reader? config key.data with
  | none => rfl
  | some reader =>
    obtain ⟨e, rest, run⟩ := unlaid.fails reader found
    simp only [run]

theorem decode_eq_iff {key : Key} :
    decode config key bytes = value ↔
      Laid config key.data bytes value ∨ Unlaid config key.data bytes ∧ value = .raw bytes := by
  constructor
  · rintro rfl
    obtain ⟨value, laid⟩ | unlaid := laid_or_unlaid config key.data bytes
    · exact .inl (laid.decode_eq.symm ▸ laid)
    · exact .inr ⟨unlaid, unlaid.decode_eq⟩
  · rintro (laid | ⟨unlaid, rfl⟩)
    · exact laid.decode_eq
    · exact unlaid.decode_eq

/-! ## The built-in hook -/

def writePair (pair : Int64 × RaftConfig) : Bytes := Wire.i64 pair.1 ++ pair.2.write

theorem pairs_written {pairs : List (Int64 × RaftConfig)}
    (encodable : ∀ pair ∈ pairs, pair.2.Representable) (trailing : Bytes) :
    Pairs RaftConfig.readJson (pairs.flatMap writePair ++ trailing)
      (pairs.map fun pair => (pair.1, pair.2.toJson.sorted)) trailing := by
  induction pairs with
  | nil => exact .nil trailing
  | cons pair pairs ih =>
    have decodes : RaftConfig.readJson.Decodes pair.2.write pair.2.toJson.sorted :=
      (encodable pair List.mem_cons_self).decodes_write.map _
    rw [List.flatMap_cons, writePair, List.append_assoc, List.append_assoc]
    exact .cons pair.1 (decodes _) (ih fun later member => encodable later (.tail pair member))

/-- A value is what its bytes hold, or all of its bytes where a field of it cannot be read: there is
no third. The configurations of a group, as they are written, are found for each offset in the last
pair with it, and the JSON that is kept says which configuration it was. -/
theorem decode_allOrNothing (config : Reader Json) (key : Key) (bytes : Bytes) :
    (∀ value, decode config key bytes = value ↔
        Laid config key.data bytes value ∨
          Unlaid config key.data bytes ∧ value = .raw bytes) ∧
      (∀ (group : Int64) (pairs : List (Int64 × RaftConfig)) (trailing : Bytes),
        key.data = .consensus .configMap group →
        (∀ pair ∈ pairs, pair.2.Representable) → pairs.length < 2 ^ 64 →
        ∃ configs, decode RaftConfig.readJson key
            (Wire.u64 (.ofNat pairs.length) ++ (pairs.flatMap writePair ++ trailing)) =
              .configMap configs ∧
          configs.Sorted ∧
          ∀ offset, configs.get? offset =
            (pairs.reverse.lookup offset).map fun c => c.toJson.sorted) ∧
      Function.Injective fun c : RaftConfig => c.toJson.sorted := by
  refine ⟨fun value => decode_eq_iff, ?_, RaftConfig.tells_toJson⟩
  intro group pairs trailing configMap encodable few
  have counted : (pairs.map fun pair => (pair.1, pair.2.toJson.sorted)).length =
      (UInt64.ofNat pairs.length).toNat := by
    rw [List.length_map, UInt64.toNat_ofNat_of_lt' few]
  have laid := Laid.configMap group _ (pairs_written encodable trailing) counted
  rw [← configMap] at laid
  refine ⟨_, laid.decode_eq, SortedMap.sorted_ofList _, fun offset => ?_⟩
  rw [SortedMap.get?_ofList, ← List.map_reverse]
  exact lookup_map (fun c : RaftConfig => c.toJson.sorted) offset pairs.reverse

/-! ### A configuration that is replaced, and one that the hook refuses -/

namespace Replaced

def key : Key := .consensus .configMap 1

def first : RaftConfig where
  version := 3
  brokers := []
  current := { voters := [⟨1, 7⟩], learners := [] }
  previous := none
  revision := 9
  update := none

/-- Its fields by name. -/
def firstJson : Json := .obj [
  ("brokers", .arr []),
  ("current_config", .obj [
    ("learners", .arr []),
    ("voters", .arr [.obj [("id", .num 1), ("revision", .num 7)]])]),
  ("prev_config", .null),
  ("revision", .num 9),
  ("version", .num 3)]

def replacing : List (Int64 × RaftConfig) := [(3, first), (-1, first), (3, RaftConfig.moving)]

theorem representable_first : first.Representable where
  brokers := by decide
  eachBroker := List.forall_mem_nil _
  current := ⟨by decide, by decide⟩
  previous := nofun
  update := nofun
  updatePlaced := nofun

theorem encodable : ∀ pair ∈ replacing, pair.2.Representable := by
  simp [replacing, representable_first, RaftConfig.representable_moving]

end Replaced

theorem decode_allOrNothing_replaced :
    (∃ configs, decode RaftConfig.readJson Replaced.key
        (Wire.u64 3 ++ (Replaced.replacing.flatMap writePair ++ [7])) = .configMap configs ∧
      configs.get? 3 = some RaftConfig.moving.toJson.sorted ∧
      configs.get? (-1) = some Replaced.firstJson ∧ configs.get? 8 = none) ∧
    RaftConfig.moving.toJson.sorted ≠ Replaced.firstJson ∧
    decode (Reader.fail .invalidUtf8) Replaced.key (Wire.u64 1 ++ (Wire.i64 3 ++ [7])) =
      .raw (Wire.u64 1 ++ (Wire.i64 3 ++ [7])) := by
  obtain ⟨-, builtIn, told⟩ := decode_allOrNothing RaftConfig.readJson Replaced.key []
  have written : Replaced.first.toJson.sorted = Replaced.firstJson := rfl
  refine ⟨?_, fun same => ?_, ?_⟩
  · obtain ⟨configs, decoded, -, lookup⟩ :=
      builtIn 1 Replaced.replacing [7] rfl Replaced.encodable (by decide)
    exact ⟨configs, decoded, lookup 3, (lookup (-1)).trans (congrArg some written), lookup 8⟩
  · exact absurd (told (same.trans written.symm)) (by decide)
  · obtain ⟨whole, -⟩ := decode_allOrNothing (Reader.fail .invalidUtf8) Replaced.key
      (Wire.u64 1 ++ (Wire.i64 3 ++ [7]))
    refine (whole _).mpr (.inr ⟨?_, rfl⟩)
    exact .pairConfig 1 1 3 (.nil _) (by decide) ⟨.invalidUtf8, _, rfl⟩

end KeyValue.Value
end PartitionLog
