import PartitionLog.Proofs.KeyValue.Surplus

/-!
# The order of a listing

The entries of a store are in the order of their spaces, and the spaces are in the order of their
tags, with a sign, behind the four that are known. The byte of a tag has no sign. So two keys are in
the order of their bytes except for one kind of pair: a negative tag and one of `4` or more
(`Precedes.write_lt_iff`).
-/
namespace PartitionLog

theorem Bytes.compare_eq_lt_iff {a b : Bytes} : compare a b = .lt ↔ a < b := by
  induction a generalizing b with
  | nil => cases b <;> simp [List.compare_nil_cons]
  | cons x a ih =>
    cases b with
    | nil => simp
    | cons y b =>
      rw [List.compare_cons_cons, Ordering.then_eq_lt, Std.compare_eq_lt,
        Std.LawfulEqOrd.compare_eq_iff_eq, ih, List.cons_lt_cons_iff]

namespace KeyValue

/-! ## The order of two keys -/

theorem toInt_eq_toUInt8 (tag : Int8) :
    tag.toInt = if tag.toUInt8.toNat < 128 then (tag.toUInt8.toNat : Int)
      else tag.toUInt8.toNat - 256 := by
  have signed : tag.toInt = _ := BitVec.toInt_eq_toNat_cond tag.toBitVec
  have unsigned : tag.toBitVec.toNat = tag.toUInt8.toNat := rfl
  rw [signed, unsigned]
  split <;> split <;> omega

theorem KeySpace.rank_ofTag (tag : Int8) : (ofTag tag).rank = min tag.toUInt8.toNat 4 := by
  have value := toInt_eq_toUInt8 tag
  have toInt (n : Int8) : tag = n ↔ tag.toInt = n.toInt := Int8.toInt_inj.symm
  have zero : (0 : Int8).toInt = 0 := rfl
  have one : (1 : Int8).toInt = 1 := rfl
  have two : (2 : Int8).toInt = 2 := rfl
  have three : (3 : Int8).toInt = 3 := rfl
  have small := tag.toUInt8.toNat_lt
  simp only [ofTag, toInt, zero, one, two, three]
  split_ifs <;> simp only [rank] <;> split at value <;> omega

namespace StoredKey

def tagByte (key : StoredKey) : UInt8 := key.space.tag.toUInt8

/-- The keys of the known spaces are first, then those of negative tags, then the others. -/
def turn (key : StoredKey) : Nat :=
  if key.tagByte.toNat < 4 then 0 else if 128 ≤ key.tagByte.toNat then 1 else 2

theorem turn_cases (key : StoredKey) :
    key.turn = 0 ∧ key.tagByte.toNat < 4 ∨
      key.turn = 1 ∧ 128 ≤ key.tagByte.toNat ∧ key.tagByte.toNat < 256 ∨
      key.turn = 2 ∧ 4 ≤ key.tagByte.toNat ∧ key.tagByte.toNat < 128 := by
  have small := key.tagByte.toNat_lt
  unfold turn
  split_ifs <;> omega

def Precedes (a b : StoredKey) : Prop := a.turn < b.turn ∨ a.turn = b.turn ∧ a.write < b.write

/-- The space is the one that its byte stands for. -/
def OfTag (key : StoredKey) : Prop := key.space = .ofTag key.space.tag

theorem write_eq (key : StoredKey) : key.write = key.tagByte :: key.buffer := by
  rw [write, Wire.i8_eq, List.singleton_append, tagByte]

theorem write_lt_write_iff {a b : StoredKey} :
    a.write < b.write ↔ a.tagByte < b.tagByte ∨ a.tagByte = b.tagByte ∧ a.buffer < b.buffer := by
  rw [write_eq, write_eq, List.cons_lt_cons_iff]

theorem compare_eq_lt_iff {a b : StoredKey} :
    compare a b = .lt ↔
      a.space.rank < b.space.rank ∨
        a.space.rank = b.space.rank ∧
          (a.space.tag < b.space.tag ∨ a.space.tag = b.space.tag ∧ a.buffer < b.buffer) := by
  change (compare _ _).then ((compare _ _).then (compare _ _)) = .lt ↔ _
  simp only [Ordering.then_eq_lt, Std.compare_eq_lt, Bytes.compare_eq_lt_iff,
    Std.LawfulEqOrd.compare_eq_iff_eq]

namespace OfTag

theorem of_read {bytes : Bytes} {key : StoredKey} (found : (read.run bytes).1 = .ok key) :
    key.OfTag := by
  obtain ⟨tag, behind, -, buffered⟩ := Reader.run_bind_eq_ok_iff.mp (Prod.ext found rfl)
  obtain ⟨buffer, behind, -, made⟩ := Reader.run_bind_eq_ok_iff.mp buffered
  cases made
  rw [OfTag, KeySpace.tag_ofTag]

theorem rank_eq {key : StoredKey} (ofTag : key.OfTag) :
    key.space.rank = min key.tagByte.toNat 4 := by
  rw [ofTag, KeySpace.rank_ofTag]
  rfl

/-- Keys come in their turns, and by their bytes within a turn. -/
theorem compare_eq_lt_iff {a b : StoredKey} (first : a.OfTag) (second : b.OfTag) :
    compare a b = .lt ↔ a.Precedes b := by
  have value (key : StoredKey) : key.space.tag.toInt = _ := toInt_eq_toUInt8 key.space.tag
  have turn := a.turn_cases
  have turn' := b.turn_cases
  rw [StoredKey.compare_eq_lt_iff, first.rank_eq, second.rank_eq, Precedes,
    write_lt_write_iff]
  simp only [UInt8.lt_iff_toNat_lt, ← UInt8.toNat_inj, Int8.lt_iff_toInt_lt, ← Int8.toInt_inj,
    value, ← tagByte.eq_1]
  -- All else is about numbers.
  by_cases later : a.buffer < b.buffer <;>
    simp only [later, and_true, and_false, or_false] <;> omega

end OfTag

namespace Precedes

variable {a b : StoredKey}

/-- Bytes are out of order where a negative tag is in front of one that is not. -/
theorem write_lt_iff (precedes : a.Precedes b) :
    a.write < b.write ↔ ¬ (a.turn = 1 ∧ b.turn = 2) := by
  have first := a.turn_cases
  have second := b.turn_cases
  rw [Precedes, write_lt_write_iff] at *
  rw [UInt8.lt_iff_toNat_lt, ← UInt8.toNat_inj] at *
  by_cases later : a.buffer < b.buffer <;>
    simp only [later, and_true, and_false, or_false] at * <;> omega

theorem write_ne (precedes : a.Precedes b) : a.write ≠ b.write := by
  intro same
  cases precedes with
  | inl earlier =>
    have tagByte : a.tagByte = b.tagByte := by
      rw [write_eq, write_eq] at same
      exact List.head_eq_of_cons_eq same
    rw [turn, turn, tagByte] at earlier
    exact Nat.lt_irrefl _ earlier
  | inr later =>
    rw [same] at later
    exact List.lt_irrefl _ later.2

end Precedes

theorem pairwise_write_lt_iff {keys : List StoredKey} (inTurns : keys.Pairwise Precedes) :
    keys.Pairwise (fun a b => a.write < b.write) ↔
      ¬ ∃ a ∈ keys, ∃ b ∈ keys, a.turn = 1 ∧ b.turn = 2 := by
  constructor
  · rintro ordered ⟨a, first, b, second, mixed⟩
    have apart : keys.Pairwise fun a b =>
        ¬ (a.turn = 1 ∧ b.turn = 2) ∧ ¬ (b.turn = 1 ∧ a.turn = 2) := by
      refine (inTurns.and ordered).imp fun ⟨precedes, below⟩ => ⟨precedes.write_lt_iff.mp below, ?_⟩
      rw [Precedes] at precedes
      omega
    have symmetric : Std.Symm fun a b : StoredKey =>
        ¬ (a.turn = 1 ∧ b.turn = 2) ∧ ¬ (b.turn = 1 ∧ a.turn = 2) := ⟨fun _ _ => And.symm⟩
    exact (apart.forall_of_forall (fun _ _ => by omega) first second).1 mixed
  · intro apart
    refine inTurns.imp_of_mem fun {a b} first second precedes => ?_
    exact precedes.write_lt_iff.mpr fun mixed => apart ⟨a, first, b, second, mixed⟩

end StoredKey

/-! ## Listings -/

namespace State

/-- As it is made: empty, or decoded from a store. -/
def Reachable (state : State) : Prop :=
  state = {} ∨ ∃ (store : Store) (tree : FileTree), store.decode tree = .ok state

theorem Reachable.sorted {state : State} (reachable : state.Reachable) :
    SortedMap.Sorted state.entries := by
  obtain rfl | ⟨store, tree, decoded⟩ := reachable
  · exact .nil
  · obtain ⟨-, log, -, rfl⟩ := Store.decode_eq_ok_iff.mp decoded
    exact (Coherent.rebuild store log).sorted

theorem Reachable.ofTag {state : State} (reachable : state.Reachable) {key : StoredKey}
    (live : key ∈ state.entries.map Prod.fst) : key.OfTag := by
  obtain rfl | ⟨store, tree, decoded⟩ := reachable
  · cases live
  · obtain ⟨-, log, -, rfl⟩ := Store.decode_eq_ok_iff.mp decoded
    obtain ⟨r, -, payload, writes⟩ := Store.mem_keys_rebuild_iff.mp live
    exact .of_read writes.1

theorem Reachable.inTurns {state : State} (reachable : state.Reachable) :
    (state.entries.map Prod.fst).Pairwise StoredKey.Precedes := by
  have sorted : (state.entries.map Prod.fst).Pairwise fun a b => compare a b = .lt :=
    List.pairwise_map.mpr reachable.sorted
  exact sorted.imp_of_mem fun first second =>
    (StoredKey.OfTag.compare_eq_lt_iff (reachable.ofTag first) (reachable.ofTag second)).mp

/-- Each live key is listed once. The keys of the known spaces are listed in the order of their
bytes, behind them those of the negative tags and then all others, each in that order again. So the
listing is in the order of the bytes unless it has keys of both other kinds. -/
theorem items_inTurns {state : State} (reachable : state.Reachable) :
    ∃ keys : List StoredKey,
      keys.map state.get? = state.items.map some ∧
      (∀ key, key ∈ keys ↔ (state.get? key).isSome) ∧
      (keys.map StoredKey.write).Nodup ∧
      keys.Pairwise StoredKey.Precedes ∧
      (keys.Pairwise (fun a b => a.write < b.write) ↔
        ¬ ∃ a ∈ keys, ∃ b ∈ keys, a.turn = 1 ∧ b.turn = 2) := by
  refine ⟨state.entries.map Prod.fst, ?_, fun key => SortedMap.isSome_get?_iff.symm,
    List.pairwise_map.mpr (reachable.inTurns.imp StoredKey.Precedes.write_ne), reachable.inTurns,
    StoredKey.pairwise_write_lt_iff reachable.inTurns⟩
  rw [items, List.map_map, List.map_map]
  exact List.map_congr_left fun entry => SortedMap.get?_of_mem reachable.sorted

/-! ### A negative tag and one above the known -/

namespace Unordered

def negative : StoredKey := ⟨.unknown (-1), [2]⟩

def positive : StoredKey := ⟨.unknown 4, [1]⟩

def store : Store := { partition := OneSegment.partition }

def tree : FileTree := OneSegment.tree [batchOfWrites 0 0
  [⟨positive.write, some [5]⟩, ⟨negative.write, some [6]⟩]]

set_option maxRecDepth 20000 in
theorem decode_tree :
    (store.decode tree).toOption.map (fun state =>
      (state.entries.map Prod.fst, state.items.map fun item => item.key.write)) =
      some ([negative, positive], [[255, 2], [4, 1]]) := by
  decide +kernel

end Unordered

theorem items_inTurns_mixed :
    ∃ state, Unordered.store.decode Unordered.tree = .ok state ∧ state.Reachable ∧
      ∃ keys : List StoredKey, keys.map state.get? = state.items.map some ∧
        keys.Pairwise StoredKey.Precedes ∧
        Unordered.negative ∈ keys ∧ Unordered.positive ∈ keys := by
  obtain ⟨state, decoded, facts⟩ := exists_ok_of_map_eq_some Unordered.decode_tree
  have reachable : state.Reachable := .inr ⟨_, _, decoded⟩
  obtain ⟨keys, listed, live, -, inTurns, -⟩ := items_inTurns reachable
  have held (key : StoredKey) (member : key ∈ [Unordered.negative, Unordered.positive]) :
      key ∈ keys := by
    rw [live]
    refine SortedMap.isSome_get?_iff.mpr ?_
    rwa [(Prod.mk.inj facts).1]
  exact ⟨state, decoded, reachable, keys, listed, inTurns, held _ (by simp), held _ (by simp)⟩

/-- The key with the greater bytes is listed first. -/
theorem items_not_inByteOrder :
    ∃ state, Unordered.store.decode Unordered.tree = .ok state ∧ state.Reachable ∧
      state.items.map (fun item => item.key.write) = [[255, 2], [4, 1]] ∧
      ¬ (state.entries.map Prod.fst).Pairwise (fun a b => a.write < b.write) := by
  obtain ⟨state, decoded, facts⟩ := exists_ok_of_map_eq_some Unordered.decode_tree
  obtain ⟨keys, listed⟩ := Prod.mk.inj facts
  refine ⟨state, decoded, .inr ⟨_, _, decoded⟩, listed, ?_⟩
  rw [keys]
  decide

end State
end KeyValue
end PartitionLog
