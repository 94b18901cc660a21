import PartitionLog.KeyValue.KeySpace
import PartitionLog.SortedMap

/-!
# Stored keys as keys of a map

Two stored keys compare as equal only if they are the same, and the order is transitive, so the laws
of a sorted map apply to the entries of a store.
-/
namespace PartitionLog.KeyValue

theorem KeySpace.eq_of_rank_eq_of_tag_eq {a b : KeySpace} (rank : a.rank = b.rank)
    (tag : a.tag = b.tag) : a = b := by
  cases a <;> cases b <;> simp_all [KeySpace.rank, KeySpace.tag]

instance : Std.LawfulEqOrd StoredKey where
  compare_self := by
    intro a
    change (compare _ _).then ((compare _ _).then (compare _ _)) = .eq
    simp
  eq_of_compare := by
    intro a b same
    change (compare _ _).then ((compare _ _).then (compare _ _)) = .eq at same
    obtain ⟨rank, same⟩ := Ordering.then_eq_eq.mp same
    obtain ⟨tag, buffer⟩ := Ordering.then_eq_eq.mp same
    have space := KeySpace.eq_of_rank_eq_of_tag_eq (Std.LawfulEqOrd.eq_of_compare rank)
      (Std.LawfulEqOrd.eq_of_compare tag)
    cases a
    cases b
    simp_all

instance : Std.TransOrd StoredKey :=
  inferInstanceAs <| Std.TransCmp <| compareLex (compareOn fun key : StoredKey => key.space.rank) <|
    compareLex (compareOn fun key => key.space.tag) (compareOn fun key => key.buffer)

end PartitionLog.KeyValue
