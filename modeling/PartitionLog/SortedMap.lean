/-!
# Maps as sorted lists

A map lists its entries in strictly increasing order of their keys. `insert` keeps that order
(`sorted_insert`) and replaces the value of a key that is there; `get?_insert_self` and
`get?_insert_of_ne` say what it does to every look-up.
-/
namespace PartitionLog

abbrev SortedMap (κ α : Type) := List (κ × α)

namespace SortedMap

variable {κ α : Type} [Ord κ]

def insert (key : κ) (value : α) : SortedMap κ α → SortedMap κ α
  | [] => [(key, value)]
  | (key', value') :: entries =>
    match compare key key' with
    | .lt => (key, value) :: (key', value') :: entries
    | .eq => (key, value) :: entries
    | .gt => (key', value') :: insert key value entries

def get? (key : κ) : SortedMap κ α → Option α
  | [] => none
  | (key', value) :: entries => if compare key key' = .eq then some value else get? key entries

def ofList (entries : List (κ × α)) : SortedMap κ α :=
  entries.foldl (fun map entry => insert entry.1 entry.2 map) []

def Sorted (entries : SortedMap κ α) : Prop :=
  entries.Pairwise fun a b => compare a.1 b.1 = .lt

theorem get?_insert_self [Std.ReflOrd κ] (key : κ) (value : α) (entries : SortedMap κ α) :
    get? key (insert key value entries) = some value := by
  induction entries with
  | nil => simp [insert, get?]
  | cons entry entries ih =>
    unfold insert
    split
    · simp [get?]
    · simp [get?]
    · rename_i h
      simp [get?, h, ih]

theorem get?_insert_of_ne [Std.LawfulEqOrd κ] {key key' : κ} (ne : key' ≠ key) (value : α)
    (entries : SortedMap κ α) : get? key' (insert key value entries) = get? key' entries := by
  induction entries with
  | nil => simp [insert, get?, ne]
  | cons entry entries ih =>
    unfold insert
    split
    · simp [get?, ne]
    · rename_i h
      have same := Std.LawfulEqOrd.eq_of_compare h
      simp [get?, ne, ← same]
    · simp [get?, ih]

theorem mem_insert {key : κ} {value : α} {entries : SortedMap κ α} {entry : κ × α}
    (h : entry ∈ insert key value entries) : entry = (key, value) ∨ entry ∈ entries := by
  induction entries with
  | nil => simpa [insert] using h
  | cons head entries ih =>
    unfold insert at h
    split at h
    · simpa using h
    · rcases List.mem_cons.mp h with rfl | h
      · exact .inl rfl
      · exact .inr (List.mem_cons_of_mem _ h)
    · rcases List.mem_cons.mp h with rfl | h
      · exact .inr List.mem_cons_self
      · exact (ih h).imp_right (List.mem_cons_of_mem _)

theorem sorted_insert [Std.TransOrd κ] [Std.LawfulEqOrd κ] (key : κ) (value : α)
    {entries : SortedMap κ α} (h : Sorted entries) : Sorted (insert key value entries) := by
  induction entries with
  | nil => simp [insert, Sorted]
  | cons head entries ih =>
    obtain ⟨below, rest⟩ := List.pairwise_cons.mp h
    unfold insert
    split
    · rename_i lt
      refine List.pairwise_cons.mpr ⟨fun entry mem => ?_, h⟩
      rcases List.mem_cons.mp mem with rfl | mem
      · exact lt
      · exact Std.TransCmp.lt_trans lt (below entry mem)
    · rename_i eq
      have same := Std.LawfulEqOrd.eq_of_compare eq
      exact List.pairwise_cons.mpr ⟨fun entry mem => same ▸ below entry mem, rest⟩
    · rename_i gt
      refine List.pairwise_cons.mpr ⟨fun entry mem => ?_, ih rest⟩
      rcases mem_insert mem with rfl | mem
      · exact Std.OrientedCmp.lt_of_gt gt
      · exact below entry mem

theorem nodup_keys [Std.ReflOrd κ] {entries : SortedMap κ α} (h : Sorted entries) :
    (entries.map Prod.fst).Nodup := by
  refine List.pairwise_map.mpr (h.imp fun {a b} lt same => ?_)
  rw [same, Std.ReflOrd.compare_self] at lt
  cases lt

theorem isSome_get?_iff [Std.LawfulEqOrd κ] {key : κ} {entries : SortedMap κ α} :
    (get? key entries).isSome ↔ key ∈ entries.map Prod.fst := by
  induction entries with
  | nil => simp [get?]
  | cons entry entries ih =>
    by_cases same : key = entry.1 <;> simp [get?, same, ih]

theorem get?_of_mem [Std.LawfulEqOrd κ] {entries : SortedMap κ α} (sorted : Sorted entries)
    {entry : κ × α} (member : entry ∈ entries) : get? entry.1 entries = some entry.2 := by
  induction entries with
  | nil => cases member
  | cons head entries ih =>
    obtain ⟨below, rest⟩ := List.pairwise_cons.mp sorted
    cases List.mem_cons.mp member with
    | inl first => simp [get?, first]
    | inr later =>
      have other : entry.1 ≠ head.1 := by
        intro same
        have lt := below entry later
        rw [same, Std.ReflOrd.compare_self] at lt
        cases lt
      simp [get?, other, ih rest later]

theorem get?_ofList [Std.LawfulEqOrd κ] [BEq κ] [LawfulBEq κ] (key : κ) (entries : List (κ × α)) :
    get? key (ofList entries) = entries.reverse.lookup key := by
  have run (map : SortedMap κ α) :
      get? key (entries.foldl (fun map entry => insert entry.1 entry.2 map) map) =
        (entries.reverse.lookup key).or (get? key map) := by
    induction entries generalizing map with
    | nil => rfl
    | cons entry entries ih =>
      obtain ⟨key', value⟩ := entry
      rw [List.foldl_cons, ih, List.reverse_cons, List.lookup_append, Option.or_assoc]
      congr 1
      by_cases same : key = key'
      · subst same
        rw [get?_insert_self, List.lookup_cons_self, Option.some_or]
      · rw [get?_insert_of_ne same, List.lookup_cons, beq_false_of_ne same]
        rfl
  rw [ofList, run]
  exact Option.or_none

theorem sorted_ofList [Std.TransOrd κ] [Std.LawfulEqOrd κ] (entries : List (κ × α)) :
    Sorted (ofList entries) :=
  List.foldlRecOn (motive := Sorted) _ _ .nil fun _ sorted entry _ =>
    sorted_insert entry.1 entry.2 sorted

end SortedMap
end PartitionLog
