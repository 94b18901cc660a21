import PartitionLog.Proofs.FileTree.Reordered
import PartitionLog.Proofs.Partition.Visited

/-!
# Directories by their names

Which directories a tree has is told by the names that lead to them. Making a directory, with all
that is missing on the way, adds the new names and no others (`hasDir_addDirs`), and a tree grows
with any directory in it that does (`GrowsTo.put`).
-/
namespace PartitionLog

namespace FileNode

variable {entries inner inner' top found found' : List (RawText × FileNode)} {name : RawText}
  {names names' : List RawText} {node : FileNode}

/-! ## Directories by their names -/

theorem dirAt_append_iff : DirAt top (names ++ names') found ↔
    ∃ inner, DirAt top names inner ∧ DirAt inner names' found := by
  constructor
  · intro lower
    induction names generalizing top with
    | nil => exact ⟨top, .here top, lower⟩
    | cons name names ih =>
      cases lower with
      | down member lower =>
        obtain ⟨inner, upper, lower⟩ := ih lower
        exact ⟨inner, .down member upper, lower⟩
  · rintro ⟨inner, upper, lower⟩
    induction upper with
    | here => exact lower
    | down member _ ih => exact .down member (ih lower)

theorem DirAt.unique (formed : (FileNode.dir top).WellFormed) (lower : DirAt top names found)
    (lower' : DirAt top names found') : found = found' := by
  induction lower with
  | here => cases lower'; rfl
  | down member _ ih =>
    cases lower' with
    | down member' lower' =>
      cases eq_of_mem_of_mem formed.once member member'
      exact ih (formed.child member) lower'

def HasDir (entries : List (RawText × FileNode)) (names : List RawText) : Prop :=
  ∃ found, DirAt entries names found

theorem hasDir_nil (entries : List (RawText × FileNode)) : HasDir entries [] :=
  ⟨entries, .here entries⟩

theorem hasDir_cons_iff : HasDir entries (name :: names) ↔
    ∃ inner, (name, .dir inner) ∈ entries ∧ HasDir inner names := by
  constructor
  · rintro ⟨found, lower⟩
    cases lower with
    | down member lower => exact ⟨_, member, found, lower⟩
  · rintro ⟨inner, member, found, lower⟩
    exact ⟨found, .down member lower⟩

theorem hasDir_concat_iff (formed : (FileNode.dir top).WellFormed) (lower : DirAt top names found) :
    HasDir top (names ++ [name]) ↔ ∃ inner, (name, .dir inner) ∈ found := by
  constructor
  · rintro ⟨inner, below⟩
    obtain ⟨found', lower', last⟩ := dirAt_append_iff.mp below
    cases lower.unique formed lower'
    cases last with
    | down member => exact ⟨_, member⟩
  · rintro ⟨inner, member⟩
    exact ⟨inner, dirAt_append_iff.mpr ⟨found, lower, .down member (.here inner)⟩⟩

/-! ## Putting an entry -/

theorem mem_put_of_ne {entry : RawText × FileNode} (member : entry ∈ entries)
    (other : entry.1 ≠ name) : entry ∈ put name node entries := by
  induction entries with
  | nil => cases member
  | cons first entries ih =>
    unfold put
    split
    · rename_i same
      cases List.mem_cons.mp member with
      | inl here => exact absurd (here ▸ same.symm) other
      | inr later => exact List.mem_cons_of_mem _ later
    · cases List.mem_cons.mp member with
      | inl here => exact here ▸ List.mem_cons_self
      | inr later => exact List.mem_cons_of_mem _ (ih later)

theorem mem_put_iff (once : (entries.map Prod.fst).Nodup) {entry : RawText × FileNode} :
    entry ∈ put name node entries ↔
      entry = (name, node) ∨ entry ∈ entries ∧ entry.1 ≠ name := by
  constructor
  · intro member
    by_cases same : entry.1 = name
    · subst same
      refine .inl (Prod.ext rfl ?_)
      exact eq_of_mem_of_mem (nodup_put once) member (mem_put_self _ _ _)
    · exact .inr ⟨(mem_put member).resolve_left fun new => same (congrArg Prod.fst new), same⟩
  · rintro (rfl | ⟨member, other⟩)
    · exact mem_put_self _ _ _
    · exact mem_put_of_ne member other

theorem put_of_mem (once : (entries.map Prod.fst).Nodup) (member : (name, node) ∈ entries) :
    put name node entries = entries := by
  induction entries with
  | nil => cases member
  | cons first entries ih =>
    obtain ⟨elsewhere, rest⟩ := List.nodup_cons.mp once
    unfold put
    split
    · rename_i same
      cases List.mem_cons.mp member with
      | inl here => rw [here]
      | inr later => exact absurd (List.mem_map.mpr ⟨_, later, same⟩) elsewhere
    · rename_i other
      cases List.mem_cons.mp member with
      | inl here => exact absurd (congrArg Prod.fst here) other
      | inr later => rw [ih rest later]

/-- Every directory of one tree is in the other as well. -/
structure GrowsTo (top top' : List (RawText × FileNode)) : Prop where
  formed : (FileNode.dir top).WellFormed
  formed' : (FileNode.dir top').WellFormed
  keeps : ∀ names, HasDir top names → HasDir top' names

theorem GrowsTo.refl (formed : (FileNode.dir top).WellFormed) : GrowsTo top top :=
  ⟨formed, formed, fun _ => id⟩

theorem GrowsTo.put (grows : GrowsTo inner inner') (formed : (FileNode.dir entries).WellFormed)
    (member : (name, .dir inner) ∈ entries) :
    GrowsTo entries (FileNode.put name (.dir inner') entries) := by
  refine ⟨formed, formed.put (formed.named member) grows.formed', fun names lower => ?_⟩
  cases names with
  | nil => exact hasDir_nil _
  | cons first names =>
    obtain ⟨found, among, lower⟩ := hasDir_cons_iff.mp lower
    by_cases same : first = name
    · subst same
      cases eq_of_mem_of_mem formed.once among member
      exact hasDir_cons_iff.mpr ⟨inner', mem_put_self _ _ _, grows.keeps names lower⟩
    · exact hasDir_cons_iff.mpr ⟨found, mem_put_of_ne among same, lower⟩

/-! ## Directories that are made -/

/-- A tree of directories, with no file in any of them. -/
inductive Hollow : FileNode → Prop
  | dir {entries : List (RawText × FileNode)} (children : ∀ entry ∈ entries, Hollow entry.2) :
    Hollow (.dir entries)

theorem Hollow.exists_dir (hollow : node.Hollow) : ∃ entries, node = .dir entries := by
  cases hollow with
  | dir => exact ⟨_, rfl⟩

theorem Hollow.child (hollow : (FileNode.dir entries).Hollow) {entry : RawText × FileNode}
    (member : entry ∈ entries) : entry.2.Hollow := by
  cases hollow with
  | dir children => exact children entry member

theorem DirAt.hollow (lower : DirAt top names found) (hollow : (FileNode.dir top).Hollow) :
    (FileNode.dir found).Hollow := by
  induction lower with
  | here => exact hollow
  | down member _ ih => exact ih (hollow.child member)

/-- What is in a directory of a directory, or will be as soon as it is made. -/
def childEntries (name : RawText) (entries : List (RawText × FileNode)) :
    List (RawText × FileNode) :=
  match entries.lookup name with
  | some (.dir inner) => inner
  | _ => []

def addDirs : List RawText → List (RawText × FileNode) → List (RawText × FileNode)
  | [], entries => entries
  | name :: names, entries =>
    put name (.dir (addDirs names (childEntries name entries))) entries

theorem mem_of_lookup (found : entries.lookup name = some node) : (name, node) ∈ entries := by
  obtain ⟨front, back, rfl, -⟩ := List.lookup_eq_some_iff.mp found
  simp

theorem childEntries_cases (name : RawText) (entries : List (RawText × FileNode)) :
    (name, .dir (childEntries name entries)) ∈ entries ∨ childEntries name entries = [] := by
  unfold childEntries
  split
  · rename_i found
    exact .inl (mem_of_lookup found)
  · exact .inr rfl

theorem childEntries_of_mem (once : (entries.map Prod.fst).Nodup)
    (member : (name, .dir inner) ∈ entries) : childEntries name entries = inner := by
  rw [childEntries, (lookup_eq_some_iff once).mpr member]

theorem hasDir_childEntries (once : (entries.map Prod.fst).Nodup) :
    HasDir (childEntries name entries) names ↔ names = [] ∨ HasDir entries (name :: names) := by
  constructor
  · intro lower
    cases childEntries_cases name entries with
    | inl member => exact .inr (hasDir_cons_iff.mpr ⟨_, member, lower⟩)
    | inr none =>
      obtain ⟨found, lower⟩ := none ▸ lower
      cases lower with
      | here => exact .inl rfl
      | down member => cases member
  · rintro (rfl | lower)
    · exact hasDir_nil _
    · obtain ⟨inner, member, lower⟩ := hasDir_cons_iff.mp lower
      rwa [childEntries_of_mem once member]

theorem WellFormed.childEntries (formed : (FileNode.dir entries).WellFormed) (name : RawText) :
    (FileNode.dir (childEntries name entries)).WellFormed := by
  cases childEntries_cases name entries with
  | inl member => exact formed.child member
  | inr none => exact none ▸ FileTree.wellFormed_empty

theorem Hollow.childEntries (hollow : (FileNode.dir entries).Hollow) (name : RawText) :
    (FileNode.dir (childEntries name entries)).Hollow := by
  cases childEntries_cases name entries with
  | inl member => exact hollow.child member
  | inr none => exact none ▸ .dir (List.forall_mem_nil _)

theorem WellFormed.addDirs (formed : (FileNode.dir entries).WellFormed)
    (named : ∀ name ∈ names, IsFileName name) :
    (FileNode.dir (addDirs names entries)).WellFormed := by
  induction names generalizing entries with
  | nil => exact formed
  | cons name names ih =>
    obtain ⟨first, rest⟩ := List.forall_mem_cons.mp named
    exact formed.put first (ih (formed.childEntries name) rest)

theorem Hollow.addDirs (hollow : (FileNode.dir entries).Hollow) (names : List RawText) :
    (FileNode.dir (addDirs names entries)).Hollow := by
  induction names generalizing entries with
  | nil => exact hollow
  | cons name names ih =>
    refine .dir fun entry member => ?_
    cases mem_put member with
    | inl new => exact new ▸ ih (hollow.childEntries name)
    | inr old => exact hollow.child old

theorem hasDir_addDirs (formed : (FileNode.dir entries).WellFormed) :
    HasDir (addDirs names entries) names' ↔ names' <+: names ∨ HasDir entries names' := by
  induction names generalizing entries names' with
  | nil =>
    refine (or_iff_right_of_imp fun none => ?_).symm
    rw [List.prefix_nil.mp none]
    exact hasDir_nil entries
  | cons name names ih =>
    cases names' with
    | nil => exact iff_of_true (hasDir_nil _) (.inl List.nil_prefix)
    | cons name' names' =>
      rw [addDirs, hasDir_cons_iff, List.cons_prefix_cons]
      simp only [mem_put_iff formed.once, Prod.mk.injEq, FileNode.dir.injEq]
      by_cases same : name' = name
      · subst same
        have made : names' = [] → names' <+: names := fun none => none ▸ List.nil_prefix
        simp only [ne_eq, not_true_eq_false, and_false, or_false, true_and, exists_eq_left,
          ih (formed.childEntries name'), hasDir_childEntries formed.once]
        rw [← or_assoc, or_iff_left_of_imp made]
      · simp [same, hasDir_cons_iff]

end FileNode
end PartitionLog
