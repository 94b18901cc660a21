import PartitionLog.Proofs.Partition.Discovery

/-!
# Excluded directories

Nothing in an excluded directory is found, and taking the excluded directories away hides nothing
that was found before: `scan_pruned`. But while it is there, an excluded directory still counts as
a directory, and what it is in does not count as a partition.
-/
namespace PartitionLog

/-! ## Trees without their excluded directories -/

namespace FileNode

mutual

def prune (excluded : RawText → Bool) : FileNode → FileNode
  | file contents => file contents
  | dir entries => dir (pruneBelow excluded entries)

def pruneBelow (excluded : RawText → Bool) : List (RawText × FileNode) → List (RawText × FileNode)
  | [] => []
  | (name, node) :: entries =>
    if node.isDir ∧ excluded name then pruneBelow excluded entries
    else (name, prune excluded node) :: pruneBelow excluded entries

end

variable {excluded : RawText → Bool} {entries : List (RawText × FileNode)}

@[simp] theorem isDir_prune (node : FileNode) : (prune excluded node).isDir = node.isDir := by
  cases node <;> rfl

theorem pruneBelow_eq (entries : List (RawText × FileNode)) :
    pruneBelow excluded entries =
      (entries.filter fun entry => !(entry.2.isDir && excluded entry.1)).map fun entry =>
        (entry.1, prune excluded entry.2) := by
  induction entries with
  | nil => rfl
  | cons entry entries ih =>
    rw [pruneBelow, ih, List.filter_cons]
    cases entry.2.isDir <;> cases excluded entry.1 <;> rfl

theorem fileNames_pruneBelow (entries : List (RawText × FileNode)) :
    Partition.fileNames (pruneBelow excluded entries) = Partition.fileNames entries := by
  have file (node : FileNode) (gone : Bool) :
      ((prune excluded node).isFile && !(node.isDir && gone)) = node.isFile := by
    cases node <;> rfl
  rw [Partition.fileNames, pruneBelow_eq, List.filter_map, List.filterMap_map,
    List.filter_filter]
  simp only [Function.comp_apply, file]
  rfl

theorem all_not_isDir_pruneBelow (entries : List (RawText × FileNode)) :
    (pruneBelow excluded entries).all (fun entry => !entry.2.isDir) =
      entries.all fun entry => !entry.2.isDir || excluded entry.1 := by
  rw [pruneBelow_eq, List.all_map, List.all_filter]
  congr 1
  funext entry
  simp only [Function.comp_apply, isDir_prune]
  cases entry.2.isDir <;> simp

end FileNode

def VisitedDir.prune (excluded : RawText → Bool) (visited : VisitedDir) : VisitedDir :=
  { visited with entries := FileNode.pruneBelow excluded visited.entries }

namespace FileNode

mutual

theorem visitedDirs_prune (excluded : RawText → Bool) : (node : FileNode) →
    visitedDirs excluded (prune excluded node) =
      (visitedDirs excluded node).map (VisitedDir.prune excluded)
  | file _ => rfl
  | dir entries => by
    rw [prune, visitedDirs, visitedDirs, visitedBelow_prune excluded entries]
    rfl

theorem visitedBelow_prune (excluded : RawText → Bool) : (entries : List (RawText × FileNode)) →
    visitedBelow excluded (pruneBelow excluded entries) =
      (visitedBelow excluded entries).map (VisitedDir.prune excluded)
  | [] => rfl
  | (name, node) :: entries => by
    have rest := visitedBelow_prune excluded entries
    unfold pruneBelow
    split
    · rename_i gone
      rw [rest, visitedBelow, if_pos gone.2, List.nil_append]
    · rw [visitedBelow, visitedBelow, visitedDirs_prune excluded node, rest, List.map_append]
      split
      · rfl
      · rw [List.map_map, List.map_map]
        rfl

end

theorem visitedDirs_dir_pruneBelow (excluded : RawText → Bool)
    (entries : List (RawText × FileNode)) :
    visitedDirs excluded (.dir (pruneBelow excluded entries)) =
      (visitedDirs excluded (.dir entries)).map (VisitedDir.prune excluded) :=
  visitedDirs_prune excluded (.dir entries)

end FileNode

/-! ## Sorting fewer -/

theorem mergeSort_cons_eq {α : Type} {le : α → α → Bool}
    (trans : ∀ a b c, le a b → le b c → le a c) (total : ∀ a b, le a b || le b a)
    (x : α) (xs : List α) :
    (x :: xs).mergeSort le =
      (xs.mergeSort le).filter (fun y => !le x y) ++ x :: (xs.mergeSort le).filter (le x) := by
  obtain ⟨front, back, whole, rest, early⟩ := List.mergeSort_cons trans total x xs
  have sorted := List.pairwise_mergeSort trans total (x :: xs)
  rw [whole] at sorted
  have late : ∀ y ∈ back, le x y = true :=
    (List.pairwise_cons.mp (List.pairwise_append.mp sorted).2.1).1
  have front_eq : front.filter (le x) = [] := by
    simpa using early
  have back_eq : (back.filter fun y => !le x y) = [] := by
    simpa using late
  rw [whole, rest, List.filter_append, List.filter_append, List.filter_eq_self.mpr early,
    List.filter_eq_self.mpr late, front_eq, back_eq, List.append_nil, List.nil_append]

theorem mergeSort_sublist {α : Type} {le : α → α → Bool}
    (trans : ∀ a b c, le a b → le b c → le a c) (total : ∀ a b, le a b || le b a)
    {xs ys : List α} (fewer : xs.Sublist ys) : (xs.mergeSort le).Sublist (ys.mergeSort le) := by
  induction fewer with
  | slnil => exact .refl _
  | @cons xs ys y _ ih =>
    obtain ⟨front, back, whole, rest, -⟩ := List.mergeSort_cons trans total y ys
    rw [whole]
    rw [rest] at ih
    exact ih.middle y
  | cons_cons x _ ih =>
    rw [mergeSort_cons_eq trans total, mergeSort_cons_eq trans total]
    exact (ih.filter _).append ((ih.filter _).cons_cons x)

/-! ## Scanning without the excluded directories -/

namespace DataDir

variable {tree tree' : FileTree} {config : ReaderConfig} {base : Path}
  {top files : List (RawText × FileNode)} {ntp : Ntp} {revision : Int64} {names : List RawText}
  {counts counts' : VisitedDir → Bool}

/-- An excluded directory keeps the one that it is in from counting as a partition. -/
structure Hides (config : ReaderConfig) (top : List (RawText × FileNode)) (ntp : Ntp)
    (revision : Int64) (names : List RawText) (files : List (RawText × FileNode)) : Prop
    extends Named config top ntp revision names files where
  some : ∃ entry ∈ files, entry.2.isDir = true
  only : ∀ entry ∈ files, entry.2.isDir = true → config.passesOver entry.1 = true

/-- The partitions stay, in their order, and those that were hidden come to them. -/
structure Uncovers (config : ReaderConfig) (base : Path) (top : List (RawText × FileNode))
    (data data' : DataDir) : Prop where
  base_eq : data'.base = data.base
  kept : data.partitions.Sublist data'.partitions
  new : ∃ hidden, data'.partitions.Perm (data.partitions ++ hidden) ∧
    (hidden.map Partition.path).Nodup ∧
    ∀ p, p ∈ hidden ↔ ∃ ntp revision names files, Hides config top ntp revision names files ∧
      p = .ofEntries ntp revision (base.descend names) files

theorem unsorted_sublist (fewer : ∀ visited, counts visited = true → counts' visited = true) :
    (unsorted config base top counts).Sublist (unsorted config base top counts') :=
  (List.monotone_filter_right _ fewer).filterMap _

theorem unsorted_perm (fewer : ∀ visited, counts visited = true → counts' visited = true) :
    (unsorted config base top counts').Perm (unsorted config base top counts ++
      unsorted config base top fun visited => counts' visited && !counts visited) := by
  let visited := (FileNode.dir top).visitedDirs config.passesOver
  have few : (visited.filter counts').filter counts = visited.filter counts := by
    rw [List.filter_filter]
    refine List.filter_congr fun dir _ => ?_
    cases leaf : counts dir with
    | false => rfl
    | true => rw [fewer dir leaf, Bool.and_true]
  have more : (visited.filter counts').filter (fun dir => !counts dir) =
      visited.filter fun dir => counts' dir && !counts dir := by
    rw [List.filter_filter]
    exact List.filter_congr fun dir _ => Bool.and_comm _ _
  have perm := (List.filter_append_perm counts (visited.filter counts')).symm
  rw [few, more] at perm
  rw [unsorted, unsorted, unsorted, ← List.filterMap_append]
  exact perm.filterMap _

def prunedLeaf (config : ReaderConfig) (visited : VisitedDir) : Bool :=
  (visited.prune config.passesOver).isLeaf

theorem prunedLeaf_iff {visited : VisitedDir} : prunedLeaf config visited = true ↔
    ∀ entry ∈ visited.entries, entry.2.isDir = true → config.passesOver entry.1 = true := by
  rw [prunedLeaf, VisitedDir.isLeaf, VisitedDir.prune, FileNode.all_not_isDir_pruneBelow,
    List.all_eq_true]
  refine forall₂_congr fun entry _ => ?_
  cases entry.2.isDir <;> simp

theorem prunedLeaf_of_isLeaf (visited : VisitedDir) (leaf : visited.isLeaf = true) :
    prunedLeaf config visited = true := by
  rw [prunedLeaf_iff]
  intro entry member dir
  rw [isLeaf_iff.mp leaf entry member] at dir
  cases dir

theorem unsorted_pruneBelow :
    unsorted config base (FileNode.pruneBelow config.passesOver top) VisitedDir.isLeaf =
      unsorted config base top (prunedLeaf config) := by
  have same (visited : VisitedDir) :
      (visited.prune config.passesOver).partition? base = visited.partition? base := by
    simp only [VisitedDir.partition?, VisitedDir.prune, VisitedDir.path, Partition.ofEntries,
      FileNode.fileNames_pruneBelow]
  rw [unsorted, FileNode.visitedDirs_dir_pruneBelow, List.filter_map, List.filterMap_map, unsorted]
  exact List.filterMap_congr fun dir _ => same dir

def hidden (config : ReaderConfig) (base : Path) (top : List (RawText × FileNode)) :
    List Partition :=
  unsorted config base top fun visited => prunedLeaf config visited && !visited.isLeaf

theorem mem_hidden {p : Partition} :
    p ∈ hidden config base top ↔ ∃ ntp revision names files,
      Hides config top ntp revision names files ∧
      p = .ofEntries ntp revision (base.descend names) files := by
  have counts (visited : VisitedDir) : (prunedLeaf config visited && !visited.isLeaf) = true ↔
      (∃ entry ∈ visited.entries, entry.2.isDir = true) ∧
      ∀ entry ∈ visited.entries, entry.2.isDir = true → config.passesOver entry.1 = true := by
    rw [Bool.and_eq_true, prunedLeaf_iff, and_comm]
    simp [VisitedDir.isLeaf]
  rw [hidden, mem_unsorted]
  constructor
  · rintro ⟨ntp, revision, names, files, named, hides, rfl⟩
    obtain ⟨some, only⟩ := (counts _).mp hides
    exact ⟨ntp, revision, names, files, ⟨named, some, only⟩, rfl⟩
  · rintro ⟨ntp, revision, names, files, hides, rfl⟩
    exact ⟨ntp, revision, names, files, hides.toNamed, (counts _).mpr ⟨hides.some, hides.only⟩, rfl⟩

theorem uncovers_gathered (formed : (FileNode.dir top).WellFormed) :
    Uncovers config base top (gathered config base top VisitedDir.isLeaf)
      (gathered config base top (prunedLeaf config)) where
  base_eq := rfl
  kept := mergeSort_sublist Partition.le_trans Partition.le_or_le
    (unsorted_sublist prunedLeaf_of_isLeaf)
  new := by
    refine ⟨hidden config base top, ?_, nodup_paths formed _, fun p => mem_hidden⟩
    have sorted := gathered_perm config base top
    have split : (unsorted config base top (prunedLeaf config)).Perm
        (unsorted config base top VisitedDir.isLeaf ++ hidden config base top) :=
      unsorted_perm prunedLeaf_of_isLeaf
    exact ((sorted _).trans split).trans ((sorted _).symm.append_right _)

theorem Uncovers.eq {data data' : DataDir} (uncovers : Uncovers config base top data data')
    (none : ∀ ntp revision names files, ¬ Hides config top ntp revision names files) :
    data' = data := by
  obtain ⟨hidden, perm, -, members⟩ := uncovers.new
  have empty : hidden = [] := by
    refine List.eq_nil_iff_forall_not_mem.mpr fun p member => ?_
    obtain ⟨ntp, revision, names, files, hides, -⟩ := (members p).mp member
    exact none ntp revision names files hides
  rw [empty, List.append_nil] at perm
  have partitions := uncovers.kept.eq_of_length perm.length_eq.symm
  cases data
  cases data'
  exact congrArg₂ DataDir.mk uncovers.base_eq partitions.symm

theorem failsFor_pruneBelow {cause : IoError} (alike : tree.FailAlike tree') :
    FailsFor tree' config base (FileNode.pruneBelow config.passesOver top) cause ↔
      FailsFor tree config base top cause := by
  -- The paths of the directories stay, and with them what their listings fail for.
  simp only [failsFor_iff, FileNode.visitedDirs_dir_pruneBelow, FileNode.breaks_iff, List.mem_map,
    exists_exists_and_eq_and, alike.readFailure?]
  rfl

theorem scan_pruneBelow (alike : tree.FailAlike tree') (there : tree.lookup base = .ok (.dir top))
    (there' : tree'.lookup base = .ok (.dir (FileNode.pruneBelow config.passesOver top))) :
    (∃ cause cause', scan tree config base = .error (.io cause) ∧
        scan tree' config base = .error (.io cause') ∧
        FailsFor tree config base top cause ∧ FailsFor tree config base top cause') ∨
      (scan tree config base = .ok (gathered config base top VisitedDir.isLeaf) ∧
        scan tree' config base = .ok (gathered config base top (prunedLeaf config))) := by
  by_cases fails : ∃ cause, FailsFor tree config base top cause
  · obtain ⟨cause, fails⟩ := fails
    obtain ⟨first, failed, broken⟩ := scan_of_failsFor there fails
    obtain ⟨first', failed', broken'⟩ :=
      scan_of_failsFor there' ((failsFor_pruneBelow alike).mpr fails)
    exact .inl ⟨first, first', failed, failed', broken, (failsFor_pruneBelow alike).mp broken'⟩
  · have readable := not_exists.mp fails
    have readable' (cause : IoError) :
        ¬ FailsFor tree' config base (FileNode.pruneBelow config.passesOver top) cause :=
      fun broken => readable cause ((failsFor_pruneBelow alike).mp broken)
    refine .inr ⟨scan_of_readable there readable, ?_⟩
    rw [scan_of_readable there' readable', gathered, gathered, unsorted_pruneBelow]

/-- Where several listings break off, the two trees need not fail for the same one of them. -/
theorem scan_pruned (formed : tree.WellFormed) (alike : tree.FailAlike tree')
    (there : tree.lookup base = .ok (.dir top))
    (there' : tree'.lookup base = .ok (.dir (FileNode.pruneBelow config.passesOver top))) :
    ((∃ cause cause', scan tree config base = .error (.io cause) ∧
        scan tree' config base = .error (.io cause') ∧
        FailsFor tree config base top cause ∧ FailsFor tree config base top cause') ∨
      ∃ data data', scan tree config base = .ok data ∧ scan tree' config base = .ok data' ∧
        Uncovers config base top data data') ∧
    ((∀ ntp revision names files, ¬ Hides config top ntp revision names files) →
      (scan tree' config base).toOption = (scan tree config base).toOption) := by
  have uncovers : Uncovers config base top (gathered config base top VisitedDir.isLeaf)
      (gathered config base top (prunedLeaf config)) := uncovers_gathered (formed.lookup there)
  refine ⟨?_, fun none => ?_⟩
  · cases scan_pruneBelow alike there there' with
    | inl failed => exact .inl failed
    | inr found => exact .inr ⟨_, _, found.1, found.2, uncovers⟩
  · obtain ⟨cause, cause', failed, failed', -⟩ | ⟨found, found'⟩ :=
      scan_pruneBelow alike there there'
    · rw [failed, failed']
      rfl
    · rw [found, found', uncovers.eq none]

/-! ### An excluded directory in a partition -/

namespace Nested

def entries : List (RawText × FileNode) :=
  [("kafka", .dir [("t", .dir [("0_1", .dir [("cloud_storage_cache", .dir [])])])]),
    ("cloud_storage_cache", .dir [("t", .dir [("0_2", .dir [])])])]

def left : List (RawText × FileNode) := FileNode.pruneBelow (ReaderConfig.passesOver {}) entries

def disk : FileTree := { mount := ⟨"/data"⟩, root := .ok (.dir entries) }

def pruned : FileTree := { mount := ⟨"/data"⟩, root := .ok (.dir left) }

def partition : Partition := ⟨⟨"kafka", "t", 0⟩, 1, ⟨"/data/kafka/t/0_1"⟩, [], none⟩

theorem formed : disk.WellFormed := FileTree.wellFormed_of_root rfl (by decide)

theorem failAlike : disk.FailAlike pruned := fun _ => rfl

theorem unsorted_entries (base : Path) : unsorted {} base entries VisitedDir.isLeaf = [] := rfl

theorem unsorted_left : unsorted {} ⟨"/data"⟩ left VisitedDir.isLeaf = [partition] := by
  have one : unsorted {} ⟨"/data"⟩ left VisitedDir.isLeaf =
    [.ofEntries ⟨"kafka", "t", 0⟩ 1 ⟨"/data/kafka/t/0_1"⟩ []] := rfl
  simp [one, Partition.ofEntries, Partition.segmentNames, Partition.fileNames, partition]

end Nested

theorem scan_pruned_nested :
    Nested.disk.WellFormed ∧ Nested.disk.FailAlike Nested.pruned ∧
      Nested.disk.lookup ⟨"/data"⟩ = .ok (.dir Nested.entries) ∧
      Nested.pruned.lookup ⟨"/data"⟩ = .ok (.dir Nested.left) ∧
      ∃ data data', scan Nested.disk {} ⟨"/data"⟩ = .ok data ∧
        scan Nested.pruned {} ⟨"/data"⟩ = .ok data' ∧
        Uncovers {} ⟨"/data"⟩ Nested.entries data data' := by
  have formed := Nested.formed
  have there : Nested.disk.lookup ⟨"/data"⟩ = .ok (.dir Nested.entries) := rfl
  have there' : Nested.pruned.lookup ⟨"/data"⟩ = .ok (.dir Nested.left) := rfl
  have passes : scan Nested.disk {} ⟨"/data"⟩ =
      .ok (gathered {} ⟨"/data"⟩ Nested.entries VisitedDir.isLeaf) := rfl
  obtain ⟨cause, cause', failed, -⟩ | found :=
    (scan_pruned formed Nested.failAlike there there').1
  · rw [passes] at failed
    cases failed
  · exact ⟨formed, Nested.failAlike, there, there', found⟩

/-- Not even the base can do without the directories that its path goes through. -/
theorem scan_changed_by_pruning :
    scan Nested.disk {} ⟨"/data"⟩ = .ok ⟨⟨"/data"⟩, []⟩ ∧
      scan Nested.pruned {} ⟨"/data"⟩ = .ok ⟨⟨"/data"⟩, [Nested.partition]⟩ ∧
      scan Nested.disk {} ⟨"/data/cloud_storage_cache/.."⟩ =
        .ok ⟨⟨"/data/cloud_storage_cache/.."⟩, []⟩ ∧
      scan Nested.pruned {} ⟨"/data/cloud_storage_cache/.."⟩ =
        .error (.notADirectory ⟨"/data/cloud_storage_cache/.."⟩) := by
  have disk : scan Nested.disk {} ⟨"/data"⟩ =
      .ok (gathered {} ⟨"/data"⟩ Nested.entries VisitedDir.isLeaf) := rfl
  have pruned : scan Nested.pruned {} ⟨"/data"⟩ =
      .ok (gathered {} ⟨"/data"⟩ Nested.left VisitedDir.isLeaf) := rfl
  have through : scan Nested.disk {} ⟨"/data/cloud_storage_cache/.."⟩ =
      .ok (gathered {} ⟨"/data/cloud_storage_cache/.."⟩ Nested.entries VisitedDir.isLeaf) := rfl
  refine ⟨disk.trans ?_, pruned.trans ?_, through.trans ?_, rfl⟩
  · rw [gathered, Nested.unsorted_entries, List.mergeSort_nil]
  · rw [gathered, Nested.unsorted_left, List.mergeSort_singleton]
  · rw [gathered, Nested.unsorted_entries, List.mergeSort_nil]

end DataDir
end PartitionLog
