import Mathlib.Data.List.Nodup
import PartitionLog.Partition.Discovery
import PartitionLog.Proofs.FileTree.WellFormed

/-!
# The directories that a scan comes to

A scan comes to every directory that is reached without an excluded name (`mem_visitedDirs`), and
to none twice (`nodup_names_visitedDirs`). Its walk ends well exactly if all of them can be listed
(`walk_walked`).
-/
namespace PartitionLog
namespace FileNode

mutual

def visitedDirs (excluded : RawText → Bool) : FileNode → List VisitedDir
  | file _ => []
  | dir entries => ⟨[], entries⟩ :: visitedBelow excluded entries

def visitedBelow (excluded : RawText → Bool) : List (RawText × FileNode) → List VisitedDir
  | [] => []
  | (name, node) :: entries =>
    (if excluded name then [] else (visitedDirs excluded node).map (.below name)) ++
      visitedBelow excluded entries

end

/-- The directory that names lead down to. -/
inductive DirAt : List (RawText × FileNode) → List RawText → List (RawText × FileNode) → Prop
  | here (entries : List (RawText × FileNode)) : DirAt entries [] entries
  | down {entries inner found : List (RawText × FileNode)} {name : RawText} {names : List RawText} :
    (name, .dir inner) ∈ entries → DirAt inner names found → DirAt entries (name :: names) found

variable {excluded : RawText → Bool} {entries found : List (RawText × FileNode)}
  {names : List RawText} {visited : VisitedDir}

theorem DirAt.wellFormed (lower : DirAt entries names found)
    (formed : (FileNode.dir entries).WellFormed) :
    (FileNode.dir found).WellFormed ∧ ∀ name ∈ names, IsFileName name := by
  induction lower with
  | here => exact ⟨formed, nofun⟩
  | down member _ ih =>
    obtain ⟨found, named⟩ := ih (formed.child member)
    refine ⟨found, fun name among => ?_⟩
    cases List.mem_cons.mp among with
    | inl first => exact first ▸ formed.named member
    | inr rest => exact named name rest

/-! ## Below one entry -/

def visitedIn (excluded : RawText → Bool) (entry : RawText × FileNode) : List VisitedDir :=
  if excluded entry.1 then [] else (visitedDirs excluded entry.2).map (.below entry.1)

theorem visitedBelow_eq (excluded : RawText → Bool) (entries : List (RawText × FileNode)) :
    visitedBelow excluded entries = entries.flatMap (visitedIn excluded) := by
  induction entries with
  | nil => rfl
  | cons entry entries ih =>
    rw [visitedBelow, ih, List.flatMap_cons]
    rfl

theorem mem_visitedIn {entry : RawText × FileNode} :
    visited ∈ visitedIn excluded entry ↔ excluded entry.1 = false ∧
      ∃ lower ∈ visitedDirs excluded entry.2, visited = lower.below entry.1 := by
  unfold visitedIn
  cases excluded entry.1 <;> simp [eq_comm]

theorem mem_visitedBelow : visited ∈ visitedBelow excluded entries ↔
    ∃ entry ∈ entries, visited ∈ visitedIn excluded entry := by
  rw [visitedBelow_eq, List.mem_flatMap]

theorem names_visitedIn {entry : RawText × FileNode} (included : excluded entry.1 = false) :
    (visitedIn excluded entry).map VisitedDir.names =
      ((visitedDirs excluded entry.2).map VisitedDir.names).map (entry.1 :: ·) := by
  rw [visitedIn, included, List.map_map]
  exact List.map_map

theorem exists_names_of_mem {entry : RawText × FileNode}
    (member : names ∈ (visitedIn excluded entry).map VisitedDir.names) :
    ∃ lower, names = entry.1 :: lower := by
  obtain ⟨visited, among, rfl⟩ := List.mem_map.mp member
  obtain ⟨-, lower, -, rfl⟩ := mem_visitedIn.mp among
  exact ⟨lower.names, rfl⟩

/-! ## All directories -/

theorem dirAt_of_mem {node : FileNode} (member : ⟨names, found⟩ ∈ visitedDirs excluded node) :
    ∃ entries, node = .dir entries ∧ DirAt entries names found ∧
      ∀ name ∈ names, excluded name = false := by
  induction names generalizing node with
  | nil =>
    cases node with
    | file contents => cases member
    | dir entries =>
      refine ⟨entries, rfl, ?_, nofun⟩
      cases List.mem_cons.mp member with
      | inl here =>
        cases here
        exact .here found
      | inr lower =>
        obtain ⟨entry, -, among⟩ := mem_visitedBelow.mp lower
        obtain ⟨_, none⟩ := exists_names_of_mem (List.mem_map_of_mem among)
        cases none
  | cons name names ih =>
    cases node with
    | file contents => cases member
    | dir entries =>
      cases List.mem_cons.mp member with
      | inl here => cases here
      | inr lower =>
        obtain ⟨⟨name', node⟩, there, among⟩ := mem_visitedBelow.mp lower
        obtain ⟨included, ⟨names', found'⟩, below, same⟩ := mem_visitedIn.mp among
        simp only [VisitedDir.below, VisitedDir.mk.injEq, List.cons.injEq] at same
        obtain ⟨⟨rfl, rfl⟩, rfl⟩ := same
        obtain ⟨inner, rfl, lower, rest⟩ := ih below
        exact ⟨entries, rfl, .down there lower, List.forall_mem_cons.mpr ⟨included, rest⟩⟩

theorem mem_of_dirAt (lower : DirAt entries names found)
    (included : ∀ name ∈ names, excluded name = false) :
    ⟨names, found⟩ ∈ visitedDirs excluded (.dir entries) := by
  induction lower with
  | here => exact List.mem_cons_self
  | down member lower ih =>
    obtain ⟨first, rest⟩ := List.forall_mem_cons.mp included
    exact List.mem_cons_of_mem _ (mem_visitedBelow.mpr
      ⟨_, member, mem_visitedIn.mpr ⟨first, _, ih rest, rfl⟩⟩)

theorem mem_visitedDirs :
    ⟨names, found⟩ ∈ visitedDirs excluded (.dir entries) ↔
      DirAt entries names found ∧ ∀ name ∈ names, excluded name = false := by
  constructor
  · intro member
    obtain ⟨_, same, lower⟩ := dirAt_of_mem member
    cases same
    exact lower
  · rintro ⟨lower, included⟩
    exact mem_of_dirAt lower included

theorem nodup_names_visitedDirs {node : FileNode} (formed : node.WellFormed)
    (excluded : RawText → Bool) :
    ((visitedDirs excluded node).map VisitedDir.names).Nodup := by
  induction formed with
  | file contents => exact .nil
  | dir once named children ih =>
    rw [visitedDirs, List.map_cons, List.nodup_cons, visitedBelow_eq, List.map_flatMap]
    refine ⟨fun top => ?_, List.nodup_flatMap.mpr ⟨fun entry member => ?_, ?_⟩⟩
    · obtain ⟨entry, -, among⟩ := List.mem_flatMap.mp top
      obtain ⟨_, none⟩ := exists_names_of_mem among
      cases none
    · cases included : excluded entry.1 with
      | true => simp [visitedIn, included]
      | false =>
        rw [names_visitedIn included]
        exact (ih entry member).map List.cons_injective
    -- Names below different entries differ in the first.
    · refine (List.pairwise_map.mp once).imp fun {entry entry'} differ names among among' => ?_
      obtain ⟨lower, rfl⟩ := exists_names_of_mem among
      obtain ⟨lower', same⟩ := exists_names_of_mem among'
      exact differ (List.cons.inj same).1

/-! ## The walk -/

section Walk

variable {failure? : Path → Option ReadFailure} {path : Path} {name : RawText} {node : FileNode}
  {visited visited' : List VisitedDir} {cause : IoError}

/-- The listing of one of these directories breaks off, for this cause. -/
def Breaks (failure? : Path → Option ReadFailure) (path : Path) (visited : List VisitedDir)
    (cause : IoError) : Prop :=
  ∃ dir ∈ visited, ∃ after, failure? (dir.path path) = some ⟨after, cause⟩

theorem breaks_iff : Breaks failure? path visited cause ↔
    ∃ dir ∈ visited, (failure? (dir.path path)).map ReadFailure.cause = some cause := by
  refine exists_congr fun dir => and_congr_right fun _ => ?_
  constructor
  · rintro ⟨after, broken⟩
    rw [broken, Option.map_some]
  · intro broken
    obtain ⟨⟨after, cause⟩, found, rfl⟩ := Option.map_eq_some_iff.mp broken
    exact ⟨after, found⟩

theorem Breaks.mono (breaks : Breaks failure? path visited cause) (more : visited ⊆ visited') :
    Breaks failure? path visited' cause := by
  obtain ⟨dir, member, after, broken⟩ := breaks
  exact ⟨dir, more member, after, broken⟩

theorem Breaks.below (breaks : Breaks failure? (path.join name) visited cause) :
    Breaks failure? path (visited.map (.below name)) cause := by
  obtain ⟨dir, member, after, broken⟩ := breaks
  exact ⟨dir.below name, List.mem_map_of_mem member, after, broken⟩

/-- How a walk ends that comes to these directories and, if `own` is a cause, has a listing to
finish that breaks off. -/
inductive Walked (failure? : Path → Option ReadFailure) (path : Path) (own : Option IoError)
    (visited : List VisitedDir) : Except IoError (List VisitedDir) → Prop
  | through (whole : own = none) (listed : ∀ dir ∈ visited, failure? (dir.path path) = none) :
    Walked failure? path own visited (.ok visited)
  | cut {cause : IoError} (broken : own = some cause) :
    Walked failure? path own visited (.error cause)
  | stopped {cause : IoError} (breaks : Breaks failure? path visited cause) :
    Walked failure? path own visited (.error cause)

/-- The first entry and what comes behind it. -/
theorem Walked.append {own : Option IoError} {first rest : Except IoError (List VisitedDir)}
    (whole : Walked failure? path none visited first)
    (later : Walked failure? path own visited' rest) :
    Walked failure? path own (visited ++ visited')
      (first >>= fun upper => rest >>= fun lower => pure (upper ++ lower)) := by
  cases whole with
  | cut broken => cases broken
  | stopped breaks => exact .stopped (breaks.mono (List.subset_append_left _ _))
  | through _ listed =>
    cases later with
    | cut broken => exact .cut broken
    | stopped breaks => exact .stopped (breaks.mono (List.subset_append_right _ _))
    | through whole listed' =>
      refine .through whole fun dir member => ?_
      exact (List.mem_append.mp member).elim (listed dir) (listed' dir)

theorem Walked.below {first : Except IoError (List VisitedDir)}
    (walked : Walked failure? (path.join name) none visited first) :
    Walked failure? path none (visited.map (.below name)) (List.map (.below name) <$> first) := by
  cases walked with
  | cut broken => cases broken
  | stopped breaks => exact .stopped breaks.below
  | through _ listed => exact .through rfl (List.forall_mem_map.mpr listed)

theorem walkEntry_walked (walked : Walked failure? (path.join name) none (visitedDirs excluded node)
      (walk failure? excluded (path.join name) node)) :
    Walked failure? path none (visitedIn excluded (name, node)) (List.map (.below name) <$>
      if excluded name then pure [] else walk failure? excluded (path.join name) node) := by
  unfold visitedIn
  split
  · exact .through rfl nofun
  · exact walked.below

/-- The first entry is listed, and then those that are left. -/
theorem walkBelow_cons_walked {failure later : Option ReadFailure}
    (next : ReadFailure.next failure = .ok later)
    (walked : Walked failure? (path.join name) none (visitedDirs excluded node)
      (walk failure? excluded (path.join name) node))
    (rest : Walked failure? path (failure.map ReadFailure.cause) (visitedBelow excluded entries)
      (walkBelow failure? excluded path later entries)) :
    Walked failure? path (failure.map ReadFailure.cause)
      (visitedBelow excluded ((name, node) :: entries))
      (walkBelow failure? excluded path failure ((name, node) :: entries)) := by
  have both := (walkEntry_walked walked).append rest
  rw [bind_map_left] at both
  rw [walkBelow, next]
  exact both

mutual

theorem walk_walked (failure? : Path → Option ReadFailure) (excluded : RawText → Bool)
    (path : Path) : (node : FileNode) → Walked failure? path none (visitedDirs excluded node)
      (walk failure? excluded path node)
  | file _ => .through rfl nofun
  | dir entries => by
    have below := walkBelow_walked failure? excluded path (failure? path) entries
    rw [walk]
    generalize walkBelow failure? excluded path (failure? path) entries = rest at below ⊢
    cases below with
    | through whole listed =>
      have own : failure? path = none := Option.map_eq_none_iff.mp whole
      exact .through rfl (List.forall_mem_cons.mpr ⟨own, listed⟩)
    | cut broken =>
      obtain ⟨⟨after, cause⟩, own, rfl⟩ := Option.map_eq_some_iff.mp broken
      exact .stopped ⟨_, List.mem_cons_self, after, own⟩
    | stopped breaks => exact .stopped (breaks.mono (List.subset_cons_self _ _))

theorem walkBelow_walked (failure? : Path → Option ReadFailure) (excluded : RawText → Bool)
    (path : Path) : (failure : Option ReadFailure) → (entries : List (RawText × FileNode)) →
      Walked failure? path (failure.map ReadFailure.cause) (visitedBelow excluded entries)
        (walkBelow failure? excluded path failure entries)
  | none, [] => .through rfl nofun
  | some _, [] => .cut rfl
  | some ⟨0, _⟩, _ :: _ => .cut rfl
  | none, (name, node) :: entries =>
    walkBelow_cons_walked rfl (walk_walked failure? excluded (path.join name) node)
      (walkBelow_walked failure? excluded path none entries)
  | some ⟨after + 1, cause⟩, (name, node) :: entries =>
    walkBelow_cons_walked rfl (walk_walked failure? excluded (path.join name) node)
      (walkBelow_walked failure? excluded path (some ⟨after, cause⟩) entries)

end

theorem walk_eq_ok {node : FileNode}
    (listed : ∀ dir ∈ visitedDirs excluded node, failure? (dir.path path) = none) :
    walk failure? excluded path node = .ok (visitedDirs excluded node) := by
  have walked := walk_walked failure? excluded path node
  generalize walk failure? excluded path node = result at walked ⊢
  cases walked with
  | through => rfl
  | cut broken => cases broken
  | stopped breaks =>
    obtain ⟨dir, member, after, broken⟩ := breaks
    cases (listed dir member).symm.trans broken

theorem exists_walk_eq_error {node : FileNode} {dir : VisitedDir} {failure : ReadFailure}
    (member : dir ∈ visitedDirs excluded node)
    (broken : failure? (dir.path path) = some failure) :
    ∃ cause, walk failure? excluded path node = .error cause ∧
      Breaks failure? path (visitedDirs excluded node) cause := by
  have walked := walk_walked failure? excluded path node
  generalize walk failure? excluded path node = result at walked ⊢
  cases walked with
  | through _ listed => cases (listed dir member).symm.trans broken
  | cut broken => cases broken
  | stopped breaks => exact ⟨_, rfl, breaks⟩

end Walk

end FileNode
end PartitionLog
