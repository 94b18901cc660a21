import Mathlib.Data.List.Nodup
import PartitionLog.Proofs.FileTree.WellFormed

/-!
# Trees listed in another order

The entries of a directory come in no order to rely on. In two trees that differ in that order only,
a path leads to the same place, up to that order: `FileTree.Reordered.lookup`. So the files have the
same contents: `FileTree.Reordered.fileContents_eq`.
-/
namespace PartitionLog

namespace FileNode

inductive Reordered : FileNode → FileNode → Prop
  | file (contents : Bytes) : Reordered (.file contents) (.file contents)
  | dir {entries entries' : List (RawText × FileNode)}
    (names : (entries.map Prod.fst).Perm (entries'.map Prod.fst))
    (children : ∀ name node node', (name, node) ∈ entries → (name, node') ∈ entries' →
      Reordered node node') : Reordered (.dir entries) (.dir entries')

variable {entries entries' : List (RawText × FileNode)} {name : RawText} {node node' : FileNode}

theorem eq_of_mem_of_mem (once : (entries.map Prod.fst).Nodup) (member : (name, node) ∈ entries)
    (member' : (name, node') ∈ entries) : node = node' :=
  Option.some.inj (((lookup_eq_some_iff once).mpr member).symm.trans
    ((lookup_eq_some_iff once).mpr member'))

namespace Reordered

theorem refl (formed : node.WellFormed) : Reordered node node := by
  induction formed with
  | file contents => exact .file contents
  | dir once _ _ ih =>
    refine .dir (.refl _) fun name a b member member' => ?_
    exact eq_of_mem_of_mem once member member' ▸ ih (name, a) member

theorem names (same : Reordered (.dir entries) (.dir entries')) :
    (entries.map Prod.fst).Perm (entries'.map Prod.fst) := by
  cases same with
  | dir names => exact names

theorem children (same : Reordered (.dir entries) (.dir entries')) (member : (name, node) ∈ entries)
    (member' : (name, node') ∈ entries') : Reordered node node' := by
  cases same with
  | dir _ children => exact children name node node' member member'

theorem symm (same : Reordered node node') : Reordered node' node := by
  induction same with
  | file contents => exact .file contents
  | dir names _ ih => exact .dir names.symm fun name a b there there' => ih name b a there' there

theorem isDir_eq (same : Reordered node node') : node'.isDir = node.isDir := by
  cases same <;> rfl

theorem exists_child (same : Reordered (.dir entries) (.dir entries'))
    (member : (name, node) ∈ entries) :
    ∃ node', (name, node') ∈ entries' ∧ Reordered node node' := by
  have named := same.names.subset (List.mem_map_of_mem (f := Prod.fst) member)
  obtain ⟨⟨name, node'⟩, member', rfl⟩ := List.mem_map.mp named
  exact ⟨node', member', same.children member member'⟩

theorem wellFormed (same : Reordered node node') (formed : node.WellFormed) : node'.WellFormed := by
  induction same with
  | file contents => exact formed
  | @dir entries entries' names children ih =>
    have there {name : RawText} {node' : FileNode} (member : (name, node') ∈ entries') :
        ∃ node, (name, node) ∈ entries := by
      have named := names.symm.subset (List.mem_map_of_mem (f := Prod.fst) member)
      obtain ⟨⟨name, node⟩, found, rfl⟩ := List.mem_map.mp named
      exact ⟨node, found⟩
    refine .dir (names.nodup_iff.mp formed.once) (fun entry member => ?_) fun entry member => ?_
    · obtain ⟨node, found⟩ := there member
      have named := formed.named found
      exact named
    · obtain ⟨node, found⟩ := there member
      exact ih entry.1 node entry.2 found member (formed.child found)

end Reordered

/-! ## Deciding -/

theorem reordered_dir_iff : Reordered (.dir entries) (.dir entries') ↔
    (entries.map Prod.fst).Perm (entries'.map Prod.fst) ∧
      ∀ entry ∈ entries, ∀ entry' ∈ entries', entry.1 = entry'.1 → Reordered entry.2 entry'.2 := by
  refine ⟨fun same => ⟨same.names, fun entry member entry' member' named => ?_⟩, fun same => ?_⟩
  · have member' : (entry.1, entry'.2) ∈ entries' := named ▸ member'
    exact same.children member member'
  · exact .dir same.1 fun name a b member member' => same.2 (name, a) member (name, b) member' rfl

mutual

def decideReordered : (node node' : FileNode) → Decidable (Reordered node node')
  | file contents, file contents' =>
    if same : contents = contents' then isTrue (same ▸ .file contents)
    else isFalse fun reordered => by cases reordered; exact same rfl
  | file _, dir _ => isFalse nofun
  | dir _, file _ => isFalse nofun
  | dir entries, dir entries' =>
    have := decideChildrenReordered entries entries'
    decidable_of_iff _ reordered_dir_iff.symm

def decideChildrenReordered : (entries entries' : List (RawText × FileNode)) →
    Decidable (∀ entry ∈ entries, ∀ entry' ∈ entries', entry.1 = entry'.1 →
      Reordered entry.2 entry'.2)
  | [], _ => isTrue nofun
  | (_, node) :: entries, entries' =>
    have := decideReordered node
    have := decideChildrenReordered entries entries'
    decidable_of_iff _ List.forall_mem_cons.symm

end

instance (node node' : FileNode) : Decidable (Reordered node node') := decideReordered node node'

/-! ## One entry -/

theorem Reordered.child {e : IoError} (same : Reordered (.dir entries) (.dir entries'))
    (formed : (FileNode.dir entries).WellFormed) (name : RawText) :
    Alike Reordered (child (.error e) entries name) (child (.error e) entries' name) := by
  have formed' := same.wellFormed formed
  unfold FileNode.child
  split
  · exact .error _
  · cases found : entries.lookup name with
    | some node =>
      have member := (lookup_eq_some_iff formed.once).mp found
      obtain ⟨node', member', below⟩ := same.exists_child member
      rw [(lookup_eq_some_iff formed'.once).mpr member']
      exact .ok below
    | none =>
      cases found' : entries'.lookup name with
      | none => exact .error e
      | some node' =>
        have member' := (lookup_eq_some_iff formed'.once).mp found'
        obtain ⟨node, member, -⟩ := same.symm.exists_child member'
        rw [(lookup_eq_some_iff formed.once).mpr member] at found
        cases found

theorem mem_put_self (name : RawText) (node : FileNode) (entries : List (RawText × FileNode)) :
    (name, node) ∈ put name node entries := by
  induction entries with
  | nil => exact List.mem_singleton_self _
  | cons first entries ih =>
    unfold put
    split
    · exact List.mem_cons_self
    · exact List.mem_cons_of_mem _ ih

theorem mem_names_put {other : RawText} : other ∈ (put name node entries).map Prod.fst ↔
    other = name ∨ other ∈ entries.map Prod.fst := by
  induction entries with
  | nil => simp [put]
  | cons first entries ih =>
    unfold put
    split
    · simp_all
    · rw [List.map_cons, List.mem_cons, ih, List.map_cons, List.mem_cons, or_left_comm]

theorem Reordered.put (same : Reordered (.dir entries) (.dir entries'))
    (formed : (FileNode.dir entries).WellFormed) (new : Reordered node node') :
    Reordered (.dir (put name node entries)) (.dir (put name node' entries')) := by
  have once : ((FileNode.put name node entries).map Prod.fst).Nodup := nodup_put formed.once
  have once' : ((FileNode.put name node' entries').map Prod.fst).Nodup :=
    nodup_put (same.wellFormed formed).once
  refine .dir ((List.perm_ext_iff_of_nodup once once').mpr fun other => ?_) ?_
  · rw [mem_names_put, mem_names_put, same.names.mem_iff]
  · intro other a b member member'
    by_cases here : other = name
    · subst here
      rw [eq_of_mem_of_mem once member (mem_put_self _ _ _),
        eq_of_mem_of_mem once' member' (mem_put_self _ _ _)]
      exact new
    · have old := (mem_put member).resolve_left fun same => here (congrArg Prod.fst same)
      have old' := (mem_put member').resolve_left fun same => here (congrArg Prod.fst same)
      exact same.children old old'

end FileNode

/-! ## Places -/

namespace Place

structure Reordered (place place' : Place) : Prop where
  formed : place.WellFormed
  node : place.node.Reordered place'.node
  above : List.Forall₂ (fun level level' => level.1 = level'.1 ∧
    (FileNode.dir level.2).Reordered (.dir level'.2)) place.above place'.above

variable {place place' : Place} {e : IoError}

theorem Reordered.up (same : place.Reordered place') : place.up.Reordered place'.up := by
  have formed := same.formed.up
  obtain ⟨node, above⟩ := place
  obtain ⟨node', above'⟩ := place'
  obtain ⟨start, below, higher⟩ := same
  cases higher with
  | nil => exact ⟨start, below, .nil⟩
  | @cons level level' rest rest' pair higher =>
    obtain ⟨name, entries⟩ := level
    obtain ⟨name', entries'⟩ := level'
    obtain ⟨rfl, dir⟩ := pair
    exact ⟨formed, dir.put (start.above _ List.mem_cons_self).2 below, higher⟩

theorem Reordered.step (same : place.Reordered place') (field : Bytes) :
    Alike Reordered (step (.error e) place field) (step (.error e) place' field) := by
  have up := same.up
  have formed {next : Place} (stepped : Place.step (.error e) place field = .ok next) :
      next.WellFormed := same.formed.step stepped
  obtain ⟨node, above⟩ := place
  obtain ⟨node', above'⟩ := place'
  obtain ⟨start, below, higher⟩ := same
  simp only at below higher
  unfold Place.step at formed ⊢
  cases below with
  | file contents => exact .error _
  | @dir entries entries' names children =>
    have dir := FileNode.Reordered.dir names children
    by_cases stay : field = [] ∨ field = [dot]
    · simp only [if_pos stay]
      exact .ok ⟨start, dir, higher⟩
    · by_cases out : field = [dot, dot]
      · simp only [if_neg stay, if_pos out]
        exact .ok up
      · simp only [if_neg stay, if_neg out] at formed ⊢
        have child := dir.child (e := e) start.node (⟨field⟩)
        generalize FileNode.child (.error e) entries (⟨field⟩) = found at child formed ⊢
        generalize FileNode.child (.error e) entries' (⟨field⟩) = found' at child ⊢
        cases child with
        | ok below => exact .ok ⟨formed rfl, below, .cons ⟨rfl, dir⟩ higher⟩
        | error failure => exact .error failure

theorem Reordered.walk (same : place.Reordered place') (fields : List Bytes) :
    Alike Reordered (walk (.error e) place fields) (walk (.error e) place' fields) := by
  induction fields generalizing place place' with
  | nil => exact .ok same
  | cons field fields ih => exact (same.step field).bind fun _ _ next => ih next

end Place

/-! ## Trees -/

namespace FileTree

structure Reordered (tree tree' : FileTree) : Prop where
  formed : tree.WellFormed
  mount_eq : tree'.mount = tree.mount
  root : Alike FileNode.Reordered tree.root tree'.root
  failAlike : tree.FailAlike tree'

namespace Reordered

variable {tree tree' : FileTree}

theorem symm (same : tree.Reordered tree') : tree'.Reordered tree := by
  obtain ⟨mount, root, failing⟩ := tree
  obtain ⟨mount', root', failing'⟩ := tree'
  obtain ⟨formed, rfl, roots, alike⟩ := same
  cases roots with
  | ok node =>
    refine ⟨?_, rfl, .ok node.symm, alike.symm⟩
    rintro _ ⟨⟩
    exact node.wellFormed (formed _ rfl)
  | error e => exact ⟨nofun, rfl, .error e, alike.symm⟩

theorem top (same : tree.Reordered tree') : Alike Place.Reordered tree.top tree'.top := by
  obtain ⟨mount, root, failing⟩ := tree
  obtain ⟨mount', root', failing'⟩ := tree'
  obtain ⟨formed, rfl, roots, -⟩ := same
  cases roots with
  | ok node => exact .ok ⟨.top (formed _ rfl), node, .nil⟩
  | error e => exact .error e

theorem placeAt (same : tree.Reordered tree') (path : Path) :
    Alike Place.Reordered (tree.placeAt path) (tree'.placeAt path) := by
  have fields : tree'.fields? path = tree.fields? path := by
    rw [fields?, same.mount_eq, fields?]
  unfold FileTree.placeAt
  rw [fields]
  split
  · exact same.top.bind fun _ _ top => top.walk _
  · exact Place.Reordered.walk ⟨.top wellFormed_empty, .refl wellFormed_empty, .nil⟩ _

theorem lookup (same : tree.Reordered tree') (path : Path) :
    Alike (fun node node' => node.WellFormed ∧ node.Reordered node')
      (tree.lookup path) (tree'.lookup path) := by
  rw [lookup_eq, lookup_eq]
  exact (Alike.refl (accept path)).bind fun _ _ _ =>
    (same.placeAt path).map fun _ _ place => ⟨place.formed.node, place.node⟩

theorem readDir (same : tree.Reordered tree') (path : Path) :
    Alike (fun entries entries' => (FileNode.dir entries).WellFormed ∧
        FileNode.Reordered (.dir entries) (.dir entries'))
      (tree.readDir path) (tree'.readDir path) := by
  refine (same.lookup path).bind fun _ _ ⟨formed, node⟩ => ?_
  cases node with
  | file contents => exact .error _
  | dir names children =>
    have alike := same.failAlike path
    cases broken : tree.failing path with
    | none =>
      rw [broken, Option.map_none, Option.map_eq_none_iff] at alike
      simp only [alike]
      exact .ok ⟨formed, .dir names children⟩
    | some failure =>
      rw [broken, Option.map_some] at alike
      obtain ⟨failure', broken', cause⟩ := Option.map_eq_some_iff.mp alike
      simp only [broken', cause]
      exact .error _

theorem fileContents_eq (same : tree.Reordered tree') (path : Path) :
    tree'.fileContents path = tree.fileContents path := by
  refine ((same.lookup path).bind_eq fun _ _ ⟨_, node⟩ => ?_).symm
  cases node <;> rfl

theorem openFile_eq (same : tree.Reordered tree') (path : Path) :
    tree'.openFile path = tree.openFile path := by
  refine ((same.lookup path).bind_eq fun _ _ ⟨_, node⟩ => ?_).symm
  cases node <;> rfl

end Reordered
end FileTree
end PartitionLog
