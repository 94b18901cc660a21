import PartitionLog.Proofs.Except
import PartitionLog.Proofs.Path

/-!
# Well-formed file trees

In a tree as a file system holds it, a directory has no two entries of one name, and every name can
be one. A walk through such a tree finds such nodes only: `FileTree.WellFormed.lookup`.
-/
namespace PartitionLog

namespace FileNode

variable {entries : List (RawText × FileNode)} {name : RawText} {node : FileNode}

inductive WellFormed : FileNode → Prop
  | file (contents : Bytes) : WellFormed (.file contents)
  | dir {entries : List (RawText × FileNode)} (once : (entries.map Prod.fst).Nodup)
      (named : ∀ entry ∈ entries, IsFileName entry.1)
      (children : ∀ entry ∈ entries, WellFormed entry.2) : WellFormed (.dir entries)

theorem lookup_eq_some_iff (once : (entries.map Prod.fst).Nodup) :
    entries.lookup name = some node ↔ (name, node) ∈ entries := by
  induction entries with
  | nil => simp
  | cons entry entries ih =>
    obtain ⟨name', node'⟩ := entry
    obtain ⟨other, once⟩ := List.nodup_cons.mp once
    by_cases same : name = name'
    · subst same
      have elsewhere : (name, node) ∉ entries := fun member =>
        other (List.mem_map.mpr ⟨_, member, rfl⟩)
      simp [elsewhere, eq_comm]
    · simp [List.lookup_cons, same, beq_eq_false_iff_ne.mpr same, ih once]

theorem mem_of_child {e : IoError} (found : child (.error e) entries name = .ok node) :
    (name, node) ∈ entries := by
  unfold child at found
  split at found
  · cases found
  · split at found
    · rename_i there
      obtain ⟨front, back, rfl, -⟩ := List.lookup_eq_some_iff.mp there
      cases found
      simp
    · cases found

theorem mem_put {entry : RawText × FileNode} (member : entry ∈ put name node entries) :
    entry = (name, node) ∨ entry ∈ entries := by
  induction entries with
  | nil => exact .inl (List.mem_singleton.mp member)
  | cons first entries ih =>
    unfold put at member
    split at member
    · cases List.mem_cons.mp member with
      | inl new => exact .inl new
      | inr old => exact .inr (List.mem_cons_of_mem _ old)
    · cases List.mem_cons.mp member with
      | inl same => exact .inr (same ▸ List.mem_cons_self)
      | inr later => exact (ih later).imp_right (List.mem_cons_of_mem _)

theorem nodup_put (once : (entries.map Prod.fst).Nodup) :
    ((put name node entries).map Prod.fst).Nodup := by
  induction entries with
  | nil => simp [put]
  | cons first entries ih =>
    obtain ⟨name', node'⟩ := first
    obtain ⟨other, rest⟩ := List.nodup_cons.mp once
    unfold put
    split
    · rename_i same
      exact same ▸ once
    · rename_i differs
      refine List.nodup_cons.mpr ⟨fun among => ?_, ih rest⟩
      obtain ⟨entry, member, same⟩ := List.mem_map.mp among
      cases mem_put member with
      | inl new => exact differs ((congrArg Prod.fst new).symm.trans same)
      | inr old => exact other (same ▸ List.mem_map_of_mem old)

namespace WellFormed

theorem once (tree : (FileNode.dir entries).WellFormed) : (entries.map Prod.fst).Nodup := by
  cases tree with
  | dir once => exact once

theorem named (tree : (FileNode.dir entries).WellFormed) {entry : RawText × FileNode}
    (member : entry ∈ entries) : IsFileName entry.1 := by
  cases tree with
  | dir _ named => exact named entry member

theorem child (tree : (FileNode.dir entries).WellFormed) {entry : RawText × FileNode}
    (member : entry ∈ entries) : entry.2.WellFormed := by
  cases tree with
  | dir _ _ children => exact children entry member

theorem put (tree : (FileNode.dir entries).WellFormed) (named : IsFileName name)
    (new : node.WellFormed) : (FileNode.dir (FileNode.put name node entries)).WellFormed := by
  refine .dir (nodup_put tree.once) (fun entry member => ?_) fun entry member => ?_
  · cases mem_put member with
    | inl put => exact put ▸ named
    | inr old => exact tree.named old
  · cases mem_put member with
    | inl put => exact put ▸ new
    | inr old => exact tree.child old

end WellFormed

theorem wellFormed_dir_iff :
    (FileNode.dir entries).WellFormed ↔ (entries.map Prod.fst).Nodup ∧
      (∀ entry ∈ entries, IsFileName entry.1) ∧ ∀ entry ∈ entries, entry.2.WellFormed :=
  ⟨fun tree => ⟨tree.once, fun _ => tree.named, fun _ => tree.child⟩,
    fun ⟨once, named, children⟩ => .dir once named children⟩

mutual

def decideWellFormed : (node : FileNode) → Decidable node.WellFormed
  | file contents => isTrue (.file contents)
  | dir entries =>
    have := decideChildren entries
    decidable_of_iff _ wellFormed_dir_iff.symm

def decideChildren : (entries : List (RawText × FileNode)) →
    Decidable (∀ entry ∈ entries, entry.2.WellFormed)
  | [] => isTrue nofun
  | (_, node) :: entries =>
    have := decideWellFormed node
    have := decideChildren entries
    decidable_of_iff _ List.forall_mem_cons.symm

end

instance (node : FileNode) : Decidable node.WellFormed := decideWellFormed node

end FileNode

/-! ## Places -/

namespace Place

variable {place place' : Place} {e : IoError}

structure WellFormed (place : Place) : Prop where
  node : place.node.WellFormed
  above : ∀ level ∈ place.above, IsFileName level.1 ∧ (FileNode.dir level.2).WellFormed

theorem WellFormed.up (start : place.WellFormed) : place.up.WellFormed := by
  unfold Place.up
  split
  · exact start
  · rename_i name entries above split
    have levels := split ▸ start.above
    obtain ⟨named, dir⟩ := levels _ List.mem_cons_self
    refine ⟨dir.put named start.node, fun level member => ?_⟩
    exact levels level (List.mem_cons_of_mem _ member)

theorem step_eq_ok {field : Bytes} (stepped : step (.error e) place field = .ok place') :
    place' = place ∨ place' = place.up ∨ ∃ entries node, place.node = .dir entries ∧
      (⟨field⟩, node) ∈ entries ∧
      place' = ⟨node, (⟨field⟩, entries) :: place.above⟩ := by
  unfold step at stepped
  split at stepped
  · cases stepped
  · rename_i entries dir
    split at stepped
    · exact .inl (Except.ok.inj stepped).symm
    · split at stepped
      · exact .inr (.inl (Except.ok.inj stepped).symm)
      · obtain ⟨node, found, next⟩ := bind_eq_ok_iff.mp stepped
        have member := FileNode.mem_of_child found
        exact .inr (.inr ⟨entries, node, dir, member, (Except.ok.inj next).symm⟩)

theorem WellFormed.step {field : Bytes} (start : place.WellFormed)
    (stepped : step (.error e) place field = .ok place') : place'.WellFormed := by
  obtain rfl | rfl | ⟨entries, node, dir, member, rfl⟩ := step_eq_ok stepped
  · exact start
  · exact start.up
  · have tree := dir ▸ start.node
    refine ⟨tree.child member, fun level among => ?_⟩
    cases List.mem_cons.mp among with
    | inl last => exact last ▸ ⟨tree.named member, tree⟩
    | inr higher => exact start.above level higher

theorem WellFormed.walk {fields : List Bytes} (start : place.WellFormed)
    (walked : walk (.error e) place fields = .ok place') : place'.WellFormed := by
  induction fields generalizing place with
  | nil => exact Except.ok.inj walked ▸ start
  | cons field fields ih =>
    obtain ⟨next, stepped, walked⟩ := bind_eq_ok_iff.mp walked
    exact ih (start.step stepped) walked

theorem WellFormed.top {node : FileNode} (tree : node.WellFormed) : Place.WellFormed ⟨node, []⟩ :=
  ⟨tree, nofun⟩

end Place

/-! ## Trees -/

namespace FileTree

def WellFormed (tree : FileTree) : Prop := ∀ node, tree.root = .ok node → node.WellFormed

theorem wellFormed_of_root {tree : FileTree} {node : FileNode} (root : tree.root = .ok node)
    (formed : node.WellFormed) : tree.WellFormed := by
  intro node' root'
  cases root.symm.trans root'
  exact formed

theorem wellFormed_empty : (FileNode.dir []).WellFormed := .dir .nil nofun nofun

/-- Where a path leads in a tree, if anywhere. -/
def placeAt (tree : FileTree) (path : Path) : Except IoError Place :=
  match tree.fields? path with
  | some fields => tree.top >>= (·.walk (.error .notFound) fields)
  | none => Place.walk (.error .notFound) { node := .dir [] } path.fields

theorem lookup_eq (tree : FileTree) (path : Path) :
    tree.lookup path = accept path >>= fun _ => Place.node <$> tree.placeAt path := by
  unfold lookup placeAt
  cases tree.fields? path with
  | none => simp only [bind_pure_comp]
  | some fields => simp only [bind_pure_comp, map_bind]

theorem lookup_eq_ok_iff {tree : FileTree} {path : Path} {node : FileNode} :
    tree.lookup path = .ok node ↔
      accept path = .ok () ∧ ∃ place, tree.placeAt path = .ok place ∧ place.node = node := by
  rw [lookup_eq, bind_eq_ok_iff]
  constructor
  · rintro ⟨_, accepted, found⟩
    exact ⟨accepted, map_eq_ok_iff.mp found⟩
  · rintro ⟨accepted, found⟩
    exact ⟨(), accepted, map_eq_ok_iff.mpr found⟩

theorem WellFormed.placeAt {tree : FileTree} {path : Path} {place : Place}
    (formed : tree.WellFormed) (found : tree.placeAt path = .ok place) : place.WellFormed := by
  unfold FileTree.placeAt at found
  split at found
  · obtain ⟨top, root, walked⟩ := bind_eq_ok_iff.mp found
    obtain ⟨node, there, root⟩ := bind_eq_ok_iff.mp root
    rw [← Except.ok.inj root] at walked
    exact (Place.WellFormed.top (formed node there)).walk walked
  · exact (Place.WellFormed.top wellFormed_empty).walk found

theorem WellFormed.lookup {tree : FileTree} {path : Path} {node : FileNode}
    (formed : tree.WellFormed) (found : tree.lookup path = .ok node) : node.WellFormed := by
  obtain ⟨-, place, there, rfl⟩ := lookup_eq_ok_iff.mp found
  exact (formed.placeAt there).node

/-! ## Listings -/

variable {tree tree' : FileTree} {path : Path} {entries : List (RawText × FileNode)}

/-- The same listings break off, for the same cause, if not behind as many entries. -/
def FailAlike (tree tree' : FileTree) : Prop :=
  ∀ path, (tree'.failing path).map ReadFailure.cause = (tree.failing path).map ReadFailure.cause

theorem FailAlike.symm (alike : tree.FailAlike tree') : tree'.FailAlike tree :=
  fun path => (alike path).symm

theorem FailAlike.readFailure? (alike : tree.FailAlike tree') (path : Path) :
    (tree'.readFailure? path).map ReadFailure.cause =
      (tree.readFailure? path).map ReadFailure.cause := by
  unfold FileTree.readFailure?
  split
  · exact alike path
  · rfl

theorem FailAlike.readFailure?_eq_none_iff (alike : tree.FailAlike tree') :
    tree'.readFailure? path = none ↔ tree.readFailure? path = none := by
  rw [← Option.map_eq_none_iff (f := ReadFailure.cause), alike.readFailure?, Option.map_eq_none_iff]

theorem readFailure?_eq_none_iff :
    tree.readFailure? path = none ↔ accept path = .ok () ∧ tree.failing path = none := by
  unfold readFailure?
  cases accept path with
  | ok _ => simp
  | error e => simp

theorem readDir_of_lookup (there : tree.lookup path = .ok (.dir entries)) :
    tree.readDir path = match tree.failing path with
      | none => .ok entries
      | some failure => .error failure.cause := by
  rw [readDir, there]
  rfl

end FileTree
end PartitionLog
