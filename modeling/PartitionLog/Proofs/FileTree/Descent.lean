import PartitionLog.Proofs.FileTree.WellFormed
import PartitionLog.Proofs.Partition.Visited

/-!
# The way down from a directory

The path of what is below a directory, made name by name, leads to what is there: from the place
where the path of the directory leads, a walk follows the names (`placeAt_descend`). So a directory
that a walk through the nodes comes to is the one that its path leads to: `lookup_descend`.
-/
namespace PartitionLog

namespace FileTree

variable {tree : FileTree} {path : Path} {name : RawText} {names : List RawText}
  {fields : List Bytes}

/-! ## Fields -/

inductive Below (mount : Bytes) : Bytes → List Bytes → Prop
  | here : Below mount mount []
  | under (rest : Bytes) : Below mount (mount ++ slash :: rest) (rest.splitOn slash)
  | within {rest : Bytes} (closed : mount.getLast? = some slash) (nonempty : rest ≠ [])
    (plain : rest.head? ≠ some slash) : Below mount (mount ++ rest) (rest.splitOn slash)

theorem fieldsBelow_eq_some_iff {mount text : Bytes} :
    fieldsBelow mount text = some fields ↔ Below mount text fields := by
  constructor
  · intro found
    unfold fieldsBelow at found
    split at found
    · rename_i starts
      obtain ⟨rest, rfl⟩ := List.isPrefixOf_iff_prefix.mp starts
      rw [List.drop_left] at found
      split at found
      · obtain rfl := Option.some.inj found
        rw [List.append_nil]
        exact .here
      · rename_i first rest
        split at found
        · rename_i rooted
          obtain rfl := Option.some.inj found
          subst rooted
          exact .under rest
        · rename_i plain
          split at found
          · rename_i closed
            obtain rfl := Option.some.inj found
            exact .within closed (List.cons_ne_nil _ _) fun head => plain (Option.some.inj head)
          · cases found
    · cases found
  · intro below
    cases below with
    | here => simp [fieldsBelow]
    | under rest => simp [fieldsBelow]
    | @within rest closed nonempty plain =>
      have starts : mount.isPrefixOf (mount ++ rest) = true :=
        List.isPrefixOf_iff_prefix.mpr (List.prefix_append _ _)
      obtain ⟨first, rest, rfl⟩ := List.exists_cons_of_ne_nil nonempty
      have other : first ≠ slash := fun rooted => plain (congrArg some rooted)
      rw [fieldsBelow, if_pos starts, List.drop_left]
      simp only [if_neg other, if_pos closed]

theorem front_of_append {mount rest : Bytes} (text : path.text.bytes = mount ++ rest)
    (nonempty : rest ≠ []) : path.front = mount ++ (Path.mk ⟨rest⟩).front := by
  have last : path.text.bytes.getLast? = rest.getLast? := by
    rw [text, List.getLast?_append]
    cases ends : rest.getLast? with
    | none => exact absurd (List.getLast?_eq_none_iff.mp ends) nonempty
    | some last => rfl
  have whole : path.text.bytes ≠ [] := text ▸ List.append_ne_nil_of_right_ne_nil _ nonempty
  rw [Path.front, Path.front]
  by_cases closed : rest.getLast? = some slash
  · rw [if_pos (.inr (last.trans closed)), if_pos (.inr closed), text]
  · rw [if_neg (not_or.mpr ⟨whole, last ▸ closed⟩), if_neg (not_or.mpr ⟨nonempty, closed⟩), text,
      List.append_assoc]

theorem front_slash (rest : Bytes) :
    (Path.mk ⟨slash :: rest⟩).front = slash :: (Path.mk ⟨rest⟩).front := by
  cases rest with
  | nil => rfl
  | cons first rest =>
    have same : (Path.mk ⟨slash :: first :: rest⟩).text.bytes = [slash] ++ first :: rest := rfl
    exact front_of_append same (List.cons_ne_nil _ _)

/-- The fields below a mount lead a child as the fields of a whole path do. -/
theorem Below.join {mount text : Bytes} (below : Below mount text fields)
    (path_text : path.text.bytes = text) (nonempty : path.text.bytes ≠ [])
    (plain : IsPlainName name) :
    ∃ front, Below mount (path.join name).text.bytes (front ++ [name.bytes]) ∧
      Path.Leads fields front := by
  have child : (path.join name).text.bytes = path.front ++ name.bytes := Path.bytes_join plain
  have single : name.bytes.splitOn slash = [name.bytes] := List.splitOn_eq_singleton plain.no_slash
  cases below with
  | here =>
    refine ⟨[], ?_, .inl rfl⟩
    rw [child, List.nil_append, ← single]
    obtain ⟨empty, -⟩ | ⟨start, front, same | closed⟩ := path.front_cases
    · exact absurd empty nonempty
    · rw [front, ← path_text, same, List.append_assoc, List.singleton_append]
      exact .under name.bytes
    · rw [front, ← path_text, closed]
      refine .within List.getLast?_concat plain.nonempty fun head => ?_
      exact plain.no_slash (List.mem_of_mem_head? head)
  | under rest =>
    obtain ⟨front, fields, leads⟩ := (Path.mk ⟨rest⟩).fields_join plain
    rw [Path.fields] at leads
    refine ⟨front, ?_, leads⟩
    rw [← fields, child, front_of_append path_text (List.cons_ne_nil _ _), front_slash,
      List.append_assoc, List.cons_append, ← Path.bytes_join plain]
    exact .under _
  | @within rest closed some rest_plain =>
    obtain ⟨front, fields, leads⟩ := (Path.mk ⟨rest⟩).fields_join plain
    rw [Path.fields] at leads
    refine ⟨front, ?_, leads⟩
    have starts : rest <+: (Path.mk ⟨rest⟩).front := Path.text_isPrefix_front ⟨⟨rest⟩⟩
    obtain ⟨more, split⟩ := starts
    rw [← fields, child, front_of_append path_text some, List.append_assoc,
      ← Path.bytes_join plain]
    refine .within closed ?_ ?_
    · rw [Path.bytes_join plain]
      exact List.append_ne_nil_of_right_ne_nil _ plain.nonempty
    · rwa [Path.bytes_join plain, ← split, List.append_assoc, List.head?_append_of_ne_nil _ some]

theorem fields?_join (nonempty : path.text.bytes ≠ []) (plain : IsPlainName name)
    (inside : tree.fields? path = some fields) :
    ∃ front, tree.fields? (path.join name) = some (front ++ [name.bytes]) ∧
      Path.Leads fields front := by
  obtain ⟨front, below, leads⟩ := (fieldsBelow_eq_some_iff.mp inside).join rfl nonempty plain
  exact ⟨front, fieldsBelow_eq_some_iff.mpr below, leads⟩

theorem fields?_descend (nonempty : path.text.bytes ≠ []) (plain : ∀ name ∈ names, IsPlainName name)
    (inside : tree.fields? path = some fields) :
    ∃ front, tree.fields? (path.descend names) = some (front ++ names.map RawText.bytes) ∧
      Path.Leads fields front :=
  Path.descend_of_join fields?_join nonempty plain inside

end FileTree

/-! ## Walks -/

theorem FileNode.child_of_mem {missing : Except IoError FileNode}
    {entries : List (RawText × FileNode)} {name : RawText} {node : FileNode}
    (formed : (FileNode.dir entries).WellFormed) (member : (name, node) ∈ entries) :
    child missing entries name = .ok node := by
  rw [child, if_neg (Nat.not_lt.mpr (formed.named member).short),
    (lookup_eq_some_iff formed.once).mpr member]

namespace Place

variable {missing : Except IoError FileNode} {place place' : Place}
  {entries found : List (RawText × FileNode)} {above : List (RawText × List (RawText × FileNode))}
  {name : RawText} {names : List RawText} {node : FileNode}

theorem walk_append (missing : Except IoError FileNode) (place : Place)
    (fields fields' : List Bytes) :
    place.walk missing (fields ++ fields') =
      place.walk missing fields >>= fun next => next.walk missing fields' :=
  List.foldlM_append

/-- An empty field at the end asks for a directory, and stays there. -/
theorem walk_of_leads {fields front : List Bytes} (leads : Path.Leads fields front)
    (walked : place.walk missing fields = .ok place') : place.walk missing front = .ok place' := by
  obtain rfl | rfl := leads
  · exact walked
  · rw [walk_append] at walked
    obtain ⟨next, before, last⟩ := bind_eq_ok_iff.mp walked
    rw [before]
    have stayed : next.step missing [] = .ok place' := by simpa [walk] using last
    unfold step at stayed
    split at stayed
    · cases stayed
    · rw [if_pos (.inl rfl)] at stayed
      exact stayed

theorem step_of_plain (plain : IsPlainName name) (dir : place.node = .dir entries) :
    place.step missing name.bytes =
      FileNode.child missing entries name >>= fun node =>
        .ok ⟨node, (name, entries) :: place.above⟩ := by
  have here : ¬ (name.bytes = [] ∨ name.bytes = [dot]) :=
    not_or.mpr ⟨plain.nonempty, plain.ne_here⟩
  simp only [step, dir, if_neg here, if_neg plain.ne_up]
  rfl

theorem step_of_mem (formed : (FileNode.dir entries).WellFormed) (member : (name, node) ∈ entries) :
    (Place.mk (.dir entries) above).step missing name.bytes =
      .ok ⟨node, (name, entries) :: above⟩ := by
  rw [step_of_plain (formed.named member).plain rfl, FileNode.child_of_mem formed member]
  rfl

theorem walk_dirAt (missing : Except IoError FileNode)
    (above : List (RawText × List (RawText × FileNode)))
    (lower : FileNode.DirAt entries names found)
    (formed : (FileNode.dir entries).WellFormed) :
    ∃ above', (Place.mk (.dir entries) above).walk missing (names.map RawText.bytes) =
      .ok ⟨.dir found, above'⟩ := by
  induction lower generalizing above with
  | here => exact ⟨above, rfl⟩
  | @down entries inner found name names member lower ih =>
    obtain ⟨above', walked⟩ := ih ((name, entries) :: above) (formed.child member)
    refine ⟨above', ?_⟩
    rw [List.map_cons, walk, List.foldlM_cons, step_of_mem formed member]
    exact walked

/-- From an empty directory there is no way on. -/
theorem walk_empty {e : IoError} {fields : List Bytes}
    (walked : (Place.mk (.dir []) []).walk (.error e) fields = .ok place) :
    place = ⟨.dir [], []⟩ := by
  induction fields with
  | nil => exact (Except.ok.inj walked).symm
  | cons field fields ih =>
    obtain ⟨next, stepped, walked⟩ := bind_eq_ok_iff.mp walked
    obtain rfl | rfl | ⟨entries, node, dir, member, -⟩ := step_eq_ok stepped
    · exact ih walked
    · exact ih walked
    · cases dir
      cases member

end Place

/-! ## Look-up -/

namespace FileTree

variable {tree : FileTree} {path : Path} {names : List RawText} {place : Place}
  {top found : List (RawText × FileNode)}

theorem placeAt_descend (formed : tree.WellFormed) (accepted : accept path = .ok ())
    (there : tree.placeAt path = .ok place) (dir : place.node = .dir top)
    (lower : FileNode.DirAt top names found) :
    ∃ above, tree.placeAt (path.descend names) = .ok ⟨.dir found, above⟩ := by
  have top_formed : (FileNode.dir top).WellFormed := dir ▸ (formed.placeAt there).node
  have plain : ∀ name ∈ names, IsPlainName name := fun name member =>
    ((lower.wellFormed top_formed).2 name member).plain
  obtain ⟨-, nonempty, -⟩ := accept_eq_ok_iff.mp accepted
  obtain ⟨node, above⟩ := place
  obtain rfl : node = .dir top := dir
  have whole := there
  unfold placeAt at there
  split at there
  · rename_i fields inside
    obtain ⟨front, below, leads⟩ := fields?_descend nonempty plain inside
    obtain ⟨start, root, walked⟩ := bind_eq_ok_iff.mp there
    obtain ⟨above', lower⟩ := Place.walk_dirAt (.error .notFound) above lower top_formed
    have front_walked := Place.walk_of_leads leads walked
    refine ⟨above', ?_⟩
    simp only [placeAt, below]
    refine bind_eq_ok_iff.mpr ⟨start, root, ?_⟩
    rw [Place.walk_append, front_walked]
    exact lower
  · -- Away from the mount there is nothing to go down to.
    obtain ⟨same, rfl⟩ := Place.mk.inj (Place.walk_empty there)
    obtain rfl := FileNode.dir.inj same
    cases lower with
    | here => exact ⟨[], whole⟩
    | down member => cases member

theorem lookup_descend (formed : tree.WellFormed) (there : tree.lookup path = .ok (.dir top))
    (lower : FileNode.DirAt top names found) (accepted : accept (path.descend names) = .ok ()) :
    tree.lookup (path.descend names) = .ok (.dir found) := by
  obtain ⟨path_accepted, place, there, dir⟩ := lookup_eq_ok_iff.mp there
  obtain ⟨above, below⟩ := placeAt_descend formed path_accepted there dir lower
  exact lookup_eq_ok_iff.mpr ⟨accepted, _, below, rfl⟩

end FileTree
end PartitionLog
