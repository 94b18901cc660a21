import PartitionLog.Proofs.FileTree.Descent
import PartitionLog.Proofs.FileTree.Directories

/-!
# Trees that grow

The path of a directory leads there by way of other directories, and it still does when the tree
has grown: places to which the same names lead stay abreast on a walk (`Abreast.walk`). So what is
made below a directory is found there again (`Bare.makeDirs_eq_ok`), and it can be made wherever
the file system has room for the names (`Bare.hasRoom_of_makeDirs`).
-/
namespace PartitionLog

/-! ## Walks in two trees -/

namespace Place

variable {top top' entries entries' inner : List (RawText × FileNode)} {e : IoError}
  {place place' next : Place} {above above' : List (RawText × List (RawText × FileNode))}
  {name : RawText} {names : List RawText}

/-- The names taken on the way down to a place, the last one first. -/
def trail (place : Place) : List RawText := place.above.map Prod.fst

/-- A directory of a tree, with the way up from it. -/
inductive InTree (top : List (RawText × FileNode)) : Place → Prop
  | top : InTree top ⟨.dir top, []⟩
  | down {entries inner : List (RawText × FileNode)} {name : RawText}
    {above : List (RawText × List (RawText × FileNode))} :
    InTree top ⟨.dir entries, above⟩ → (name, .dir inner) ∈ entries →
      InTree top ⟨.dir inner, (name, entries) :: above⟩

namespace InTree

theorem exists_dir (inside : InTree top place) :
    ∃ entries above, place = ⟨.dir entries, above⟩ := by
  cases inside with
  | top => exact ⟨_, _, rfl⟩
  | down => exact ⟨_, _, rfl⟩

theorem dirAt (inside : InTree top place) (dir : place.node = .dir entries) :
    FileNode.DirAt top place.trail.reverse entries := by
  induction inside generalizing entries with
  | top =>
    cases dir
    exact .here top
  | down _ member ih =>
    cases dir
    rw [trail, List.map_cons, List.reverse_cons]
    exact FileNode.dirAt_append_iff.mpr ⟨_, ih rfl, .down member (.here _)⟩

theorem wellFormed (inside : InTree top ⟨.dir entries, above⟩)
    (formed : (FileNode.dir top).WellFormed) : (FileNode.dir entries).WellFormed :=
  ((inside.dirAt rfl).wellFormed formed).1

/-- Going up puts back what is there. -/
theorem up (inside : InTree top place) (formed : (FileNode.dir top).WellFormed) :
    InTree top place.up ∧ place.up.trail = place.trail.tail := by
  cases inside with
  | top => exact ⟨.top, rfl⟩
  | down inside member =>
    have same := FileNode.put_of_mem (inside.wellFormed formed).once member
    simp only [Place.up, same]
    exact ⟨inside, rfl⟩

end InTree

/-- A walk that ends in a directory comes through directories only. -/
theorem isDir_of_walk {missing : Except IoError FileNode} {fields : List Bytes}
    (walked : place.walk missing fields = .ok next) (dir : next.node.isDir = true) :
    place.node.isDir = true := by
  cases fields with
  | nil => exact Except.ok.inj walked ▸ dir
  | cons field fields =>
    obtain ⟨_, stepped, -⟩ := bind_eq_ok_iff.mp walked
    unfold step at stepped
    split at stepped
    · cases stepped
    · rename_i node
      rw [node]
      rfl

/-- Places in two trees to which the same names lead. -/
structure Abreast (top top' : List (RawText × FileNode)) (place place' : Place) : Prop where
  inside : InTree top place
  inside' : InTree top' place'
  trail_eq : place'.trail = place.trail

namespace Abreast

theorem up (abreast : Abreast top top' place place') (grows : FileNode.GrowsTo top top') :
    Abreast top top' place.up place'.up := by
  obtain ⟨inside, trail⟩ := abreast.inside.up grows.formed
  obtain ⟨inside', trail'⟩ := abreast.inside'.up grows.formed'
  exact ⟨inside, inside', by rw [trail, trail', abreast.trail_eq]⟩

theorem down (abreast : Abreast top top' ⟨.dir entries, above⟩ ⟨.dir entries', above'⟩)
    (grows : FileNode.GrowsTo top top') (member : (name, .dir inner) ∈ entries) :
    ∃ inner', (name, .dir inner') ∈ entries' ∧
      Abreast top top' ⟨.dir inner, (name, entries) :: above⟩
        ⟨.dir inner', (name, entries') :: above'⟩ := by
  have lower := abreast.inside'.dirAt rfl
  rw [abreast.trail_eq] at lower
  have child := (FileNode.hasDir_concat_iff grows.formed (abreast.inside.dirAt rfl)).mpr
    ⟨inner, member⟩
  obtain ⟨inner', member'⟩ :=
    (FileNode.hasDir_concat_iff grows.formed' lower).mp (grows.keeps _ child)
  exact ⟨inner', member', .down abreast.inside member, .down abreast.inside' member',
    congrArg (name :: ·) abreast.trail_eq⟩

theorem step {field : Bytes} (abreast : Abreast top top' place place')
    (grows : FileNode.GrowsTo top top') (stepped : place.step (.error e) field = .ok next)
    (dir : next.node.isDir = true) :
    ∃ next', place'.step (.error e) field = .ok next' ∧ Abreast top top' next next' := by
  obtain ⟨entries, above, rfl⟩ := abreast.inside.exists_dir
  obtain ⟨entries', above', rfl⟩ := abreast.inside'.exists_dir
  by_cases stay : field = [] ∨ field = [dot]
  · simp only [Place.step, if_pos stay] at stepped ⊢
    exact ⟨_, rfl, Except.ok.inj stepped ▸ abreast⟩
  by_cases out : field = [dot, dot]
  · simp only [Place.step, if_neg stay, if_pos out] at stepped ⊢
    exact ⟨_, rfl, Except.ok.inj stepped ▸ abreast.up grows⟩
  · simp only [Place.step, if_neg stay, if_neg out] at stepped ⊢
    obtain ⟨node, found, there⟩ := bind_eq_ok_iff.mp stepped
    obtain rfl := Except.ok.inj there
    cases node with
    | file contents => cases dir
    | dir inner =>
      obtain ⟨inner', member', below⟩ := abreast.down grows (FileNode.mem_of_child found)
      have formed' := abreast.inside'.wellFormed grows.formed'
      exact ⟨_, bind_eq_ok_iff.mpr ⟨_, FileNode.child_of_mem formed' member', rfl⟩, below⟩

theorem walk {fields : List Bytes} (abreast : Abreast top top' place place')
    (grows : FileNode.GrowsTo top top') (walked : place.walk (.error e) fields = .ok next)
    (dir : next.node.isDir = true) :
    ∃ next', place'.walk (.error e) fields = .ok next' ∧ Abreast top top' next next' := by
  induction fields generalizing place place' with
  | nil => exact ⟨place', rfl, Except.ok.inj walked ▸ abreast⟩
  | cons field fields ih =>
    obtain ⟨middle, stepped, walked⟩ := bind_eq_ok_iff.mp walked
    obtain ⟨middle', stepped', abreast⟩ :=
      abreast.step grows stepped (isDir_of_walk walked dir)
    obtain ⟨next', walked', abreast⟩ := ih abreast walked
    exact ⟨next', bind_eq_ok_iff.mpr ⟨middle', stepped', walked'⟩, abreast⟩

end Abreast

/-! ## A directory that grows -/

/-- With a directory grows every directory above it. -/
theorem InTree.grow (inside : InTree top ⟨.dir entries, above⟩)
    (formed : (FileNode.dir top).WellFormed) (grows : FileNode.GrowsTo entries entries') :
    ∃ top' above', (Place.mk (.dir entries') above).root = .dir top' ∧
      FileNode.GrowsTo top top' ∧
      Abreast top top' ⟨.dir entries, above⟩ ⟨.dir entries', above'⟩ := by
  generalize there : Place.mk (.dir entries) above = place at inside
  induction inside generalizing entries entries' above with
  | top =>
    cases there
    exact ⟨entries', [], rfl, grows, .top, .top, rfl⟩
  | down inside member ih =>
    cases there
    obtain ⟨top', above', root, grows', abreast⟩ :=
      ih (grows.put (inside.wellFormed formed) member) rfl
    exact ⟨top', _, root, grows', .down inside member,
      .down abreast.inside' (FileNode.mem_put_self _ _ _), congrArg (_ :: ·) abreast.trail_eq⟩

/-- The fields that lead to a directory lead to it after it has grown. -/
theorem walk_grown {fields : List Bytes} (formed : (FileNode.dir top).WellFormed)
    (walked : Place.walk (.error e) ⟨.dir top, []⟩ fields = .ok ⟨.dir entries, above⟩)
    (grows : FileNode.GrowsTo entries entries') :
    ∃ top' above', (Place.mk (.dir entries') above).root = .dir top' ∧
      (FileNode.dir top').WellFormed ∧
      Place.walk (.error e) ⟨.dir top', []⟩ fields = .ok ⟨.dir entries', above'⟩ := by
  obtain ⟨_, -, start⟩ :=
    Abreast.walk ⟨.top, .top, rfl⟩ (FileNode.GrowsTo.refl formed) walked rfl
  obtain ⟨top', above', root, grows', abreast⟩ := start.inside.grow formed grows
  have start' : Abreast top top' ⟨.dir top, []⟩ ⟨.dir top', []⟩ := ⟨.top, .top, rfl⟩
  obtain ⟨next, walked', abreast'⟩ := start'.walk grows' walked rfl
  obtain ⟨found, higher, rfl⟩ := abreast'.inside'.exists_dir
  -- The walk ends under the old names, and those lead to one directory only.
  have lower := abreast'.inside'.dirAt rfl
  rw [abreast'.trail_eq, ← abreast.trail_eq] at lower
  cases lower.unique grows'.formed' (abreast.inside'.dirAt rfl)
  exact ⟨top', higher, root, grows'.formed', walked'⟩

/-! ## Making directories -/

variable {missing : Except IoError FileNode}

theorem child_of_child {node : FileNode}
    (found : FileNode.child (.error e) entries name = .ok node) :
    FileNode.child missing entries name = .ok node := by
  unfold FileNode.child at found ⊢
  split at found
  · cases found
  · rename_i short
    rw [if_neg short]
    split at found
    · exact found
    · cases found

theorem step_of_step {field : Bytes} (stepped : place.step (.error e) field = .ok next) :
    place.step missing field = .ok next := by
  unfold step at stepped ⊢
  split at stepped
  · cases stepped
  · split at stepped
    · rename_i stay
      rw [if_pos stay, stepped]
    · split at stepped
      · rename_i stay out
        rw [if_neg stay, if_pos out, stepped]
      · rename_i stay out
        obtain ⟨node, found, there⟩ := bind_eq_ok_iff.mp stepped
        rw [if_neg stay, if_neg out]
        exact bind_eq_ok_iff.mpr ⟨node, child_of_child found, there⟩

/-- What may be missing makes no difference where nothing is. -/
theorem walk_of_walk {fields : List Bytes}
    (walked : place.walk (.error e) fields = .ok next) :
    place.walk missing fields = .ok next := by
  induction fields generalizing place with
  | nil => exact walked
  | cons field fields ih =>
    obtain ⟨middle, stepped, walked⟩ := bind_eq_ok_iff.mp walked
    exact bind_eq_ok_iff.mpr ⟨middle, step_of_step stepped, ih walked⟩

theorem child_make (hollow : (FileNode.dir entries).Hollow) (name : RawText) :
    FileNode.child (.ok (.dir [])) entries name =
      if name.bytes.length ≤ FileNode.nameLimit then
        .ok (.dir (FileNode.childEntries name entries)) else .error .nameTooLong := by
  unfold FileNode.child FileNode.childEntries
  by_cases short : name.bytes.length ≤ FileNode.nameLimit
  · rw [if_neg (Nat.not_lt.mpr short), if_pos short]
    cases found : entries.lookup name with
    | none => rfl
    | some node =>
      obtain ⟨inner, rfl⟩ := (hollow.child (FileNode.mem_of_lookup found)).exists_dir
      rfl
  · rw [if_pos (Nat.lt_of_not_ge short), if_neg short]

/-- The place of the last of some names once its directory is made. -/
def madeAt : List RawText → List (RawText × FileNode) →
    List (RawText × List (RawText × FileNode)) → Place
  | [], entries, above => ⟨.dir entries, above⟩
  | name :: names, entries, above =>
    madeAt names (FileNode.childEntries name entries) ((name, entries) :: above)

theorem root_madeAt (names : List RawText) (entries : List (RawText × FileNode))
    (above : List (RawText × List (RawText × FileNode))) :
    (madeAt names entries above).root =
      (Place.mk (.dir (FileNode.addDirs names entries)) above).root := by
  induction names generalizing entries above with
  | nil => rfl
  | cons name names ih =>
    rw [madeAt, ih]
    rfl

theorem node_madeAt (names : List RawText) (entries : List (RawText × FileNode))
    (above : List (RawText × List (RawText × FileNode))) :
    ∃ found, (madeAt names entries above).node = .dir found := by
  induction names generalizing entries above with
  | nil => exact ⟨entries, rfl⟩
  | cons name names ih => exact ih _ _

theorem walk_make (hollow : (FileNode.dir entries).Hollow)
    (plain : ∀ name ∈ names, IsPlainName name) :
    Place.walk (.ok (.dir [])) ⟨.dir entries, above⟩ (names.map RawText.bytes) =
      if ∀ name ∈ names, name.bytes.length ≤ FileNode.nameLimit then
        .ok (madeAt names entries above) else .error .nameTooLong := by
  induction names generalizing entries above with
  | nil => rfl
  | cons name names ih =>
    obtain ⟨first, rest⟩ := List.forall_mem_cons.mp plain
    rw [List.map_cons, walk, List.foldlM_cons, step_of_plain first rfl, child_make hollow]
    simp only [List.forall_mem_cons]
    by_cases short : name.bytes.length ≤ FileNode.nameLimit
    · simp only [short, true_and]
      exact ih (hollow.childEntries name) rest
    · simp only [short, false_and]
      rfl

end Place

namespace FileTree

variable {tree tree' : FileTree} {base : Path} {fields : List Bytes} {names : List RawText}
  {root top : List (RawText × FileNode)} {above : List (RawText × List (RawText × FileNode))}

/-- A directory in the tree that has no file in it or below it, and that can be listed, as can what
is below it. -/
structure Bare (tree : FileTree) (base : Path) (top : List (RawText × FileNode)) : Prop where
  formed : tree.WellFormed
  inside : (tree.fields? base).isSome = true
  there : tree.lookup base = .ok (.dir top)
  listed : ∀ names, tree.failing (base.descend names) = none
  hollow : (FileNode.dir top).Hollow

/-- For the file system, directories of such names can be there. -/
structure HasRoom (base : Path) (names : List RawText) : Prop where
  no_nul : ∀ name ∈ names, 0 ∉ name.bytes
  short : ∀ name ∈ names, name.bytes.length ≤ FileNode.nameLimit
  fits : (base.descend names).text.bytes.length < pathLimit

instance (base : Path) (names : List RawText) : Decidable (HasRoom base names) :=
  decidable_of_iff ((∀ name ∈ names, 0 ∉ name.bytes) ∧
      (∀ name ∈ names, name.bytes.length ≤ FileNode.nameLimit) ∧
      (base.descend names).text.bytes.length < pathLimit)
    ⟨fun ⟨nul, short, fits⟩ => ⟨nul, short, fits⟩, fun ⟨nul, short, fits⟩ => ⟨nul, short, fits⟩⟩

theorem HasRoom.isFileName (room : HasRoom base names) (plain : ∀ name ∈ names, IsPlainName name) :
    ∀ name ∈ names, IsFileName name := by
  intro name member
  obtain ⟨nonempty, here, up, slash⟩ := plain name member
  exact ⟨nonempty, here, up, slash, room.no_nul name member, room.short name member⟩

theorem accept_descend_iff (accepted : accept base = .ok ())
    (plain : ∀ name ∈ names, IsPlainName name) :
    accept (base.descend names) = .ok () ↔ (∀ name ∈ names, 0 ∉ name.bytes) ∧
      (base.descend names).text.bytes.length < pathLimit := by
  have nul : (∀ name ∈ names, 0 ∉ name.bytes) ↔ ¬ ∃ name ∈ names, 0 ∈ name.bytes := by
    simp
  rw [accept_descend_of_plain accepted plain, nul, ← Nat.not_le]
  split
  · simp_all
  · split <;> simp_all

/-- How the path of a directory leads there from the top of the tree. -/
structure Route (tree : FileTree) (base : Path) (root top : List (RawText × FileNode))
    (above : List (RawText × List (RawText × FileNode))) (fields : List Bytes) : Prop where
  inside : tree.fields? base = some fields
  root_eq : tree.root = .ok (.dir root)
  walked : Place.walk (.error .notFound) ⟨.dir root, []⟩ fields = .ok ⟨.dir top, above⟩

theorem Route.lookup (route : Route tree base root top above fields)
    (accepted : accept base = .ok ()) : tree.lookup base = .ok (.dir top) := by
  refine lookup_eq_ok_iff.mpr ⟨accepted, ⟨.dir top, above⟩, ?_, rfl⟩
  simp only [placeAt, route.inside, FileTree.top, route.root_eq]
  exact route.walked

theorem Bare.exists_route (bare : tree.Bare base top) :
    ∃ root above fields, Route tree base root top above fields := by
  obtain ⟨fields, inside⟩ := Option.isSome_iff_exists.mp bare.inside
  obtain ⟨-, ⟨node, above⟩, there, dir⟩ := lookup_eq_ok_iff.mp bare.there
  obtain rfl : node = .dir top := dir
  simp only [placeAt, inside] at there
  obtain ⟨start, begin, walked⟩ := bind_eq_ok_iff.mp there
  obtain ⟨node, root_eq, begin⟩ := bind_eq_ok_iff.mp begin
  obtain rfl := Except.ok.inj begin
  cases node with
  | file contents => cases Place.isDir_of_walk walked rfl
  | dir root => exact ⟨root, above, fields, inside, root_eq, walked⟩

/-- The tree after directories are made below the place of a base. -/
def withDirs (tree : FileTree) (names : List RawText) (top : List (RawText × FileNode))
    (above : List (RawText × List (RawText × FileNode))) : FileTree :=
  { tree with root := .ok (Place.mk (.dir (FileNode.addDirs names top)) above).root }

theorem Route.makeDirs (route : Route tree base root top above fields)
    (nonempty : base.text.bytes ≠ []) (hollow : (FileNode.dir top).Hollow)
    (plain : ∀ name ∈ names, IsPlainName name) :
    tree.makeDirs (base.descend names) = accept (base.descend names) >>= fun _ =>
      if ∀ name ∈ names, name.bytes.length ≤ FileNode.nameLimit then
        .ok (tree.withDirs names top above) else .error .nameTooLong := by
  obtain ⟨front, below, leads⟩ := fields?_descend nonempty plain route.inside
  have front_walked : Place.walk (.ok (.dir [])) ⟨.dir root, []⟩ front = .ok ⟨.dir top, above⟩ :=
    Place.walk_of_walk (Place.walk_of_leads leads route.walked)
  rw [FileTree.makeDirs, changeableFields]
  cases accept (base.descend names) with
  | error e => rfl
  | ok _ =>
    simp only [below, FileTree.top, route.root_eq, Place.walk_append, front_walked,
      Place.walk_make hollow plain, bind, Except.bind, pure, Except.pure]
    by_cases short : ∀ name ∈ names, name.bytes.length ≤ FileNode.nameLimit
    · obtain ⟨found, dir⟩ := Place.node_madeAt names top above
      simp only [if_pos short, dir, Place.root_madeAt]
      rfl
    · simp only [if_neg short]

theorem Bare.makeDirs_eq_ok (bare : tree.Bare base top) (plain : ∀ name ∈ names, IsPlainName name)
    (room : HasRoom base names) :
    ∃ tree', tree.makeDirs (base.descend names) = .ok tree' ∧
      tree'.Bare base (FileNode.addDirs names top) := by
  obtain ⟨root, above, fields, route⟩ := bare.exists_route
  obtain ⟨accepted, -⟩ := lookup_eq_ok_iff.mp bare.there
  obtain ⟨-, nonempty, -⟩ := accept_eq_ok_iff.mp accepted
  have formed := bare.formed.lookup bare.there
  have formed' := formed.addDirs (room.isFileName plain)
  have grows : FileNode.GrowsTo top (FileNode.addDirs names top) :=
    ⟨formed, formed', fun _ lower => (FileNode.hasDir_addDirs formed).mpr (.inr lower)⟩
  obtain ⟨root', above', root_eq, root_formed, walked⟩ :=
    Place.walk_grown (bare.formed _ route.root_eq) route.walked grows
  have route' : Route (tree.withDirs names top above) base root' (FileNode.addDirs names top) above'
      fields := ⟨route.inside, congrArg Except.ok root_eq, walked⟩
  have made := route.makeDirs nonempty bare.hollow plain
  rw [(accept_descend_iff accepted plain).mpr ⟨room.no_nul, room.fits⟩] at made
  refine ⟨_, made.trans (if_pos room.short), wellFormed_of_root route'.root_eq root_formed,
    bare.inside, route'.lookup accepted, bare.listed, bare.hollow.addDirs names⟩

theorem Bare.hasRoom_of_makeDirs (bare : tree.Bare base top)
    (plain : ∀ name ∈ names, IsPlainName name)
    (made : tree.makeDirs (base.descend names) = .ok tree') : HasRoom base names := by
  obtain ⟨root, above, fields, route⟩ := bare.exists_route
  obtain ⟨accepted, -⟩ := lookup_eq_ok_iff.mp bare.there
  obtain ⟨-, nonempty, -⟩ := accept_eq_ok_iff.mp accepted
  rw [route.makeDirs nonempty bare.hollow plain] at made
  obtain ⟨_, lower, made⟩ := bind_eq_ok_iff.mp made
  obtain ⟨no_nul, fits⟩ := (accept_descend_iff accepted plain).mp lower
  split at made
  · rename_i short
    exact ⟨no_nul, short, fits⟩
  · cases made

end FileTree
end PartitionLog
