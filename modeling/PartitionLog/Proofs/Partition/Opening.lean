import PartitionLog.Proofs.FileTree.Descent
import PartitionLog.Proofs.Partition.ListingOrder

/-!
# Opening what a scan found

A scan tells what a partition is from the names of text below the base, and opening a path from the
last three parts of the path. For a partition that was found both are the same, and so is what it
holds, if these three parts are text; else the path is not recognized: `openAt_scanned`.
-/
namespace PartitionLog

/-- The parts that tell what a partition directory is are all text. -/
def Path.EndsLegibly (path : Path) : Prop :=
  ∀ part ∈ path.parts.reverse.take 3, part.text.text?.isSome

instance (path : Path) : Decidable path.EndsLegibly :=
  inferInstanceAs (Decidable (∀ part ∈ path.parts.reverse.take 3, part.text.text?.isSome))

namespace Partition

variable {tree : FileTree} {path : Path} {ntp : Ntp} {revision : Int64} {names : List RawText}
  {files : List (RawText × FileNode)}

/-- What opening a path takes for the names of a partition directory, last one first. -/
def lastTexts (path : Path) : List String :=
  (path.parts.reverse.take 3).filterMap fun part => part.text.text?

theorem openAt_eq (tree : FileTree) (path : Path) :
    openAt tree path = match identify (lastTexts path) with
      | none => .error (.unrecognizedLayout path)
      | some (ntp, revision) => load tree ntp revision path := rfl

theorem identify_eq_none {texts : List String} (few : texts.length < 3) :
    identify texts = none := by
  match texts, few with
  | [], _ | [_], _ | [_, _], _ => rfl

theorem openAt_of_not_endsLegibly (illegible : ¬ path.EndsLegibly) :
    openAt tree path = .error (.unrecognizedLayout path) := by
  have few : (lastTexts path).length < 3 := by
    by_contra many
    have taken : (path.parts.reverse.take 3).length ≤ 3 := List.length_take_le _ _
    have all : (lastTexts path).length ≤ (path.parts.reverse.take 3).length :=
      List.length_filterMap_le _ _
    have full := Nat.le_antisymm all (taken.trans (Nat.not_lt.mp many))
    exact illegible (List.filterMap_length_eq_length.mp full)
  rw [openAt_eq, identify_eq_none few]

/-- The names below a base are the last parts of a path. -/
theorem take_parts_descend (nonempty : path.text.bytes ≠ [])
    (plain : ∀ name ∈ names, IsPlainName name) (three : 3 ≤ names.length) :
    (path.descend names).parts.reverse.take 3 = (names.reverse.take 3).map .name := by
  obtain ⟨front, fields⟩ := Path.fields_descend nonempty plain
  obtain ⟨parts, split⟩ := Path.parts_of_fields plain fields
  have last : 3 ≤ (names.map Path.Part.name).reverse.length := by
    rwa [List.length_reverse, List.length_map]
  rw [split, List.reverse_append, List.take_append_of_le_length last, ← List.map_reverse,
    List.map_take]

theorem endsLegibly_descend_iff (nonempty : path.text.bytes ≠ [])
    (plain : ∀ name ∈ names, IsPlainName name) (three : 3 ≤ names.length) :
    (path.descend names).EndsLegibly ↔ ∀ name ∈ names.reverse.take 3, name.text?.isSome := by
  rw [Path.EndsLegibly, take_parts_descend nonempty plain three]
  exact List.forall_mem_map

/-- If they are text, no name of text stands in front of them. -/
theorem lastTexts_descend (nonempty : path.text.bytes ≠ [])
    (plain : ∀ name ∈ names, IsPlainName name)
    (three : (names.filterMap RawText.text?).length = 3)
    (legible : (path.descend names).EndsLegibly) :
    lastTexts (path.descend names) = (names.filterMap RawText.text?).reverse := by
  have many : 3 ≤ names.length := three ▸ List.length_filterMap_le RawText.text? names
  have last := take_parts_descend nonempty plain many
  have texts : lastTexts (path.descend names) = (names.reverse.take 3).filterMap RawText.text? := by
    rw [lastTexts, last, List.filterMap_map]
    rfl
  have front : lastTexts (path.descend names) <+: (names.filterMap RawText.text?).reverse := by
    rw [texts, ← List.filterMap_reverse]
    exact (List.take_prefix 3 names.reverse).filterMap _
  have all : (lastTexts (path.descend names)).length = 3 := by
    rw [lastTexts, List.filterMap_length_eq_length.mpr legible, last, List.length_map,
      List.length_take, List.length_reverse, Nat.min_eq_left many]
  exact front.eq_of_length (by rw [all, List.length_reverse, three])

theorem openAt_descend (nonempty : path.text.bytes ≠ [])
    (plain : ∀ name ∈ names, IsPlainName name)
    (named : ∃ dir, names.filterMap RawText.text? = [ntp.ns, ntp.topic, dir] ∧
      DirectoryName dir ntp.partition revision)
    (legible : (path.descend names).EndsLegibly) :
    openAt tree (path.descend names) = load tree ntp revision (path.descend names) := by
  have identified := identify_eq_some_iff.mpr named
  obtain ⟨dir, texts, -⟩ := named
  have three : (names.filterMap RawText.text?).length = 3 := by rw [texts]; rfl
  rw [openAt_eq, lastTexts_descend nonempty plain three legible, identified]

theorem load_of_lookup (there : tree.lookup path = .ok (.dir files))
    (whole : tree.failing path = none) :
    load tree ntp revision path = .ok (ofEntries ntp revision path files) := by
  rw [load, FileTree.readDir_of_lookup there, whole]
  rfl

end Partition

namespace DataDir

variable {tree : FileTree} {config : ReaderConfig} {base : Path} {data : DataDir} {p : Partition}
  {top : List (RawText × FileNode)}

theorem exists_top_of_scan (scanned : scan tree config base = .ok data) :
    ∃ top, tree.lookup base = .ok (.dir top) ∧
      (∀ cause, ¬ FailsFor tree config base top cause) ∧
      data = gathered config base top VisitedDir.isLeaf := by
  by_cases there : ∃ top, tree.lookup base = .ok (.dir top)
  · obtain ⟨top, there⟩ := there
    have readable (cause : IoError) : ¬ FailsFor tree config base top cause := by
      intro fails
      obtain ⟨_, failed, -⟩ := scan_of_failsFor there fails
      cases failed.symm.trans scanned
    have found := (scan_of_readable there readable).symm.trans scanned
    exact ⟨top, there, readable, (Except.ok.inj found).symm⟩
  · cases (scan_of_no_dir fun top found => there ⟨top, found⟩).symm.trans scanned

/-- The directories that a scan comes to are there to be listed again. -/
theorem lookup_of_dirAt {names : List RawText} {found : List (RawText × FileNode)}
    (formed : tree.WellFormed) (there : tree.lookup base = .ok (.dir top))
    (readable : ∀ cause, ¬ FailsFor tree config base top cause)
    (lower : FileNode.DirAt top names found)
    (included : ∀ name ∈ names, config.passesOver name = false) :
    tree.lookup (base.descend names) = .ok (.dir found) ∧
      tree.failing (base.descend names) = none := by
  have whole : tree.readFailure? (base.descend names) = none := by
    cases broken : tree.readFailure? (base.descend names) with
    | none => rfl
    | some failure =>
      exact absurd ⟨names, found, failure.after, lower, included, broken⟩ (readable failure.cause)
  obtain ⟨accepted, whole⟩ := FileTree.readFailure?_eq_none_iff.mp whole
  exact ⟨FileTree.lookup_descend formed there lower accepted, whole⟩

/-- Where a scan found a partition. -/
theorem exists_holds_of_mem (scanned : scan tree config base = .ok data)
    (member : p ∈ data.partitions) :
    ∃ top ntp revision names files, tree.lookup base = .ok (.dir top) ∧
      (∀ cause, ¬ FailsFor tree config base top cause) ∧
      Holds config top ntp revision names files ∧
      p = .ofEntries ntp revision (base.descend names) files := by
  obtain ⟨top, there, readable, rfl⟩ := exists_top_of_scan scanned
  have unsorted := (gathered_perm config base top _).mem_iff.mp member
  obtain ⟨ntp, revision, names, files, holds, rfl⟩ := mem_unsorted_isLeaf.mp unsorted
  exact ⟨top, ntp, revision, names, files, there, readable, holds, rfl⟩

theorem Named.plain {ntp : Ntp} {revision : Int64} {names : List RawText}
    {files : List (RawText × FileNode)} (named : Named config top ntp revision names files)
    (formed : (FileNode.dir top).WellFormed) : ∀ name ∈ names, IsPlainName name :=
  fun name among => ((named.found.wellFormed formed).2 name among).plain

theorem nonempty_of_lookup (there : tree.lookup base = .ok (.dir top)) : base.text.bytes ≠ [] :=
  (FileTree.accept_eq_ok_iff.mp (FileTree.lookup_eq_ok_iff.mp there).1).2.1

theorem openAt_of_mem (formed : tree.WellFormed) (scanned : scan tree config base = .ok data)
    (member : p ∈ data.partitions) (legible : p.path.EndsLegibly) :
    Partition.openAt tree p.path = .ok p := by
  obtain ⟨top, ntp, revision, names, files, there, readable, holds, rfl⟩ :=
    exists_holds_of_mem scanned member
  have plain := holds.plain (formed.lookup there)
  obtain ⟨found, whole⟩ := lookup_of_dirAt formed there readable holds.found holds.included
  exact (Partition.openAt_descend (nonempty_of_lookup there) plain holds.named legible).trans
    (Partition.load_of_lookup found whole)

/-- Every directory below the base has a name of text. -/
def TextBelow (tree : FileTree) (base : Path) : Prop :=
  ∀ top names found, tree.lookup base = .ok (.dir top) → FileNode.DirAt top names found →
    ∀ name ∈ names, name.text?.isSome

theorem endsLegibly_of_mem (formed : tree.WellFormed) (scanned : scan tree config base = .ok data)
    (member : p ∈ data.partitions) (text : TextBelow tree base) : p.path.EndsLegibly := by
  obtain ⟨top, ntp, revision, names, files, there, -, holds, rfl⟩ :=
    exists_holds_of_mem scanned member
  have plain := holds.plain (formed.lookup there)
  refine (Partition.endsLegibly_descend_iff (nonempty_of_lookup there) plain
    holds.three_le_length).mpr fun name last => ?_
  have among : name ∈ names := List.mem_reverse.mp (List.mem_of_mem_take last)
  exact text top names files there holds.found name among

theorem openAt_scanned (formed : tree.WellFormed) (scanned : scan tree config base = .ok data)
    (member : p ∈ data.partitions) :
    (p.path.EndsLegibly →
      Partition.openAt tree p.path = .ok p ∧
      KeyValue.Store.openAt tree p.path = .ok { partition := p } ∧
      (KeyValue.Store.openAt tree p.path >>= fun store => store.decode tree) =
        KeyValue.Store.decode { partition := p } tree) ∧
    (¬ p.path.EndsLegibly →
      Partition.openAt tree p.path = .error (.unrecognizedLayout p.path) ∧
      KeyValue.Store.openAt tree p.path = .error (.layout (.unrecognizedLayout p.path))) ∧
    (TextBelow tree base → p.path.EndsLegibly) := by
  refine ⟨fun legible => ?_, fun illegible => ?_, endsLegibly_of_mem formed scanned member⟩
  · have opened := openAt_of_mem formed scanned member legible
    have store : KeyValue.Store.openAt tree p.path = .ok { partition := p } := by
      rw [KeyValue.Store.openAt, opened]
      rfl
    exact ⟨opened, store, by rw [store]; rfl⟩
  · have refused : Partition.openAt tree p.path = .error (.unrecognizedLayout p.path) :=
      Partition.openAt_of_not_endsLegibly illegible
    refine ⟨refused, ?_⟩
    rw [KeyValue.Store.openAt, refused]
    rfl

/-! ### A base on a detour -/

namespace Detour

def root : Path := ⟨"/data/kafka/t/../.."⟩

def partition : Partition :=
  .ofEntries ⟨"redpanda", "kvstore", 0⟩ 0 (root.descend ["redpanda", "kvstore", "0_0"]) Listed.files

theorem unsorted_entries : unsorted {} root Listed.entries VisitedDir.isLeaf =
    [partition, .ofEntries ⟨"kafka", "t", 1⟩ 1 (root.descend ["kafka", "t", "1_1"]) [],
      .ofEntries ⟨"kafka", "t", 0⟩ 1 (root.descend ["kafka", "t", "0_1"]) []] := rfl

end Detour

theorem openAt_scanned_detour :
    Listed.disk.WellFormed ∧ ∃ data, scan Listed.disk {} Detour.root = .ok data ∧
      Detour.partition ∈ data.partitions ∧
      Detour.partition.path = ⟨"/data/kafka/t/../../redpanda/kvstore/0_0"⟩ ∧
      Detour.partition.path.EndsLegibly ∧
      Partition.openAt Listed.disk Detour.partition.path = .ok Detour.partition ∧
      KeyValue.Store.openAt Listed.disk Detour.partition.path =
        .ok { partition := Detour.partition } := by
  have formed : Listed.disk.WellFormed := Listed.reordered.formed
  have scanned : scan Listed.disk {} Detour.root =
      .ok (gathered {} Detour.root Listed.entries VisitedDir.isLeaf) := rfl
  have member : Detour.partition ∈
      (gathered {} Detour.root Listed.entries VisitedDir.isLeaf).partitions := by
    rw [(gathered_perm _ _ _ _).mem_iff, Detour.unsorted_entries]
    exact List.mem_cons_self
  have legible : Detour.partition.path.EndsLegibly := by decide
  obtain ⟨opened, store, -⟩ := (openAt_scanned formed scanned member).1 legible
  exact ⟨formed, _, scanned, member, rfl, legible, opened, store⟩

/-! ### A name that is no text -/

namespace Stray

def entries : List (RawText × FileNode) :=
  [("kafka", .dir [(⟨[0xff]⟩, .dir [("orders", .dir [("0_0", .dir [])])])])]

def disk : FileTree := { mount := ⟨"/data"⟩, root := .ok (.dir entries) }

def path : Path := Path.descend ⟨"/data"⟩ ["kafka", ⟨[0xff]⟩, "orders", "0_0"]

def partition : Partition := ⟨⟨"kafka", "orders", 0⟩, 0, path, [], none⟩

theorem unsorted_entries : unsorted {} ⟨"/data"⟩ entries VisitedDir.isLeaf = [partition] := by
  have one : unsorted {} ⟨"/data"⟩ entries VisitedDir.isLeaf =
    [.ofEntries ⟨"kafka", "orders", 0⟩ 0 path []] := rfl
  simp [one, Partition.ofEntries, Partition.segmentNames, Partition.fileNames, partition]

end Stray

/-- A scan passes over the name, and finds a partition four levels down. To open it, the name is
one of the three that count. -/
theorem openAt_scanned_stray :
    Stray.disk.WellFormed ∧
      scan Stray.disk {} ⟨"/data"⟩ = .ok ⟨⟨"/data"⟩, [Stray.partition]⟩ ∧
      Partition.openAt Stray.disk Stray.partition.path =
        .error (.unrecognizedLayout Stray.partition.path) := by
  have scanned : scan Stray.disk {} ⟨"/data"⟩ =
      .ok (gathered {} ⟨"/data"⟩ Stray.entries VisitedDir.isLeaf) := rfl
  refine ⟨FileTree.wellFormed_of_root rfl (by decide), scanned.trans ?_, rfl⟩
  rw [gathered, Stray.unsorted_entries, List.mergeSort_singleton]

end DataDir
end PartitionLog
