import Mathlib.Data.Prod.Lex
import Mathlib.Order.Lex
import Mathlib.Data.List.Lex
import Mathlib.Data.Char
import Mathlib.Tactic.Tauto
import PartitionLog.Proofs.Decimal
import PartitionLog.Proofs.Partition.Contents
import PartitionLog.Proofs.Partition.Visited

/-!
# Discovery is exact

A scan finds every directory that counts as a partition, with three names of text on the way to it,
once, and nothing else, in the order of partitions: `scan_exact`. What can go wrong is that a
directory on the way cannot be listed, and then the scan fails for that cause.
-/
namespace PartitionLog

namespace Partition

/-! ## Names of partition directories -/

/-- The first underscore stands between the partition and the revision. -/
def DirectoryName (name : String) (partition : Int32) (revision : Int64) : Prop :=
  ∃ front back, name.toList = front ++ '_' :: back ∧ '_' ∉ front ∧
    Decimal.Signed front partition.toInt ∧ Decimal.Signed back revision.toInt

theorem ofDirectoryName_eq {name : String} {front back : List Char}
    (split : name.toList = front ++ '_' :: back) (first : '_' ∉ front) :
    ofDirectoryName name = (do
      let partition ← Decimal.int32 front
      let revision ← Decimal.int64 back
      pure (partition, revision)) := by
  have before : ∀ c ∈ front, decide (c ≠ '_') = true := by
    intro c member
    exact decide_eq_true fun same => first (same ▸ member)
  simp only [ofDirectoryName, split, List.dropWhile_append_of_pos before,
    List.takeWhile_append_of_pos before, ne_eq, not_true_eq_false, decide_false, Bool.false_eq_true,
    not_false_eq_true, List.dropWhile_cons_of_neg, List.takeWhile_cons_of_neg, List.append_nil]

theorem exists_split_of_ofDirectoryName {name : String} {result : Int32 × Int64}
    (parsed : ofDirectoryName name = some result) :
    ∃ front back, name.toList = front ++ '_' :: back ∧ '_' ∉ front := by
  unfold ofDirectoryName at parsed
  split at parsed
  · cases parsed
  · rename_i underscore back rest
    have whole :=
      List.takeWhile_append_dropWhile (p := fun c => decide (c ≠ '_')) (l := name.toList)
    have ends := List.head?_dropWhile_not (fun c => decide (c ≠ '_')) name.toList
    rw [rest] at whole ends
    have underscore : underscore = '_' := by simpa using ends
    refine ⟨_, back, underscore ▸ whole.symm, fun member => ?_⟩
    simpa using List.all_eq_true.mp List.all_takeWhile _ member

theorem ofDirectoryName_eq_some_iff {name : String} {partition : Int32} {revision : Int64} :
    ofDirectoryName name = some (partition, revision) ↔ DirectoryName name partition revision := by
  have numbers {front back : List Char} :
      (do let partition ← Decimal.int32 front
          let revision ← Decimal.int64 back
          pure (partition, revision)) = some (partition, revision) ↔
        Decimal.Signed front partition.toInt ∧ Decimal.Signed back revision.toInt := by
    simp [← Decimal.int32_eq_some_iff, ← Decimal.int64_eq_some_iff, Option.bind_eq_some_iff]
  constructor
  · intro parsed
    obtain ⟨front, back, split, first⟩ := exists_split_of_ofDirectoryName parsed
    rw [ofDirectoryName_eq split first, numbers] at parsed
    exact ⟨front, back, split, first, parsed⟩
  · rintro ⟨front, back, split, first, read⟩
    rw [ofDirectoryName_eq split first, numbers]
    exact read

theorem identify_eq_some_iff {names : List String} {ntp : Ntp} {revision : Int64} :
    identify names.reverse = some (ntp, revision) ↔
      ∃ name, names = [ntp.ns, ntp.topic, name] ∧ DirectoryName name ntp.partition revision := by
  constructor
  · intro found
    unfold identify at found
    split at found
    · rename_i dir topic ns three
      obtain ⟨⟨partition, revision'⟩, parsed, same⟩ := Option.bind_eq_some_iff.mp found
      cases same
      refine ⟨dir, ?_, ofDirectoryName_eq_some_iff.mp parsed⟩
      rw [← List.reverse_reverse names, three]
      rfl
    · cases found
  · rintro ⟨name, rfl, named⟩
    simp [identify, ofDirectoryName_eq_some_iff.mpr named]

/-! ## The order of partitions -/

/-- Texts go by code points. -/
def rank (p : Partition) : List Char ×ₗ List Char ×ₗ Int ×ₗ Int :=
  toLex (p.ntp.ns.toList,
    toLex (p.ntp.topic.toList, toLex (p.ntp.partition.toInt, p.revision.toInt)))

theorem compare_lt_iff {a b : String} : compare a b = .lt ↔ a.toList < b.toList := by
  have lawful : compare a b = compareOfLessAndEq a b := rfl
  rw [lawful, compareOfLessAndEq_eq_lt]
  rfl

theorem le_iff {a b : Partition} : a.le b = true ↔ a.rank ≤ b.rank := by
  simp only [le, Ntp.compare, rank, Prod.Lex.toLex_le_toLex, Ordering.isLE_then_iff_or,
    Ordering.then_eq_lt, Ordering.then_eq_eq, Std.compare_eq_iff_eq, compare_lt_iff,
    Std.compare_eq_lt, Std.isLE_compare, String.toList_inj]
  tauto

theorem le_trans (a b c : Partition) (ab : a.le b = true) (bc : b.le c = true) : a.le c = true :=
  le_iff.mpr ((le_iff.mp ab).trans (le_iff.mp bc))

theorem le_or_le (a b : Partition) : (a.le b || b.le a) = true := by
  rw [Bool.or_eq_true, le_iff, le_iff]
  exact le_total a.rank b.rank

theorem pairwise_mergeSort (ps : List Partition) :
    (ps.mergeSort le).Pairwise fun a b => a.rank ≤ b.rank :=
  (List.pairwise_mergeSort le_trans le_or_le ps).imp le_iff.mp

end Partition

namespace DataDir

variable {tree : FileTree} {config : ReaderConfig} {base : Path}
  {top files : List (RawText × FileNode)} {ntp : Ntp} {revision : Int64} {names : List RawText}
  {cause : IoError}

/-- A directory that has its place and its name as the directory of a partition has. On the way to
it only names of text count. -/
structure Named (config : ReaderConfig) (top : List (RawText × FileNode)) (ntp : Ntp)
    (revision : Int64) (names : List RawText) (files : List (RawText × FileNode)) : Prop where
  found : FileNode.DirAt top names files
  included : ∀ name ∈ names, config.passesOver name = false
  named : ∃ dir, names.filterMap RawText.text? = [ntp.ns, ntp.topic, dir] ∧
    Partition.DirectoryName dir ntp.partition revision

/-- The directory of a partition below a top directory. -/
structure Holds (config : ReaderConfig) (top : List (RawText × FileNode)) (ntp : Ntp)
    (revision : Int64) (names : List RawText) (files : List (RawText × FileNode)) : Prop
    extends Named config top ntp revision names files where
  flat : ∀ entry ∈ files, entry.2.isDir = false

/-- What a scan has to say about the directory of a partition. -/
structure Describes (base : Path) (ntp : Ntp) (revision : Int64) (names : List RawText)
    (files : List (RawText × FileNode)) (p : Partition) : Prop where
  ntp_eq : p.ntp = ntp
  revision_eq : p.revision = revision
  path_eq : p.path = base.descend names
  lists : p.Lists files

structure Exact (config : ReaderConfig) (base : Path) (top : List (RawText × FileNode))
    (data : DataDir) : Prop where
  base_eq : data.base = base
  sorted : data.partitions.Pairwise fun a b => a.rank ≤ b.rank
  once : (data.partitions.map Partition.path).Nodup
  sound : ∀ p ∈ data.partitions, ∃ ntp revision names files,
    Holds config top ntp revision names files ∧ Describes base ntp revision names files p
  complete : ∀ ntp revision names files, Holds config top ntp revision names files →
    ∃ p ∈ data.partitions, Describes base ntp revision names files p

/-- A scan comes to a directory that cannot be listed to the end, for this cause. -/
def FailsFor (tree : FileTree) (config : ReaderConfig) (base : Path)
    (top : List (RawText × FileNode)) (cause : IoError) : Prop :=
  ∃ names found after, FileNode.DirAt top names found ∧
    (∀ name ∈ names, config.passesOver name = false) ∧
    tree.readFailure? (base.descend names) = some ⟨after, cause⟩

theorem Named.three_le_length (named : Named config top ntp revision names files) :
    3 ≤ names.length := by
  obtain ⟨dir, texts, -⟩ := named.named
  exact (congrArg List.length texts).symm.trans_le (List.length_filterMap_le _ _)

/-- Where every name is text, a partition is three levels down. -/
theorem Named.exists_names (named : Named config top ntp revision names files)
    (text : ∀ name ∈ names, name.text?.isSome) :
    ∃ dir : String, names = [.ofString ntp.ns, .ofString ntp.topic, .ofString dir] := by
  obtain ⟨dir, parts, -⟩ := named.named
  have written : (names.filterMap RawText.text?).map RawText.ofString = names := by
    rw [List.map_filterMap]
    have each : ∀ name ∈ names, name.text?.map RawText.ofString = some name := fun name member => by
      obtain ⟨s, decoded⟩ := Option.isSome_iff_exists.mp (text name member)
      rw [decoded, RawText.text?_eq_some_iff.mp decoded, Option.map_some]
    rw [List.filterMap_congr each, List.filterMap_some]
  exact ⟨dir, by rw [← written, parts]; rfl⟩

/-! ## Partitions before they are sorted -/

/-- The partitions in the directories that count. -/
def unsorted (config : ReaderConfig) (base : Path) (top : List (RawText × FileNode))
    (counts : VisitedDir → Bool) : List Partition :=
  (((FileNode.dir top).visitedDirs config.passesOver).filter counts).filterMap
    (VisitedDir.partition? base)

def gathered (config : ReaderConfig) (base : Path) (top : List (RawText × FileNode))
    (counts : VisitedDir → Bool) : DataDir :=
  ⟨base, (unsorted config base top counts).mergeSort Partition.le⟩

theorem gathered_perm (config : ReaderConfig) (base : Path) (top : List (RawText × FileNode))
    (counts : VisitedDir → Bool) :
    (gathered config base top counts).partitions.Perm (unsorted config base top counts) :=
  List.mergeSort_perm _ _

theorem sorted_gathered (config : ReaderConfig) (base : Path) (top : List (RawText × FileNode))
    (counts : VisitedDir → Bool) :
    (gathered config base top counts).partitions.Pairwise fun a b => a.rank ≤ b.rank :=
  Partition.pairwise_mergeSort _

theorem partition?_eq_some_iff {visited : VisitedDir} {p : Partition} :
    visited.partition? base = some p ↔ ∃ ntp revision,
      (∃ dir, visited.names.filterMap RawText.text? = [ntp.ns, ntp.topic, dir] ∧
        Partition.DirectoryName dir ntp.partition revision) ∧
      p = .ofEntries ntp revision (visited.path base) visited.entries := by
  rw [VisitedDir.partition?, Option.map_eq_some_iff]
  constructor
  · rintro ⟨⟨ntp, revision⟩, identified, rfl⟩
    exact ⟨ntp, revision, Partition.identify_eq_some_iff.mp identified, rfl⟩
  · rintro ⟨ntp, revision, named, rfl⟩
    exact ⟨(ntp, revision), Partition.identify_eq_some_iff.mpr named, rfl⟩

theorem isLeaf_iff {visited : VisitedDir} :
    visited.isLeaf = true ↔ ∀ entry ∈ visited.entries, entry.2.isDir = false := by
  simp [VisitedDir.isLeaf]

theorem mem_unsorted {counts : VisitedDir → Bool} {p : Partition} :
    p ∈ unsorted config base top counts ↔ ∃ ntp revision names files,
      Named config top ntp revision names files ∧ counts ⟨names, files⟩ = true ∧
      p = .ofEntries ntp revision (base.descend names) files := by
  rw [unsorted, List.mem_filterMap]
  constructor
  · rintro ⟨⟨names, files⟩, member, identified⟩
    obtain ⟨visited, counts⟩ := List.mem_filter.mp member
    obtain ⟨ntp, revision, named, rfl⟩ := partition?_eq_some_iff.mp identified
    obtain ⟨found, included⟩ := FileNode.mem_visitedDirs.mp visited
    exact ⟨ntp, revision, names, files, ⟨found, included, named⟩, counts, rfl⟩
  · rintro ⟨ntp, revision, names, files, named, counts, rfl⟩
    refine ⟨⟨names, files⟩, List.mem_filter.mpr ⟨?_, counts⟩, ?_⟩
    · exact FileNode.mem_visitedDirs.mpr ⟨named.found, named.included⟩
    · exact partition?_eq_some_iff.mpr ⟨ntp, revision, named.named, rfl⟩

theorem mem_unsorted_isLeaf {p : Partition} :
    p ∈ unsorted config base top VisitedDir.isLeaf ↔ ∃ ntp revision names files,
      Holds config top ntp revision names files ∧
      p = .ofEntries ntp revision (base.descend names) files := by
  rw [mem_unsorted]
  constructor
  · rintro ⟨ntp, revision, names, files, named, leaf, rfl⟩
    exact ⟨ntp, revision, names, files, ⟨named, isLeaf_iff.mp leaf⟩, rfl⟩
  · rintro ⟨ntp, revision, names, files, holds, rfl⟩
    exact ⟨ntp, revision, names, files, holds.toNamed, isLeaf_iff.mpr holds.flat, rfl⟩

theorem Holds.mem_unsorted (holds : Holds config top ntp revision names files) (base : Path) :
    .ofEntries ntp revision (base.descend names) files ∈
      unsorted config base top VisitedDir.isLeaf :=
  mem_unsorted_isLeaf.mpr ⟨ntp, revision, names, files, holds, rfl⟩

theorem isFileName_of_mem (formed : (FileNode.dir top).WellFormed) {visited : VisitedDir}
    (member : visited ∈ (FileNode.dir top).visitedDirs config.passesOver) :
    ∀ name ∈ visited.names, IsFileName name := by
  obtain ⟨names, files⟩ := visited
  exact ((FileNode.mem_visitedDirs.mp member).1.wellFormed formed).2

theorem nodup_paths (formed : (FileNode.dir top).WellFormed) (counts : VisitedDir → Bool) :
    ((unsorted config base top counts).map Partition.path).Nodup := by
  have apart : ((FileNode.dir top).visitedDirs config.passesOver).Pairwise
      fun a b => a.path base ≠ b.path base := by
    have names := FileNode.nodup_names_visitedDirs formed config.passesOver
    refine (List.pairwise_map.mp names).imp_of_mem fun {a b} member member' differ same => ?_
    exact differ ((Path.descend_inj
      (fun name among => (isFileName_of_mem formed member name among).plain)
      fun name among => (isFileName_of_mem formed member' name among).plain).mp same)
  have path {visited : VisitedDir} {p : Partition} (found : visited.partition? base = some p) :
      p.path = visited.path base := by
    obtain ⟨ntp, revision, -, rfl⟩ := partition?_eq_some_iff.mp found
    rfl
  rw [List.Nodup, List.pairwise_map, unsorted, List.pairwise_filterMap]
  refine (apart.filter _).imp fun {a b} differ p found p' found' same => differ ?_
  rw [← path found, ← path found', same]

theorem exact_gathered (formed : (FileNode.dir top).WellFormed) :
    Exact config base top (gathered config base top VisitedDir.isLeaf) := by
  have describes {ntp : Ntp} {revision : Int64} {names : List RawText}
      {files : List (RawText × FileNode)} (holds : Holds config top ntp revision names files) :
      Describes base ntp revision names files
        (.ofEntries ntp revision (base.descend names) files) :=
    ⟨rfl, rfl, rfl, Partition.lists_ofEntries (holds.found.wellFormed formed).1⟩
  have perm := gathered_perm config base top VisitedDir.isLeaf
  constructor
  case base_eq => rfl
  case sorted => exact sorted_gathered config base top _
  case once => exact (perm.map Partition.path).nodup_iff.mpr (nodup_paths formed _)
  case sound =>
    intro p member
    have member := mem_unsorted_isLeaf.mp (perm.mem_iff.mp member)
    obtain ⟨ntp, revision, names, files, holds, rfl⟩ := member
    exact ⟨ntp, revision, names, files, holds, describes holds⟩
  case complete =>
    intro ntp revision names files holds
    exact ⟨_, perm.mem_iff.mpr (holds.mem_unsorted base), describes holds⟩

/-! ## Directories that cannot be listed -/

theorem failsFor_iff : FailsFor tree config base top cause ↔
    FileNode.Breaks tree.readFailure? base ((FileNode.dir top).visitedDirs config.passesOver)
      cause := by
  constructor
  · rintro ⟨names, found, after, lower, included, broken⟩
    exact ⟨⟨names, found⟩, FileNode.mem_visitedDirs.mpr ⟨lower, included⟩, after, broken⟩
  · rintro ⟨⟨names, found⟩, member, after, broken⟩
    obtain ⟨lower, included⟩ := FileNode.mem_visitedDirs.mp member
    exact ⟨names, found, after, lower, included, broken⟩

theorem scan_eq (there : tree.lookup base = .ok (.dir top)) :
    scan tree config base =
      (((FileNode.dir top).walk tree.readFailure? config.passesOver base).mapError .io >>=
        fun visited => .ok ⟨base, ((visited.filter VisitedDir.isLeaf).filterMap
          (VisitedDir.partition? base)).mergeSort Partition.le⟩) := by
  rw [scan, there]
  rfl

theorem scan_of_readable (there : tree.lookup base = .ok (.dir top))
    (readable : ∀ cause, ¬ FailsFor tree config base top cause) :
    scan tree config base = .ok (gathered config base top VisitedDir.isLeaf) := by
  rw [scan_eq there, FileNode.walk_eq_ok]
  · rfl
  · intro dir member
    cases broken : tree.readFailure? (dir.path base) with
    | none => rfl
    | some failure =>
      exact absurd (failsFor_iff.mpr ⟨dir, member, failure.after, broken⟩) (readable failure.cause)

theorem scan_of_failsFor (there : tree.lookup base = .ok (.dir top))
    (fails : FailsFor tree config base top cause) :
    ∃ cause', scan tree config base = .error (.io cause') ∧
      FailsFor tree config base top cause' := by
  obtain ⟨dir, member, after, broken⟩ := failsFor_iff.mp fails
  obtain ⟨cause', walked, breaks⟩ := FileNode.exists_walk_eq_error member broken
  refine ⟨cause', ?_, failsFor_iff.mpr breaks⟩
  rw [scan_eq there, walked]
  rfl

/-- A scan can only fail on a directory that cannot be listed, and then it does. -/
theorem scan_exact (formed : tree.WellFormed) (there : tree.lookup base = .ok (.dir top)) :
    ((∀ cause, ¬ FailsFor tree config base top cause) →
      ∃ data, scan tree config base = .ok data ∧ Exact config base top data) ∧
    (∀ cause, FailsFor tree config base top cause →
      ∃ cause', scan tree config base = .error (.io cause') ∧
        FailsFor tree config base top cause') ∧
    ∀ ntp revision names files, Named config top ntp revision names files →
      (∀ name ∈ names, name.text?.isSome) →
      ∃ dir : String, names = [.ofString ntp.ns, .ofString ntp.topic, .ofString dir] := by
  refine ⟨fun readable => ?_, fun cause => scan_of_failsFor there,
    fun ntp revision names files named => named.exists_names⟩
  exact ⟨_, scan_of_readable there readable, exact_gathered (formed.lookup there)⟩

/-! ### A directory with a cache -/

namespace Cached

def segments : List (RawText × FileNode) :=
  [("2-1-v1.log", .file []), ("snapshot", .file []), ("00-01-v1.log", .file []),
    ("x.log", .file [])]

def entries : List (RawText × FileNode) :=
  [("kafka", .dir [("t", .dir [("0_1", .dir segments), ("+0_1", .dir []), ("0_1_", .dir [])])]),
    ("cloud_storage_cache", .dir [("kafka", .dir [("t", .dir [("1_1", .dir [])])])])]

def disk : FileTree := { mount := ⟨"/data"⟩, root := .ok (.dir entries) }

def denied : IoError := .other "Permission denied (os error 13)"

/-- The same directory, where the topic cannot be listed. -/
def lockedDisk : FileTree :=
  { disk with failing := fun path => if path = ⟨"/data/kafka/t"⟩ then some ⟨0, denied⟩ else none }

end Cached

theorem scan_exact_cached :
    Cached.disk.WellFormed ∧ Cached.disk.lookup ⟨"/data"⟩ = .ok (.dir Cached.entries) ∧
      (∀ cause, ¬ FailsFor Cached.disk {} ⟨"/data"⟩ Cached.entries cause) ∧
      (∃ data, scan Cached.disk {} ⟨"/data"⟩ = .ok data ∧
        Exact {} ⟨"/data"⟩ Cached.entries data) ∧
      ∃ cause, scan Cached.lockedDisk {} ⟨"/data"⟩ = .error (.io cause) ∧
        FailsFor Cached.lockedDisk {} ⟨"/data"⟩ Cached.entries cause := by
  have formed : Cached.disk.WellFormed := FileTree.wellFormed_of_root rfl (by decide)
  have there : Cached.disk.lookup ⟨"/data"⟩ = .ok (.dir Cached.entries) := by
    rfl
  have readable : ∀ cause, ¬ FailsFor Cached.disk {} ⟨"/data"⟩ Cached.entries cause := by
    rintro cause fails
    obtain ⟨dir, member, after, broken⟩ := failsFor_iff.mp fails
    have listed : ∀ dir ∈ (FileNode.dir Cached.entries).visitedDirs (ReaderConfig.passesOver {}),
        Cached.disk.readFailure? (dir.path ⟨"/data"⟩) = none := by decide
    cases (listed dir member).symm.trans broken
  have locked : FailsFor Cached.lockedDisk {} ⟨"/data"⟩ Cached.entries Cached.denied :=
    ⟨["kafka", "t"], _, 0, .down (.head _) (.down (.head _) (.here _)), by decide, by decide⟩
  have formed' : Cached.lockedDisk.WellFormed := formed
  exact ⟨formed, there, readable, (scan_exact formed there).1 readable,
    (scan_exact formed' there).2.1 _ locked⟩

end DataDir
end PartitionLog
