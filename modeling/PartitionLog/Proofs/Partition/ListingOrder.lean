import PartitionLog.KeyValue.Store
import PartitionLog.Proofs.FileTree.Reordered
import PartitionLog.Proofs.Partition.Discovery

/-!
# Results and the order of a listing

Directories list what they hold in any order. Partitions are sorted, and so are their segments, so
without ties that order does not show: `FileTree.Reordered.results_eq`. Where listings break off for
different causes, it only shows in which of them a scan reports.
-/
namespace PartitionLog

/-! ## What a scan comes to -/

namespace FileNode

variable {entries entries' found : List (RawText × FileNode)} {names : List RawText}

theorem DirAt.reordered (lower : DirAt entries names found)
    (same : Reordered (.dir entries) (.dir entries')) :
    ∃ found', DirAt entries' names found' ∧ Reordered (.dir found) (.dir found') := by
  induction lower generalizing entries' with
  | here entries => exact ⟨entries', .here entries', same⟩
  | down member _ ih =>
    obtain ⟨node, member', below⟩ := same.exists_child member
    cases below with
    | dir names children =>
      obtain ⟨found', lower, same⟩ := ih (.dir names children)
      exact ⟨found', .down member' lower, same⟩

theorem Reordered.exists_file (same : Reordered (.dir entries) (.dir entries')) {name : RawText}
    (there : ∃ contents, (name, .file contents) ∈ entries) :
    ∃ contents, (name, .file contents) ∈ entries' := by
  obtain ⟨contents, member⟩ := there
  obtain ⟨node, member', below⟩ := same.exists_child member
  cases below with
  | file => exact ⟨contents, member'⟩

theorem Reordered.fileNames (same : Reordered (.dir entries) (.dir entries'))
    (formed : (FileNode.dir entries).WellFormed) :
    (Partition.fileNames entries).Perm (Partition.fileNames entries') := by
  refine (List.perm_ext_iff_of_nodup (Partition.nodup_fileNames formed.once)
    (Partition.nodup_fileNames (same.wellFormed formed).once)).mpr fun name => ?_
  rw [Partition.mem_fileNames, Partition.mem_fileNames]
  exact ⟨same.exists_file, same.symm.exists_file⟩

theorem Reordered.flat (same : Reordered (.dir entries) (.dir entries'))
    (flat : ∀ entry ∈ entries, entry.2.isDir = false) :
    ∀ entry ∈ entries', entry.2.isDir = false := by
  intro entry member
  obtain ⟨name, node'⟩ := entry
  obtain ⟨node, member', below⟩ := same.symm.exists_child member
  rw [← below.isDir_eq]
  exact flat _ member'

end FileNode

namespace Partition

theorem rank_eq_iff {a b : Partition} :
    a.rank = b.rank ↔ (a.ntp, a.revision) = (b.ntp, b.revision) := by
  obtain ⟨⟨ns, topic, partition⟩, revision, -⟩ := a
  obtain ⟨⟨ns', topic', partition'⟩, revision', -⟩ := b
  simp [rank, String.toList_inj, Int32.toInt_inj, Int64.toInt_inj, and_assoc]

theorem ofEntries_reordered {entries entries' : List (RawText × FileNode)} {ntp : Ntp}
    {revision : Int64} {path : Path} (same : FileNode.Reordered (.dir entries) (.dir entries'))
    (formed : (FileNode.dir entries).WellFormed)
    (untied : (ofEntries ntp revision path entries).Untied) :
    ofEntries ntp revision path entries' = ofEntries ntp revision path entries :=
  ofEntries_eq_of_perm formed (same.fileNames formed) untied

end Partition

namespace DataDir

variable {tree tree' : FileTree} {config : ReaderConfig} {base : Path}
  {top top' files : List (RawText × FileNode)} {ntp : Ntp} {revision : Int64} {names : List RawText}
  {cause : IoError}

theorem Holds.reordered (holds : Holds config top ntp revision names files)
    (same : FileNode.Reordered (.dir top) (.dir top')) :
    ∃ files', Holds config top' ntp revision names files' ∧
      FileNode.Reordered (.dir files) (.dir files') := by
  obtain ⟨files', found, listed⟩ := holds.found.reordered same
  exact ⟨files', ⟨⟨found, holds.included, holds.named⟩, listed.flat holds.flat⟩, listed⟩

theorem FailsFor.reordered (fails : FailsFor tree config base top cause)
    (alike : tree.FailAlike tree') (same : FileNode.Reordered (.dir top) (.dir top')) :
    FailsFor tree' config base top' cause := by
  obtain ⟨names, found, after, lower, included, broken⟩ := fails
  obtain ⟨found', lower', -⟩ := lower.reordered same
  have alike := alike.readFailure? (base.descend names)
  rw [broken, Option.map_some] at alike
  obtain ⟨⟨after', cause⟩, broken', rfl⟩ := Option.map_eq_some_iff.mp alike
  exact ⟨names, found', after', lower', included, broken'⟩

/-- No two partitions come at the same place, and no two segments of a partition. -/
structure Untied (data : DataDir) : Prop where
  partitions : data.partitions.Pairwise fun a b => (a.ntp, a.revision) ≠ (b.ntp, b.revision)
  segments : ∀ p ∈ data.partitions, p.Untied

theorem untied_gathered_iff {counts : VisitedDir → Bool} :
    (gathered config base top counts).Untied ↔
      (unsorted config base top counts).Pairwise
        (fun a b => (a.ntp, a.revision) ≠ (b.ntp, b.revision)) ∧
      ∀ p ∈ unsorted config base top counts, p.Untied := by
  have sorted := gathered_perm config base top counts
  rw [← sorted.pairwise_iff fun differ same => differ same.symm]
  constructor
  · rintro ⟨partitions, segments⟩
    exact ⟨partitions, fun p member => segments p (sorted.mem_iff.mpr member)⟩
  · rintro ⟨partitions, segments⟩
    exact ⟨partitions, fun p member => segments p (sorted.mem_iff.mp member)⟩

theorem unsorted_reordered (same : FileNode.Reordered (.dir top) (.dir top'))
    (formed : (FileNode.dir top).WellFormed)
    (untied : ∀ p ∈ unsorted config base top VisitedDir.isLeaf, p.Untied) :
    (unsorted config base top VisitedDir.isLeaf).Perm
      (unsorted config base top' VisitedDir.isLeaf) := by
  have once {top : List (RawText × FileNode)} (formed : (FileNode.dir top).WellFormed) :
      (unsorted config base top VisitedDir.isLeaf).Nodup := (nodup_paths formed _).of_map
  refine (List.perm_ext_iff_of_nodup (once formed) (once (same.wellFormed formed))).mpr
    fun p => ?_
  constructor
  · intro member
    obtain ⟨ntp, revision, names, files, holds, rfl⟩ := mem_unsorted_isLeaf.mp member
    obtain ⟨files', holds', listed⟩ := holds.reordered same
    rw [← Partition.ofEntries_reordered listed (holds.found.wellFormed formed).1
      (untied _ member)]
    exact holds'.mem_unsorted base
  · intro member
    obtain ⟨ntp, revision, names, files', holds', rfl⟩ := mem_unsorted_isLeaf.mp member
    obtain ⟨files, holds, listed⟩ := holds'.reordered same.symm
    have member := holds.mem_unsorted base
    rw [Partition.ofEntries_reordered listed.symm (holds.found.wellFormed formed).1
      (untied _ member)]
    exact member

theorem gathered_reordered (same : FileNode.Reordered (.dir top) (.dir top'))
    (formed : (FileNode.dir top).WellFormed)
    (untied : (gathered config base top VisitedDir.isLeaf).Untied) :
    gathered config base top' VisitedDir.isLeaf = gathered config base top VisitedDir.isLeaf := by
  have found := unsorted_reordered same formed (untied_gathered_iff.mp untied).2
  have perm := ((gathered_perm config base top _).trans found).trans
    (gathered_perm config base top' _).symm
  have apart := (perm.pairwise_iff fun differ same => differ same.symm).mp untied.partitions
  have partitions := perm.eq_of_pairwise
    (fun a b _ _ ab ba => absurd (Partition.rank_eq_iff.mp (le_antisymm ab.1 ba.1)) ab.2)
    ((sorted_gathered config base top _).and untied.partitions)
    ((sorted_gathered config base top' _).and apart)
  exact congrArg (DataDir.mk base) partitions.symm

/-- Whatever directories a scan comes to that cannot be listed, they fail for one cause. -/
def FailsForOne (tree : FileTree) (config : ReaderConfig) (base : Path) : Prop :=
  ∀ top cause cause', tree.lookup base = .ok (.dir top) → FailsFor tree config base top cause →
    FailsFor tree config base top cause' → cause = cause'

theorem scan_of_no_dir (elsewhere : ∀ top, tree.lookup base ≠ .ok (.dir top)) :
    scan tree config base = .error (.notADirectory base) := by
  unfold scan
  split
  · rename_i top there
    exact absurd there (elsewhere top)
  · rfl

end DataDir

/-! ## Results -/

namespace FileTree.Reordered

variable {tree tree' : FileTree} (same : tree.Reordered tree')
include same

theorem exists_dir {path : Path} {entries : List (RawText × FileNode)}
    (there : tree.lookup path = .ok (.dir entries)) :
    ∃ entries', tree'.lookup path = .ok (.dir entries') ∧
      FileNode.Reordered (.dir entries) (.dir entries') := by
  have alike := same.lookup path
  rw [there] at alike
  generalize tree'.lookup path = found' at alike ⊢
  cases alike with
  | ok below =>
    cases below.2 with
    | dir names children => exact ⟨_, rfl, .dir names children⟩

theorem scan_cases {config : ReaderConfig} {base : Path}
    (untied : ∀ data, DataDir.scan tree config base = .ok data → data.Untied) :
    DataDir.scan tree' config base = DataDir.scan tree config base ∨
      ∃ top cause cause', tree.lookup base = .ok (.dir top) ∧
        DataDir.scan tree config base = .error (.io cause) ∧
        DataDir.scan tree' config base = .error (.io cause') ∧
        DataDir.FailsFor tree config base top cause ∧
        DataDir.FailsFor tree config base top cause' := by
  by_cases there : ∃ top, tree.lookup base = .ok (.dir top)
  · obtain ⟨top, there⟩ := there
    obtain ⟨top', there', dirs⟩ := same.exists_dir there
    by_cases fails : ∃ cause, DataDir.FailsFor tree config base top cause
    · obtain ⟨cause, fails⟩ := fails
      obtain ⟨first, failed, broken⟩ := DataDir.scan_of_failsFor there fails
      obtain ⟨first', failed', broken'⟩ :=
        DataDir.scan_of_failsFor there' (fails.reordered same.failAlike dirs)
      exact .inr ⟨top, first, first', there, failed, failed', broken,
        broken'.reordered same.failAlike.symm dirs.symm⟩
    · have readable := not_exists.mp fails
      have readable' (cause : IoError) : ¬ DataDir.FailsFor tree' config base top' cause :=
        fun broken => readable cause (broken.reordered same.failAlike.symm dirs.symm)
      have found := DataDir.scan_of_readable there readable
      left
      rw [found, DataDir.scan_of_readable there' readable',
        DataDir.gathered_reordered dirs (same.formed.lookup there) (untied _ found)]
  · left
    rw [DataDir.scan_of_no_dir fun top found => there ⟨top, found⟩, DataDir.scan_of_no_dir]
    intro top found
    obtain ⟨top', found', -⟩ := same.symm.exists_dir found
    exact there ⟨top', found'⟩

theorem scan_eq {config : ReaderConfig} {base : Path}
    (untied : ∀ data, DataDir.scan tree config base = .ok data → data.Untied)
    (one : DataDir.FailsForOne tree config base) :
    DataDir.scan tree' config base = DataDir.scan tree config base := by
  obtain alike | ⟨top, cause, cause', there, failed, failed', broken, broken'⟩ :=
    same.scan_cases untied
  · exact alike
  · rw [failed, failed', one top cause cause' there broken broken']

theorem load_eq {ntp : Ntp} {revision : Int64} {path : Path}
    (untied : ∀ p, Partition.load tree ntp revision path = .ok p → p.Untied) :
    Partition.load tree' ntp revision path = Partition.load tree ntp revision path := by
  have listed := same.readDir path
  unfold Partition.load at untied ⊢
  generalize tree.readDir path = entries at listed untied ⊢
  generalize tree'.readDir path = entries' at listed ⊢
  cases listed with
  | ok dirs =>
    exact congrArg Except.ok (Partition.ofEntries_reordered dirs.2 dirs.1 (untied _ rfl))
  | error e => rfl

theorem openAt_eq {path : Path} (untied : ∀ p, Partition.openAt tree path = .ok p → p.Untied) :
    Partition.openAt tree' path = Partition.openAt tree path := by
  unfold Partition.openAt at untied ⊢
  split
  · rfl
  · rename_i ntp revision identified
    rw [identified] at untied
    exact same.load_eq untied

theorem decode_eq (store : KeyValue.Store) : store.decode tree' = store.decode tree := by
  have bootstrap : store.bootstrap tree' = store.bootstrap tree := by
    unfold KeyValue.Store.bootstrap KeyValue.Store.readSnapshot
    simp only [same.fileContents_eq]
  have replaySegment : store.replaySegment tree' = store.replaySegment tree := by
    funext state segment
    unfold KeyValue.Store.replaySegment Segment.batches
    rw [same.openFile_eq]
  unfold KeyValue.Store.decode
  rw [bootstrap, replaySegment]

end FileTree.Reordered

/-! ### Two listings -/

namespace Listed

def files : List (RawText × FileNode) :=
  [("00-02-v1.log", .file []), ("snapshot", .file []), ("0-1-v1.log", .file [])]

def entries : List (RawText × FileNode) :=
  [("redpanda", .dir [("kvstore", .dir [("0_0", .dir files)])]),
    ("kafka", .dir [("t", .dir [("1_1", .dir []), ("0_1", .dir [])])])]

def entries' : List (RawText × FileNode) :=
  [("kafka", .dir [("t", .dir [("0_1", .dir []), ("1_1", .dir [])])]),
    ("redpanda", .dir [("kvstore", .dir [("0_0", .dir files.reverse)])])]

def disk : FileTree := { mount := ⟨"/data"⟩, root := .ok (.dir entries) }

def disk' : FileTree := { mount := ⟨"/data"⟩, root := .ok (.dir entries') }

def partition : Partition :=
  .ofEntries ⟨"redpanda", "kvstore", 0⟩ 0 ⟨"/data/redpanda/kvstore/0_0"⟩ files

theorem reordered : disk.Reordered disk' :=
  ⟨FileTree.wellFormed_of_root rfl (by decide), rfl, .ok (by decide), fun _ => rfl⟩

theorem untied : partition.Untied :=
  (Partition.untied_ofEntries_iff (by decide)).mpr (by decide)

end Listed

end PartitionLog
