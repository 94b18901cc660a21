import Mathlib.Data.List.Nodup
import PartitionLog.Proofs.FileTree.WellFormed
import PartitionLog.Proofs.Partition.ReplayOrder
import PartitionLog.Proofs.RawText

/-!
# What a partition directory holds

A partition lists the files of its directory that have the name of a segment, each once and in
replay order, and its snapshot: `lists_ofEntries`. Where no two segments come at the same place, it
does not depend on the order of the files: `ofEntries_eq_of_perm`.
-/
namespace PartitionLog

theorem SegmentName.Precedes.antisymm {a b : SegmentName} (ab : a.Precedes b) (ba : b.Precedes a) :
    (a.baseOffset, a.term) = (b.baseOffset, b.term) := by
  unfold Precedes at *
  grind

def Segment.Precedes (a b : Segment) : Prop :=
  ∃ m n, a.name? = some m ∧ b.name? = some n ∧ m.Precedes n

theorem Segment.name?_join {path : Path} {name : String} (named : IsFileName (.ofString name)) :
    (Segment.mk (path.join name)).name? = SegmentName.ofString name := by
  rw [name?, Path.fileName_join named.plain, Option.bind_some, RawText.text?_ofString,
    Option.bind_some]

namespace Partition

variable {entries entries' : List (RawText × FileNode)} {files : List String} {name : String}
  {ntp : Ntp} {revision : Int64} {path : Path}

structure Lists (p : Partition) (entries : List (RawText × FileNode)) : Prop where
  segments : ∀ segment, segment ∈ p.segments ↔ ∃ (name : String) (contents : Bytes),
    (.ofString name, .file contents) ∈ entries ∧ (SegmentName.ofString name).isSome ∧
      segment = ⟨p.path.join name⟩
  once : p.segments.Nodup
  sorted : p.segments.Pairwise Segment.Precedes
  snapshot : ∀ path, p.snapshot = some path ↔
    path = p.path.join snapshotName ∧ ∃ contents, (.ofString snapshotName, .file contents) ∈ entries

/-! ## Files by name -/

theorem mem_fileNames :
    name ∈ fileNames entries ↔ ∃ contents, (.ofString name, .file contents) ∈ entries := by
  constructor
  · intro member
    obtain ⟨⟨raw, node⟩, among, decoded⟩ := List.mem_filterMap.mp member
    obtain ⟨there, isFile⟩ := List.mem_filter.mp among
    obtain rfl := RawText.text?_eq_some_iff.mp decoded
    cases node with
    | file contents => exact ⟨contents, there⟩
    | dir _ => cases isFile
  · rintro ⟨contents, member⟩
    exact List.mem_filterMap.mpr
      ⟨_, List.mem_filter.mpr ⟨member, rfl⟩, RawText.text?_ofString name⟩

theorem nodup_fileNames (once : (entries.map Prod.fst).Nodup) : (fileNames entries).Nodup := by
  have files : ((entries.filter fun entry => entry.2.isFile).map Prod.fst).Nodup :=
    once.sublist (List.filter_sublist.map Prod.fst)
  have texts : fileNames entries = ((entries.filter fun entry => entry.2.isFile).map
      Prod.fst).filterMap RawText.text? := by
    rw [List.filterMap_map]
    rfl
  rw [texts]
  refine files.filterMap fun raw raw' name decoded decoded' => ?_
  rw [RawText.text?_eq_some_iff.mp decoded, RawText.text?_eq_some_iff.mp decoded']

theorem ReplayOrder.ofString_eq {named : List (SegmentName × String)}
    (order : ReplayOrder files named) {entry : SegmentName × String} (member : entry ∈ named) :
    entry.2 ∈ files ∧ SegmentName.ofString entry.2 = some entry.1 := by
  obtain ⟨file, among, parsed⟩ := List.mem_filterMap.mp (order.perm.subset member)
  obtain ⟨name, read, rfl⟩ := Option.map_eq_some_iff.mp parsed
  exact ⟨among, read⟩

theorem mem_segmentNames :
    name ∈ segmentNames files ↔ name ∈ files ∧ (SegmentName.ofString name).isSome := by
  obtain ⟨named, order, names⟩ := segmentNames_replayOrder files
  rw [names]
  constructor
  · intro member
    obtain ⟨entry, among, rfl⟩ := List.mem_map.mp member
    obtain ⟨file, parsed⟩ := order.ofString_eq among
    exact ⟨file, Option.isSome_of_eq_some parsed⟩
  · rintro ⟨file, parsed⟩
    obtain ⟨parsed, read⟩ := Option.isSome_iff_exists.mp parsed
    refine List.mem_map.mpr ⟨(parsed, name), order.perm.symm.subset ?_, rfl⟩
    exact List.mem_filterMap.mpr ⟨name, file, by rw [read]; rfl⟩

theorem nodup_segmentNames (once : files.Nodup) : (segmentNames files).Nodup := by
  obtain ⟨named, order, names⟩ := segmentNames_replayOrder files
  rw [names, (order.perm.map Prod.snd).nodup_iff, List.map_filterMap]
  refine List.Nodup.filterMap (fun file file' name parsed parsed' => ?_) once
  simp only [Option.mem_def, Option.map_map, Option.map_eq_some_iff] at parsed parsed'
  obtain ⟨⟨_, _, same⟩, ⟨_, _, same'⟩⟩ := And.intro parsed parsed'
  exact same.trans same'.symm

theorem ReplayOrder.name?_eq {named : List (SegmentName × String)}
    (order : ReplayOrder (fileNames entries) named) (formed : (FileNode.dir entries).WellFormed)
    {entry : SegmentName × String} (member : entry ∈ named) :
    (Segment.mk (path.join entry.2)).name? = some entry.1 := by
  obtain ⟨file, parsed⟩ := order.ofString_eq member
  obtain ⟨contents, there⟩ := mem_fileNames.mp file
  rw [Segment.name?_join (formed.named there), parsed]

theorem lists_ofEntries (formed : (FileNode.dir entries).WellFormed) :
    (ofEntries ntp revision path entries).Lists entries := by
  have named {name : String} (member : name ∈ fileNames entries) :
      IsFileName (.ofString name) := by
    obtain ⟨contents, there⟩ := mem_fileNames.mp member
    exact formed.named there
  constructor
  case segments =>
    intro segment
    simp only [ofEntries, List.mem_map, mem_segmentNames, mem_fileNames]
    constructor
    · rintro ⟨name, ⟨⟨contents, there⟩, parsed⟩, rfl⟩
      exact ⟨name, contents, there, parsed, rfl⟩
    · rintro ⟨name, contents, there, parsed, rfl⟩
      exact ⟨name, ⟨⟨contents, there⟩, parsed⟩, rfl⟩
  case once =>
    refine List.Nodup.map_on (fun name member name' member' same => ?_)
      (nodup_segmentNames (nodup_fileNames formed.once))
    have fileName := congrArg (fun segment => segment.path.fileName) same
    simp only [Path.fileName_join (named (mem_segmentNames.mp member).1).plain,
      Path.fileName_join (named (mem_segmentNames.mp member').1).plain] at fileName
    exact RawText.ofString_inj.mp (Option.some.inj fileName)
  case sorted =>
    obtain ⟨order, replay, names⟩ := segmentNames_replayOrder (fileNames entries)
    rw [ofEntries, names, List.map_map, List.pairwise_map]
    exact replay.sorted.imp_of_mem fun {a b} member member' precedes =>
      ⟨a.1, b.1, replay.name?_eq formed member, replay.name?_eq formed member', precedes⟩
  case snapshot =>
    intro file
    simp only [ofEntries]
    rw [← mem_fileNames]
    split
    · rename_i there
      simp [there, eq_comm]
    · rename_i missing
      simp [missing]

/-! ## Without ties -/

def Untied (p : Partition) : Prop :=
  p.segments.Pairwise fun a b =>
    (a.name?.map fun n => (n.baseOffset, n.term)) ≠ b.name?.map fun n => (n.baseOffset, n.term)

theorem ReplayOrder.untied_iff {named : List (SegmentName × String)}
    (order : ReplayOrder (fileNames entries) named) (formed : (FileNode.dir entries).WellFormed)
    (names : segmentNames (fileNames entries) = named.map Prod.snd) :
    (ofEntries ntp revision path entries).Untied ↔ named.Pairwise fun a b =>
      (a.1.baseOffset, a.1.term) ≠ (b.1.baseOffset, b.1.term) := by
  rw [Untied, ofEntries, names, List.map_map, List.pairwise_map]
  refine List.Pairwise.iff_of_mem fun {a b} member member' => ?_
  simp only [Function.comp_apply, order.name?_eq formed member, order.name?_eq formed member',
    Option.map_some, ne_eq, Option.some_inj]

/-- Whether segments tie can be seen from the names of the files, in any order. -/
theorem untied_ofEntries_iff (formed : (FileNode.dir entries).WellFormed) :
    (ofEntries ntp revision path entries).Untied ↔
      ((fileNames entries).filterMap SegmentName.ofString).Pairwise fun a b =>
        (a.baseOffset, a.term) ≠ (b.baseOffset, b.term) := by
  obtain ⟨named, order, names⟩ := segmentNames_replayOrder (fileNames entries)
  have perm := order.perm.map Prod.fst
  rw [List.map_filterMap] at perm
  have parsed : ((fileNames entries).filterMap fun file =>
      ((SegmentName.ofString file).map (·, file)).map Prod.fst) =
      (fileNames entries).filterMap SegmentName.ofString :=
    List.filterMap_congr fun file _ => by cases SegmentName.ofString file <;> rfl
  rw [order.untied_iff formed names, ← parsed,
    ← perm.pairwise_iff fun apart tie => apart tie.symm, List.pairwise_map]

theorem ofEntries_eq_of_perm (formed : (FileNode.dir entries).WellFormed)
    (same : (fileNames entries).Perm (fileNames entries'))
    (untied : (ofEntries ntp revision path entries).Untied) :
    ofEntries ntp revision path entries' = ofEntries ntp revision path entries := by
  obtain ⟨named, order, names⟩ := segmentNames_replayOrder (fileNames entries)
  have order' : ReplayOrder (fileNames entries') named :=
    ⟨order.perm.trans (same.filterMap _), order.sorted⟩
  have apart := (order.untied_iff formed names).mp untied
  have strict : named.Pairwise fun a b => ¬ b.1.Precedes a.1 :=
    (order.sorted.and apart).imp fun both late => both.2 (both.1.antisymm late)
  have segments : segmentNames (fileNames entries') = segmentNames (fileNames entries) := by
    rw [order'.segmentNames_eq strict, names]
  simp only [ofEntries, segments, same.mem_iff]

end Partition
end PartitionLog
