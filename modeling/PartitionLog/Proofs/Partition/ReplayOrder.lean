import PartitionLog.Partition.Basic

/-!
# Replay order

The segments of a partition are the files with the name of a segment, each once, by first offset
and then by term: `segmentNames_replayOrder`.
-/
namespace PartitionLog

namespace SegmentName

def Precedes (a b : SegmentName) : Prop :=
  a.baseOffset < b.baseOffset ∨ (a.baseOffset = b.baseOffset ∧ a.term ≤ b.term)

theorem le_iff {a b : SegmentName} : a.le b = true ↔ a.Precedes b := by
  simp [le, Precedes]

theorem Precedes.trans {a b c : SegmentName} (ab : a.Precedes b) (bc : b.Precedes c) :
    a.Precedes c := by
  unfold Precedes at *
  grind

theorem Precedes.total (a b : SegmentName) : a.Precedes b ∨ b.Precedes a := by
  unfold Precedes
  grind

end SegmentName

namespace Partition

structure ReplayOrder (files : List String) (named : List (SegmentName × String)) : Prop where
  perm : named.Perm (files.filterMap fun file => (SegmentName.ofString file).map (·, file))
  sorted : named.Pairwise fun a b => a.1.Precedes b.1

theorem segmentNames_replayOrder (files : List String) :
    ∃ named, ReplayOrder files named ∧ segmentNames files = named.map Prod.snd := by
  refine ⟨_, ⟨List.mergeSort_perm _ _, ?_⟩, rfl⟩
  refine (List.pairwise_mergeSort (fun a b c ab bc => ?_) (fun a b => ?_) _).imp
    fun le => SegmentName.le_iff.mp le
  · exact SegmentName.le_iff.mpr ((SegmentName.le_iff.mp ab).trans (SegmentName.le_iff.mp bc))
  · rw [Bool.or_eq_true, SegmentName.le_iff, SegmentName.le_iff]
    exact SegmentName.Precedes.total a.1 b.1

/-- Without ties there is one order only. -/
theorem ReplayOrder.segmentNames_eq {files : List String} {named : List (SegmentName × String)}
    (order : ReplayOrder files named) (strict : named.Pairwise fun a b => ¬ b.1.Precedes a.1) :
    segmentNames files = named.map Prod.snd := by
  obtain ⟨named', order', names⟩ := segmentNames_replayOrder files
  have perm := order'.perm.trans order.perm.symm
  have untied : named'.Pairwise fun a b => ¬ (a.1.Precedes b.1 ∧ b.1.Precedes a.1) :=
    (perm.pairwise_iff fun apart tie => apart tie.symm).mpr (strict.imp fun late tie => late tie.2)
  have same : named' = named := by
    refine perm.eq_of_pairwise ?_ (order'.sorted.and untied)
      (order.sorted.and (strict.imp fun late tie => late tie.2))
    intro a b _ _ ab ba
    exact absurd ⟨ab.1, ba.1⟩ ab.2
  rw [names, same]

end Partition
end PartitionLog
