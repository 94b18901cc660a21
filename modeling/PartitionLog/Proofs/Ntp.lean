import Mathlib.Data.List.Basic
import PartitionLog.Ntp
import PartitionLog.Proofs.Decimal

/-!
# Partitions named in text

A text names a partition if it has three parts, the first two of them with something in them, and
the third a number of the right size. Otherwise the error tells the shape from the number, and the
shape comes first. A partition is read back from what is printed for it: `ofString_exact`.
-/
namespace PartitionLog.Ntp

variable {text ns topic last : String} {ntp : Ntp}

/-- A text with two slashes, and what they leave of it. -/
structure Parts (text ns topic last : String) : Prop where
  slashes : text.toList.count '/' = 2
  joined : text = ns ++ "/" ++ topic ++ "/" ++ last

def Names (text : String) (ntp : Ntp) : Prop :=
  ∃ last, Parts text ntp.ns ntp.topic last ∧ ntp.ns ≠ "" ∧ ntp.topic ≠ "" ∧
    Decimal.Signed last.toList ntp.partition.toInt

inductive Refused (text : String) : NtpError → Prop
  | slashes : text.toList.count '/' ≠ 2 → Refused text (.wrongShape text)
  | empty {ns topic last : String} : Parts text ns topic last → ns = "" ∨ topic = "" →
      Refused text (.wrongShape text)
  | number {ns topic last : String} : Parts text ns topic last → ns ≠ "" → topic ≠ "" →
      (∀ n, Decimal.Signed last.toList n →
        n < Int32.minValue.toInt ∨ Int32.maxValue.toInt < n) →
      Refused text (.invalidPartition last)

/-! ## Parts -/

theorem length_splitOn (text : List Char) (mark : Char) :
    (text.splitOn mark).length = text.count mark + 1 := by
  induction text with
  | nil => rfl
  | cons c text ih =>
    rw [List.splitOn_cons_eq_if_modifyHead, List.count_cons]
    split <;> simp [ih]

theorem count_joined (ns topic last : String) :
    (ns ++ "/" ++ topic ++ "/" ++ last).toList.count '/' =
      ns.toList.count '/' + topic.toList.count '/' + last.toList.count '/' + 2 := by
  have slash : "/".toList.count '/' = 1 := rfl
  simp only [String.toList_append, List.count_append, slash]
  omega

theorem Parts.plain (parts : Parts text ns topic last) :
    '/' ∉ ns.toList ∧ '/' ∉ topic.toList ∧ '/' ∉ last.toList := by
  obtain ⟨slashes, rfl⟩ := parts
  rw [count_joined] at slashes
  simp only [← List.count_eq_zero]
  omega

theorem parts_iff : Parts text ns topic last ↔
    text.toList.splitOn '/' = [ns.toList, topic.toList, last.toList] := by
  constructor
  · intro parts
    obtain ⟨ns_plain, topic_plain, last_plain⟩ := parts.plain
    have joined : text.toList = ns.toList ++ '/' :: (topic.toList ++ '/' :: last.toList) := by
      simp [parts.joined]
    rw [joined, List.splitOn_append_cons_self_of_not_mem ns_plain,
      List.splitOn_append_cons_self_of_not_mem topic_plain, List.splitOn_eq_singleton last_plain]
  · intro split
    have length := length_splitOn text.toList '/'
    rw [split] at length
    refine ⟨(Nat.succ.inj length).symm, String.toList_inj.mp ?_⟩
    have joined : ['/'].intercalate (text.toList.splitOn '/') = text.toList :=
      List.intercalate_splitOn '/'
    rw [← joined, split]
    simp [List.intercalate, List.intersperse]

theorem exists_parts (slashes : text.toList.count '/' = 2) :
    ∃ ns topic last, Parts text ns topic last := by
  have length := length_splitOn text.toList '/'
  rw [slashes] at length
  obtain ⟨ns, topic, last, split⟩ := List.length_eq_three.mp length
  refine ⟨String.ofList ns, String.ofList topic, String.ofList last, parts_iff.mpr ?_⟩
  simpa using split

/-! ## Reading -/

theorem ofString_of_count_ne (slashes : text.toList.count '/' ≠ 2) :
    ofString text = .error (.wrongShape text) := by
  unfold ofString
  split
  · rename_i split
    have length := length_splitOn text.toList '/'
    rw [split] at length
    exact absurd (Nat.succ.inj length).symm slashes
  · rfl

theorem ofString_of_parts (parts : Parts text ns topic last) :
    ofString text =
      if ns = "" ∨ topic = "" then .error (.wrongShape text)
      else
        match Decimal.int32 last.toList with
        | some n => .ok ⟨ns, topic, n⟩
        | none => .error (.invalidPartition last) := by
  rw [ofString, parts_iff.mp parts]
  refine if_congr (or_congr String.toList_eq_nil_iff String.toList_eq_nil_iff) rfl ?_
  cases Decimal.int32 last.toList <;> simp only [String.ofList_toList]

theorem Names.ofString (named : Names text ntp) : ofString text = .ok ntp := by
  obtain ⟨last, parts, ns, topic, number⟩ := named
  rw [ofString_of_parts parts, if_neg (not_or.mpr ⟨ns, topic⟩),
    Decimal.int32_eq_some_iff.mpr number]

theorem Refused.ofString {e : NtpError} (refused : Refused text e) :
    ofString text = .error e := by
  cases refused with
  | slashes other => exact ofString_of_count_ne other
  | empty parts empty => rw [ofString_of_parts parts, if_pos empty]
  | number parts ns topic outside =>
    rw [ofString_of_parts parts, if_neg (not_or.mpr ⟨ns, topic⟩),
      Decimal.int32_eq_none_iff.mpr outside]

theorem names_or_refused (text : String) :
    (∃ ntp, Names text ntp) ∨ ∃ e, Refused text e := by
  by_cases slashes : text.toList.count '/' = 2
  · obtain ⟨ns, topic, last, parts⟩ := exists_parts slashes
    by_cases empty : ns = "" ∨ topic = ""
    · exact .inr ⟨_, .empty parts empty⟩
    · obtain ⟨ns_some, topic_some⟩ := not_or.mp empty
      cases read : Decimal.int32 last.toList with
      | some n =>
        have number := Decimal.int32_eq_some_iff.mp read
        exact .inl ⟨⟨ns, topic, n⟩, last, parts, ns_some, topic_some, number⟩
      | none =>
        have outside := Decimal.int32_eq_none_iff.mp read
        exact .inr ⟨_, .number parts ns_some topic_some outside⟩
  · exact .inr ⟨_, .slashes slashes⟩

theorem ofString_eq_ok_iff : ofString text = .ok ntp ↔ Names text ntp := by
  refine ⟨fun read => ?_, Names.ofString⟩
  obtain ⟨ntp', named⟩ | ⟨e, refused⟩ := names_or_refused text
  · obtain rfl := Except.ok.inj (named.ofString.symm.trans read)
    exact named
  · cases refused.ofString.symm.trans read

theorem ofString_eq_error_iff {e : NtpError} : ofString text = .error e ↔ Refused text e := by
  refine ⟨fun failed => ?_, Refused.ofString⟩
  obtain ⟨ntp, named⟩ | ⟨e', refused⟩ := names_or_refused text
  · cases named.ofString.symm.trans failed
  · obtain rfl := Except.error.inj (refused.ofString.symm.trans failed)
    exact refused

/-! ## Printing -/

theorem names_toString (ns_some : ntp.ns ≠ "") (topic_some : ntp.topic ≠ "")
    (ns_plain : '/' ∉ ntp.ns.toList) (topic_plain : '/' ∉ ntp.topic.toList) :
    Names ntp.toString ntp := by
  have number := Decimal.Signed.repr ntp.partition.toInt
  have plain := number.notMem (c := '/') rfl (by decide) (by decide)
  refine ⟨_, ⟨?_, rfl⟩, ns_some, topic_some, number⟩
  rw [toString, count_joined, List.count_eq_zero.mpr ns_plain, List.count_eq_zero.mpr topic_plain,
    List.count_eq_zero.mpr plain]

theorem Names.reprint (named : Names text ntp) : Names ntp.toString ntp := by
  obtain ⟨last, parts, ns_some, topic_some, -⟩ := named
  obtain ⟨ns_plain, topic_plain, -⟩ := parts.plain
  exact names_toString ns_some topic_some ns_plain topic_plain

theorem ofString_exact (text : String) (ntp : Ntp) :
    (ofString text = .ok ntp ↔ Names text ntp) ∧
      (∀ e, ofString text = .error e ↔ Refused text e) ∧
      (ntp.ns ≠ "" → ntp.topic ≠ "" → '/' ∉ ntp.ns.toList → '/' ∉ ntp.topic.toList →
        ofString ntp.toString = .ok ntp) ∧
      (ofString text = .ok ntp → ofString ntp.toString = .ok ntp) := by
  refine ⟨ofString_eq_ok_iff, fun e => ofString_eq_error_iff, ?_, fun read => ?_⟩
  · intro ns_some topic_some ns_plain topic_plain
    exact (names_toString ns_some topic_some ns_plain topic_plain).ofString
  · exact (ofString_eq_ok_iff.mp read).reprint.ofString

theorem ofString_exact_signed :
    ofString "kafka/t/-007" = .ok ⟨"kafka", "t", -7⟩ ∧
      Names "kafka/t/-007" ⟨"kafka", "t", -7⟩ ∧
      Ntp.toString ⟨"kafka", "t", -7⟩ = "kafka/t/-7" ∧
      ofString (Ntp.toString ⟨"kafka", "t", -7⟩) = .ok ⟨"kafka", "t", -7⟩ := by
  have read : ofString "kafka/t/-007" = .ok ⟨"kafka", "t", -7⟩ := rfl
  obtain ⟨names, -, printed, -⟩ := ofString_exact "kafka/t/-007" ⟨"kafka", "t", -7⟩
  exact ⟨read, names.mp read, rfl, printed (by decide) (by decide) (by decide) (by decide)⟩

/-- A missing topic counts before a partition that is no number. -/
example : ofString "kafka//x" = .error (.wrongShape "kafka//x") := rfl

end PartitionLog.Ntp
