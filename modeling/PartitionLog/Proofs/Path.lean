import Mathlib.Data.List.Basic
import PartitionLog.FileTree

/-!
# Paths of what is in a directory

The path of a child is what it takes to stand in front of a name, and the name. So a child has its
name as the last part of its path (`fileName_join`), and the names on the way down are the last
fields of the path (`fields_descend`) and can be read off it (`descend_inj`). Such a path is refused
for a NUL in one of the names or for its length only (`accept_descend_of_plain`).
-/
namespace PartitionLog

/-- A name that an entry of a directory can have. -/
structure IsFileName (name : RawText) : Prop where
  nonempty : name.bytes ≠ []
  ne_here : name.bytes ≠ [dot]
  ne_up : name.bytes ≠ [dot, dot]
  no_slash : slash ∉ name.bytes
  no_nul : 0 ∉ name.bytes
  short : name.bytes.length ≤ FileNode.nameLimit

instance (name : RawText) : Decidable (IsFileName name) :=
  decidable_of_iff (name.bytes ≠ [] ∧ name.bytes ≠ [dot] ∧ name.bytes ≠ [dot, dot] ∧
      slash ∉ name.bytes ∧ 0 ∉ name.bytes ∧ name.bytes.length ≤ FileNode.nameLimit)
    ⟨fun ⟨nonempty, here, up, slash, nul, short⟩ => ⟨nonempty, here, up, slash, nul, short⟩,
      fun ⟨nonempty, here, up, slash, nul, short⟩ => ⟨nonempty, here, up, slash, nul, short⟩⟩

/-- A name that stands for itself in a path, whether or not an entry can have it. -/
structure IsPlainName (name : RawText) : Prop where
  nonempty : name.bytes ≠ []
  ne_here : name.bytes ≠ [dot]
  ne_up : name.bytes ≠ [dot, dot]
  no_slash : slash ∉ name.bytes

instance (name : RawText) : Decidable (IsPlainName name) :=
  decidable_of_iff (name.bytes ≠ [] ∧ name.bytes ≠ [dot] ∧ name.bytes ≠ [dot, dot] ∧
      slash ∉ name.bytes)
    ⟨fun ⟨nonempty, here, up, slash⟩ => ⟨nonempty, here, up, slash⟩,
      fun ⟨nonempty, here, up, slash⟩ => ⟨nonempty, here, up, slash⟩⟩

theorem IsFileName.plain {name : RawText} (named : IsFileName name) : IsPlainName name :=
  ⟨named.nonempty, named.ne_here, named.ne_up, named.no_slash⟩

namespace Path

variable {path : Path} {name : RawText} {names : List RawText}

/-! ## What stands in front of a name -/

def front (path : Path) : Bytes :=
  if path.text.bytes = [] ∨ path.text.bytes.getLast? = some slash then path.text.bytes
  else path.text.bytes ++ [slash]

theorem front_of_last {start : Bytes} {last : UInt8}
    (text : path.text.bytes = start ++ [last]) (here : last ≠ slash) :
    path.front = path.text.bytes ++ [slash] := by
  have found : path.text.bytes.getLast? = some last := by rw [text, List.getLast?_concat]
  rw [front, if_neg]
  rintro (none | closed)
  · rw [none] at found
    cases found
  · exact here (Option.some.inj (found.symm.trans closed))

theorem front_cases (path : Path) :
    (path.text.bytes = [] ∧ path.front = []) ∨
      ∃ start, path.front = start ++ [slash] ∧
        (path.text.bytes = start ∨ path.text.bytes = start ++ [slash]) := by
  unfold front
  split
  · rename_i closed
    cases closed with
    | inl none => exact .inl ⟨none, none⟩
    | inr last =>
      obtain ⟨start, split⟩ := List.getLast?_eq_some_iff.mp last
      exact .inr ⟨start, split, .inr split⟩
  · exact .inr ⟨_, rfl, .inl rfl⟩

theorem text_isPrefix_front (path : Path) : path.text.bytes <+: path.front := by
  unfold front
  split
  · exact List.prefix_rfl
  · exact List.prefix_append _ _

theorem bytes_join_of_head? (relative : name.bytes.head? ≠ some slash) :
    (path.join name).text.bytes = path.front ++ name.bytes := by
  unfold join front
  rw [if_neg relative]
  split
  · rfl
  · exact congrArg (· ++ name.bytes) rfl

theorem bytes_join (plain : IsPlainName name) :
    (path.join name).text.bytes = path.front ++ name.bytes :=
  bytes_join_of_head? fun rooted => plain.no_slash (List.mem_of_mem_head? rooted)

theorem front_join (plain : IsPlainName name) :
    (path.join name).front = path.front ++ (name.bytes ++ [slash]) := by
  have text : (path.join name).text.bytes = path.front ++ name.bytes := bytes_join plain
  have some : name.bytes ≠ [] := plain.nonempty
  have parts := List.dropLast_concat_getLast some
  have here : name.bytes.getLast some ≠ slash :=
    fun closed => plain.no_slash (closed ▸ List.getLast_mem some)
  have ends : (path.join name).text.bytes =
      path.front ++ name.bytes.dropLast ++ [name.bytes.getLast some] := by
    rw [text, List.append_assoc, parts]
  rw [front_of_last ends here, text, List.append_assoc]

theorem front_descend (plain : ∀ name ∈ names, IsPlainName name) :
    (path.descend names).front = path.front ++ names.flatMap fun name => name.bytes ++ [slash] := by
  induction names generalizing path with
  | nil => simp [descend]
  | cons name names ih =>
    have down : path.descend (name :: names) = (path.join name).descend names := rfl
    rw [down, ih fun other member => plain other (List.mem_cons_of_mem _ member),
      front_join (plain name List.mem_cons_self), List.flatMap_cons, List.append_assoc]

theorem length_join_le (plain : IsPlainName name) :
    path.text.bytes.length ≤ (path.join name).text.bytes.length := by
  have text : (path.join name).text.bytes = path.front ++ name.bytes := bytes_join plain
  rw [text, List.length_append]
  exact Nat.le_add_right_of_le path.text_isPrefix_front.length_le

theorem length_descend_le (plain : ∀ name ∈ names, IsPlainName name) :
    path.text.bytes.length ≤ (path.descend names).text.bytes.length := by
  induction names generalizing path with
  | nil => exact Nat.le_refl _
  | cons name names ih =>
    obtain ⟨first, rest⟩ := List.forall_mem_cons.mp plain
    exact Nat.le_trans (length_join_le first) (ih rest)

theorem descend_append (path : Path) (names names' : List RawText) :
    path.descend (names ++ names') = (path.descend names).descend names' :=
  List.foldl_append

theorem descend_concat (path : Path) (names : List RawText) (name : RawText) :
    path.descend (names ++ [name]) = (path.descend names).join name :=
  descend_append path names [name]

/-! ## The names of a path -/

theorem names_inj {names names' : List RawText} (plain : ∀ name ∈ names, IsPlainName name)
    (plain' : ∀ name ∈ names', IsPlainName name)
    (same : (names.flatMap fun name => name.bytes ++ [slash]) =
      names'.flatMap fun name => name.bytes ++ [slash]) : names = names' := by
  induction names generalizing names' with
  | nil => cases names' <;> simp_all
  | cons name names ih =>
    cases names' with
    | nil => simp at same
    | cons name' names' =>
      simp only [List.flatMap_cons, List.append_assoc, List.singleton_append] at same
      have single := (plain name List.mem_cons_self).no_slash
      have single' := (plain' name' List.mem_cons_self).no_slash
      have fields := congrArg (List.splitOn slash) same
      rw [List.splitOn_append_cons_self_of_not_mem single,
        List.splitOn_append_cons_self_of_not_mem single', List.cons.injEq] at fields
      obtain rfl : name = name' := RawText.ext fields.1
      have rest := List.cons.inj (List.append_cancel_left same)
      rw [ih (fun other member => plain other (List.mem_cons_of_mem _ member))
        (fun other member => plain' other (List.mem_cons_of_mem _ member)) rest.2]

theorem descend_inj {names names' : List RawText} (plain : ∀ name ∈ names, IsPlainName name)
    (plain' : ∀ name ∈ names', IsPlainName name) :
    path.descend names = path.descend names' ↔ names = names' := by
  refine ⟨fun same => names_inj plain plain' ?_, fun same => same ▸ rfl⟩
  have fronts := congrArg front same
  rw [front_descend plain, front_descend plain'] at fronts
  exact List.append_cancel_left fronts

/-- What stands in front of further fields: an empty field at the end makes room for them. -/
def Leads (fields front : List Bytes) : Prop := fields = front ∨ fields = front ++ [[]]

theorem Leads.eq_of_concat {fields front : List Bytes} {field : Bytes}
    (leads : Leads (fields ++ [field]) front) (some : field ≠ []) : front = fields ++ [field] := by
  cases leads with
  | inl same => exact same.symm
  | inr emptied =>
    have same := (List.append_inj' emptied rfl).2
    exact absurd (List.singleton_inj.mp same) some

theorem fields_join (path : Path) (plain : IsPlainName name) :
    ∃ front, (path.join name).fields = front ++ [name.bytes] ∧ Leads path.fields front := by
  have single : name.bytes.splitOn slash = [name.bytes] := List.splitOn_eq_singleton plain.no_slash
  rw [fields, bytes_join plain, fields]
  obtain ⟨text, front⟩ | ⟨start, front, text⟩ := path.front_cases
  · exact ⟨[], by rw [front, List.nil_append, single, List.nil_append], .inr (by rw [text]; rfl)⟩
  · refine ⟨start.splitOn slash, ?_, text.imp (congrArg _) fun text => ?_⟩
    · rw [front, List.append_assoc, List.singleton_append, List.splitOn_append_cons_self, single]
    · rw [text, List.splitOn_append_cons_self]
      rfl

theorem bytes_join_ne_nil (plain : IsPlainName name) : (path.join name).text.bytes ≠ [] := by
  intro empty
  have text : (path.join name).text.bytes = path.front ++ name.bytes := bytes_join plain
  rw [empty] at text
  exact plain.nonempty (List.append_eq_nil_iff.mp text.symm).2

/-- Where every child adds its name to the fields of a path, so do all names on the way down. -/
theorem descend_of_join {fieldsOf : Path → Option (List Bytes)}
    (join : ∀ {path : Path} {name : RawText} {fields : List Bytes}, path.text.bytes ≠ [] →
      IsPlainName name → fieldsOf path = some fields →
      ∃ front, fieldsOf (path.join name) = some (front ++ [name.bytes]) ∧ Leads fields front)
    {fields : List Bytes} (nonempty : path.text.bytes ≠ [])
    (plain : ∀ name ∈ names, IsPlainName name) (found : fieldsOf path = some fields) :
    ∃ front, fieldsOf (path.descend names) = some (front ++ names.map RawText.bytes) ∧
      Leads fields front := by
  induction names generalizing path fields with
  | nil => exact ⟨fields, by simpa [descend] using found, .inl rfl⟩
  | cons name names ih =>
    obtain ⟨first, rest⟩ := List.forall_mem_cons.mp plain
    obtain ⟨front, child, leads⟩ := join nonempty first found
    obtain ⟨front', below, leads'⟩ := ih (bytes_join_ne_nil first) rest child
    rw [leads'.eq_of_concat first.nonempty] at below
    exact ⟨front, by simpa [descend] using below, leads⟩

theorem fields_descend (nonempty : path.text.bytes ≠ [])
    (plain : ∀ name ∈ names, IsPlainName name) :
    ∃ front, (path.descend names).fields = front ++ names.map RawText.bytes := by
  have join {path : Path} {name : RawText} {fields : List Bytes} (_ : path.text.bytes ≠ [])
      (plain : IsPlainName name) (found : some path.fields = some fields) :
      ∃ front, some (path.join name).fields = some (front ++ [name.bytes]) ∧
        Leads fields front := by
    obtain ⟨front, child, leads⟩ := path.fields_join plain
    exact ⟨front, congrArg some child, Option.some.inj found ▸ leads⟩
  obtain ⟨front, below, -⟩ := descend_of_join join nonempty plain rfl
  exact ⟨front, Option.some.inj below⟩

/-! ### Parts -/

theorem ofField_bytes (plain : IsPlainName name) :
    Part.ofField name.bytes = some (.name name) := by
  have stays : ¬ (name.bytes = [] ∨ name.bytes = [dot]) :=
    not_or.mpr ⟨plain.nonempty, plain.ne_here⟩
  rw [Part.ofField, if_neg stays, if_neg plain.ne_up]

theorem parts_of_fields {front : List Bytes} (plain : ∀ name ∈ names, IsPlainName name)
    (fields : path.fields = front ++ names.map RawText.bytes) :
    ∃ parts, path.parts = parts ++ names.map Part.name := by
  have each : (names.map RawText.bytes).filterMap Part.ofField = names.map Part.name := by
    rw [List.filterMap_map, ← List.filterMap_eq_map]
    exact List.filterMap_congr fun name member => ofField_bytes (plain name member)
  refine ⟨startOfFields path.fields ++ front.filterMap Part.ofField, ?_⟩
  rw [parts, List.append_assoc, ← each, ← List.filterMap_append, ← fields]

theorem fileName_join (plain : IsPlainName name) : (path.join name).fileName = some name := by
  obtain ⟨front, fields, -⟩ := path.fields_join plain
  obtain ⟨parts, split⟩ := parts_of_fields (List.forall_mem_singleton.mpr plain) fields
  rw [fileName, split, List.map_singleton, List.getLast?_concat]

/-! ## Refused paths -/

theorem bytes_descend_ne_nil (nonempty : path.text.bytes ≠ [])
    (plain : ∀ name ∈ names, IsPlainName name) : (path.descend names).text.bytes ≠ [] := by
  cases List.eq_nil_or_concat names with
  | inl none => exact none ▸ nonempty
  | inr last =>
    obtain ⟨names, name, rfl⟩ := last
    rw [List.concat_eq_append, descend_concat]
    exact bytes_join_ne_nil (plain name (by simp))

theorem mem_front_iff {c : UInt8} (other : c ≠ slash) : c ∈ path.front ↔ c ∈ path.text.bytes := by
  unfold front
  split <;> simp_all

theorem mem_text_descend_iff {c : UInt8} (other : c ≠ slash)
    (plain : ∀ name ∈ names, IsPlainName name) :
    c ∈ (path.descend names).text.bytes ↔
      c ∈ path.text.bytes ∨ ∃ name ∈ names, c ∈ name.bytes := by
  rw [← mem_front_iff other, front_descend plain, List.mem_append, List.mem_flatMap,
    mem_front_iff other]
  simp [other]

end Path

namespace FileTree

theorem accept_eq_ok_iff {path : Path} :
    accept path = .ok () ↔ 0 ∉ path.text.bytes ∧ path.text.bytes ≠ [] ∧
      path.text.bytes.length < pathLimit := by
  unfold accept
  split
  · simp_all
  · split
    · simp_all
    · split <;> simp_all

theorem accept_descend_of_plain {path : Path} {names : List RawText} (base : accept path = .ok ())
    (plain : ∀ name ∈ names, IsPlainName name) :
    accept (path.descend names) =
      if ∃ name ∈ names, 0 ∈ name.bytes then .error .invalidName
      else if pathLimit ≤ (path.descend names).text.bytes.length then .error .nameTooLong
      else .ok () := by
  obtain ⟨nul, nonempty, -⟩ := accept_eq_ok_iff.mp base
  have among : 0 ∈ (path.descend names).text.bytes ↔ ∃ name ∈ names, 0 ∈ name.bytes :=
    (Path.mem_text_descend_iff (by decide) plain).trans (or_iff_right nul)
  rw [accept, if_neg (Path.bytes_descend_ne_nil nonempty plain)]
  simp only [among]

end FileTree
end PartitionLog
