import PartitionLog.Partition.Fixture
import PartitionLog.Proofs.FileTree.Growth
import PartitionLog.Proofs.Partition.ListingOrder

/-!
# Finding what was created

Partitions created under an empty directory are what a scan of it finds, in order and nothing else:
`scan_created`. Creating all of them works if each could be created alone.
-/
namespace PartitionLog

namespace Partition

/-- A text that stands for itself in a path. -/
structure IsPlainText (text : String) : Prop where
  nonempty : text ≠ ""
  ne_here : text ≠ "."
  ne_up : text ≠ ".."
  no_slash : '/' ∉ text.toList

instance (text : String) : Decidable (IsPlainText text) :=
  decidable_of_iff (text ≠ "" ∧ text ≠ "." ∧ text ≠ ".." ∧ '/' ∉ text.toList)
    ⟨fun ⟨nonempty, here, up, slash⟩ => ⟨nonempty, here, up, slash⟩,
      fun ⟨nonempty, here, up, slash⟩ => ⟨nonempty, here, up, slash⟩⟩

theorem IsPlainText.isPlainName {text : String} (plain : IsPlainText text) :
    IsPlainName (.ofString text) := by
  have differs {other : String} (ne : text ≠ other) :
      (RawText.ofString text).bytes ≠ (RawText.ofString other).bytes :=
    fun same => ne (RawText.ofString_inj.mp (RawText.ext same))
  exact ⟨differs plain.nonempty, differs plain.ne_here, differs plain.ne_up,
    fun slash => plain.no_slash (RawText.slash_mem_bytes_ofString.mp slash)⟩

/-- The names of the directories on the way down to a partition. -/
def place (id : Ntp × Int64) : List RawText :=
  [id.1.ns, id.1.topic, directoryName id.1.partition id.2]

/-- A partition with nothing in its directory yet. -/
def created (base : Path) (id : Ntp × Int64) : Partition where
  ntp := id.1
  revision := id.2
  path := base.descend (place id)
  segments := []
  snapshot := none

theorem created_injective (base : Path) : Function.Injective (created base) := fun _ _ same =>
  Prod.ext (congrArg Partition.ntp same) (congrArg Partition.revision same)

theorem ofEntries_nil (base : Path) (id : Ntp × Int64) :
    ofEntries id.1 id.2 (base.descend (place id)) [] = created base id := by
  simp [ofEntries, created, fileNames, segmentNames]

/-! ## Names of directories -/

theorem toList_directoryName (partition : Int32) (revision : Int64) :
    (directoryName partition revision).toList =
      partition.toInt.repr.toList ++ '_' :: revision.toInt.repr.toList := by
  simp [directoryName]

theorem directoryName_spec (partition : Int32) (revision : Int64) :
    DirectoryName (directoryName partition revision) partition revision :=
  ⟨_, _, toList_directoryName partition revision,
    (Decimal.Signed.repr _).notMem rfl (by decide) (by decide), .repr _, .repr _⟩

theorem isPlainText_directoryName (partition : Int32) (revision : Int64) :
    IsPlainText (directoryName partition revision) := by
  have text := toList_directoryName partition revision
  have underscore : '_' ∈ (directoryName partition revision).toList := by simp [text]
  have no_slash (n : Int) : '/' ∉ n.repr.toList :=
    (Decimal.Signed.repr n).notMem rfl (by decide) (by decide)
  constructor
  case nonempty => rintro empty; simp [empty] at underscore
  case ne_here => rintro here; simp [here] at underscore
  case ne_up => rintro up; simp [up] at underscore
  case no_slash => simp [text, no_slash]

theorem DirectoryName.unique {name : String} {partition partition' : Int32}
    {revision revision' : Int64} (named : DirectoryName name partition revision)
    (named' : DirectoryName name partition' revision') :
    partition = partition' ∧ revision = revision' := by
  have read := ofDirectoryName_eq_some_iff.mpr named
  rw [ofDirectoryName_eq_some_iff.mpr named'] at read
  cases read
  exact ⟨rfl, rfl⟩

/-- Below a base, the path of a partition is its display name. -/
theorem descend_place (base : Path) {id : Ntp × Int64} (ns : IsPlainText id.1.ns)
    (topic : IsPlainText id.1.topic) :
    base.descend (place id) = base.join (created base id).displayName := by
  have split : (RawText.ofString (created base id).displayName).bytes =
      (RawText.ofString id.1.ns).bytes ++ slash :: ((RawText.ofString id.1.topic).bytes ++
        slash :: (RawText.ofString (directoryName id.1.partition id.2)).bytes) := by
    simp only [displayName, created, RawText.bytes_ofString_append, List.append_assoc]
    rfl
  have dir := (isPlainText_directoryName id.1.partition id.2).isPlainName
  have relative : (RawText.ofString (created base id).displayName).bytes.head? ≠ some slash := by
    rw [split, List.head?_append_of_ne_nil _ ns.isPlainName.nonempty]
    exact fun rooted => ns.isPlainName.no_slash (List.mem_of_mem_head? rooted)
  have text : (base.descend (place id)).text.bytes =
      (base.join (created base id).displayName).text.bytes := by
    rw [Path.bytes_join_of_head? relative, split, place]
    simp only [Path.descend, List.foldl_cons, List.foldl_nil, Path.front_join ns.isPlainName,
      Path.front_join topic.isPlainName, Path.bytes_join dir, List.append_assoc,
      List.cons_append, List.nil_append]
  exact congrArg Path.mk (RawText.ext text)

end Partition

namespace DataDir

variable {tree tree' : FileTree} {config : ReaderConfig} {base : Path}
  {top : List (RawText × FileNode)} {id : Ntp × Int64} {ids done : List (Ntp × Int64)}

/-! ## Creating one after the other -/

def createAll (tree : FileTree) (base : Path) (ids : List (Ntp × Int64)) :
    Except IoError FileTree :=
  ids.foldlM (fun tree id => Partition.create tree base id.1 id.2) tree

/-- Names that stand for themselves, and that a scan does not pass over. -/
structure Creatable (config : ReaderConfig) (id : Ntp × Int64) : Prop where
  ns : Partition.IsPlainText id.1.ns
  topic : Partition.IsPlainText id.1.topic
  included : ∀ name ∈ Partition.place id, config.passesOver name = false

instance (config : ReaderConfig) (id : Ntp × Int64) : Decidable (Creatable config id) :=
  decidable_of_iff (Partition.IsPlainText id.1.ns ∧ Partition.IsPlainText id.1.topic ∧
      ∀ name ∈ Partition.place id, config.passesOver name = false)
    ⟨fun ⟨ns, topic, included⟩ => ⟨ns, topic, included⟩,
      fun ⟨ns, topic, included⟩ => ⟨ns, topic, included⟩⟩

theorem Creatable.plain (creatable : Creatable config id) :
    ∀ name ∈ Partition.place id, IsPlainName name := by
  simp only [Partition.place, List.forall_mem_cons]
  exact ⟨creatable.ns.isPlainName, creatable.topic.isPlainName,
    (Partition.isPlainText_directoryName _ _).isPlainName, List.forall_mem_nil _⟩

/-- Under the base are the directories on the way to these partitions, and nothing else. -/
structure Made (tree : FileTree) (base : Path) (ids : List (Ntp × Int64))
    (top : List (RawText × FileNode)) : Prop extends tree.Bare base top where
  hasDir_iff : ∀ names, FileNode.HasDir top names ↔
    names = [] ∨ ∃ id ∈ ids, names <+: Partition.place id

theorem create_eq (tree : FileTree) (base : Path) (id : Ntp × Int64) :
    Partition.create tree base id.1 id.2 = tree.makeDirs (base.descend (Partition.place id)) := rfl

theorem Made.create (made : Made tree base done top) (creatable : Creatable config id)
    (room : FileTree.HasRoom base (Partition.place id)) :
    ∃ tree', Partition.create tree base id.1 id.2 = .ok tree' ∧
      Made tree' base (done ++ [id]) (FileNode.addDirs (Partition.place id) top) := by
  obtain ⟨tree', created, bare⟩ := made.toBare.makeDirs_eq_ok creatable.plain room
  refine ⟨tree', (create_eq tree base id).trans created, bare, fun names => ?_⟩
  rw [FileNode.hasDir_addDirs (made.formed.lookup made.there), made.hasDir_iff]
  simp only [List.mem_append, List.mem_singleton, or_and_right, exists_or, exists_eq_left]
  rw [or_comm, or_assoc]

theorem Made.exists_create_iff (made : Made tree base done top) (creatable : Creatable config id) :
    (∃ tree', Partition.create tree base id.1 id.2 = .ok tree') ↔
      FileTree.HasRoom base (Partition.place id) := by
  constructor
  · rintro ⟨tree', created⟩
    exact made.toBare.hasRoom_of_makeDirs creatable.plain ((create_eq _ _ _).symm.trans created)
  · intro room
    obtain ⟨tree', created, -⟩ := made.create creatable room
    exact ⟨tree', created⟩

theorem Made.createAll (made : Made tree base done top)
    (creatable : ∀ id ∈ ids, Creatable config id)
    (room : ∀ id ∈ ids, FileTree.HasRoom base (Partition.place id)) :
    ∃ tree' top', createAll tree base ids = .ok tree' ∧ Made tree' base (done ++ ids) top' := by
  induction ids generalizing tree done top with
  | nil => exact ⟨tree, top, rfl, by rwa [List.append_nil]⟩
  | cons id ids ih =>
    obtain ⟨first, rest⟩ := List.forall_mem_cons.mp creatable
    obtain ⟨first_room, rest_room⟩ := List.forall_mem_cons.mp room
    obtain ⟨next, created, made⟩ := made.create first first_room
    obtain ⟨tree', top', all, made⟩ := ih made rest rest_room
    rw [List.append_assoc] at made
    exact ⟨tree', top', bind_eq_ok_iff.mpr ⟨next, created, all⟩, made⟩

theorem Made.hasRoom (made : Made tree base done top)
    (creatable : ∀ id ∈ ids, Creatable config id)
    (all : DataDir.createAll tree base ids = .ok tree') :
    ∀ id ∈ ids, FileTree.HasRoom base (Partition.place id) := by
  induction ids generalizing tree done top with
  | nil => exact List.forall_mem_nil _
  | cons id ids ih =>
    obtain ⟨first, rest⟩ := List.forall_mem_cons.mp creatable
    obtain ⟨next, created, all⟩ := bind_eq_ok_iff.mp all
    have room := (made.exists_create_iff first).mp ⟨next, created⟩
    obtain ⟨next', created', made⟩ := made.create first room
    cases created.symm.trans created'
    exact List.forall_mem_cons.mpr ⟨room, ih made rest all⟩

/-! ## What a scan finds then -/

/-- Every directory on the way to a partition can be listed if that of the partition can be. -/
theorem Made.not_failsFor (made : Made tree base ids top)
    (creatable : ∀ id ∈ ids, Creatable config id)
    (room : ∀ id ∈ ids, FileTree.HasRoom base (Partition.place id)) (cause : IoError) :
    ¬ FailsFor tree config base top cause := by
  rintro ⟨names, found, after, lower, -, broken⟩
  have accepted := (FileTree.lookup_eq_ok_iff.mp made.there).1
  have fits : FileTree.accept (base.descend names) = .ok () := by
    obtain rfl | ⟨id, member, way⟩ := (made.hasDir_iff names).mp ⟨found, lower⟩
    · exact accepted
    · have plain := (creatable id member).plain
      have upper : ∀ name ∈ names, IsPlainName name := fun name among =>
        plain name (way.subset among)
      refine (FileTree.accept_descend_iff accepted upper).mpr
        ⟨fun name among => (room id member).no_nul name (way.subset among), ?_⟩
      obtain ⟨rest, split⟩ := way
      have fits := (room id member).fits
      rw [← split] at fits plain
      rw [Path.descend_append] at fits
      refine Nat.lt_of_le_of_lt (Path.length_descend_le fun name among => ?_) fits
      exact plain name (List.mem_append_right _ among)
  cases (FileTree.readFailure?_eq_none_iff.mpr ⟨fits, made.listed names⟩).symm.trans broken

/-- What is in the directory of a partition would be a directory, and there is none. -/
theorem Made.empty_of_dirAt (made : Made tree base ids top)
    {files : List (RawText × FileNode)} (lower : FileNode.DirAt top (Partition.place id) files) :
    files = [] := by
  refine List.eq_nil_iff_forall_not_mem.mpr fun entry member => ?_
  obtain ⟨name, node⟩ := entry
  obtain ⟨inner, rfl⟩ := ((lower.hollow made.hollow).child member).exists_dir
  have below := (FileNode.hasDir_concat_iff (made.formed.lookup made.there) lower).mpr
    ⟨inner, member⟩
  obtain none | ⟨id', -, deeper⟩ := (made.hasDir_iff _).mp below
  · cases none
  · exact absurd deeper.length_le (by simp [Partition.place])

theorem named_place (id : Ntp × Int64) : ∃ dir,
    (Partition.place id).filterMap RawText.text? = [id.1.ns, id.1.topic, dir] ∧
      Partition.DirectoryName dir id.1.partition id.2 := by
  refine ⟨_, ?_, Partition.directoryName_spec id.1.partition id.2⟩
  simp [Partition.place]

theorem Made.holds_iff (made : Made tree base ids top)
    (creatable : ∀ id ∈ ids, Creatable config id) {ntp : Ntp} {revision : Int64}
    {names : List RawText} {files : List (RawText × FileNode)} :
    Holds config top ntp revision names files ↔
      (ntp, revision) ∈ ids ∧ names = Partition.place (ntp, revision) ∧ files = [] := by
  constructor
  · rintro ⟨named, -⟩
    have three := named.three_le_length
    obtain ⟨lower, -, dir, texts, named⟩ := named
    obtain rfl | ⟨id, member, way⟩ := (made.hasDir_iff _).mp ⟨files, lower⟩
    · cases texts
    · -- Three texts take all three names of the partition.
      obtain rfl : names = Partition.place id := way.eq_of_length_le three
      obtain ⟨dir', texts', named'⟩ := named_place id
      rw [texts'] at texts
      obtain ⟨⟨ns, topic, partition⟩, revision'⟩ := id
      obtain ⟨ns', topic', partition'⟩ := ntp
      obtain ⟨rfl, rfl, rfl⟩ : ns = ns' ∧ topic = topic' ∧ dir' = dir := by simpa using texts
      obtain ⟨rfl, rfl⟩ := named'.unique named
      exact ⟨member, rfl, made.empty_of_dirAt lower⟩
  · rintro ⟨member, rfl, rfl⟩
    obtain ⟨found, lower⟩ := (made.hasDir_iff _).mpr (.inr ⟨_, member, List.prefix_rfl⟩)
    obtain rfl := made.empty_of_dirAt lower
    exact ⟨⟨lower, (creatable _ member).included, named_place (ntp, revision)⟩,
      List.forall_mem_nil _⟩

theorem Made.mem_unsorted (made : Made tree base ids top)
    (creatable : ∀ id ∈ ids, Creatable config id) {p : Partition} :
    p ∈ unsorted config base top VisitedDir.isLeaf ↔ p ∈ ids.map (Partition.created base) := by
  rw [mem_unsorted_isLeaf, List.mem_map]
  constructor
  · rintro ⟨ntp, revision, names, files, holds, rfl⟩
    obtain ⟨member, rfl, rfl⟩ := (made.holds_iff creatable).mp holds
    exact ⟨_, member, (Partition.ofEntries_nil base (ntp, revision)).symm⟩
  · rintro ⟨⟨ntp, revision⟩, member, rfl⟩
    exact ⟨ntp, revision, _, _, (made.holds_iff creatable).mpr ⟨member, rfl, rfl⟩,
      (Partition.ofEntries_nil base (ntp, revision)).symm⟩

/-- What a scan has to find where these partitions were created. -/
structure Finds (base : Path) (ids : List (Ntp × Int64)) (data : DataDir) : Prop where
  perm : data.partitions.Perm (ids.map (Partition.created base))
  sorted : data.partitions.Pairwise fun a b => a.rank < b.rank
  path_eq : ∀ p ∈ data.partitions, p.path = base.join p.displayName
  find_perm : ∀ ntp,
    (data.find ntp).Perm ((ids.filter (·.1 = ntp)).map (Partition.created base))

theorem Made.perm (made : Made tree base ids top) (once : ids.Nodup)
    (creatable : ∀ id ∈ ids, Creatable config id) :
    (gathered config base top VisitedDir.isLeaf).partitions.Perm
      (ids.map (Partition.created base)) := by
  refine (gathered_perm config base top _).trans ?_
  refine (List.perm_ext_iff_of_nodup ?_ ?_).mpr fun p => made.mem_unsorted creatable
  · exact .of_map _ (nodup_paths (made.formed.lookup made.there) _)
  · exact once.map (Partition.created_injective base)

theorem Made.finds (made : Made tree base ids top) (once : ids.Nodup)
    (creatable : ∀ id ∈ ids, Creatable config id) :
    Finds base ids (gathered config base top VisitedDir.isLeaf) := by
  have perm := made.perm once creatable
  constructor
  case perm => exact perm
  case sorted =>
    have apart : (ids.map (Partition.created base)).Pairwise
        fun a b => (a.ntp, a.revision) ≠ (b.ntp, b.revision) := List.pairwise_map.mpr once
    have apart := (perm.pairwise_iff fun differ same => differ same.symm).mpr apart
    refine ((sorted_gathered config base top _).and apart).imp fun {a b} both => ?_
    exact lt_of_le_of_ne both.1 fun same => both.2 (Partition.rank_eq_iff.mp same)
  case path_eq =>
    intro p member
    obtain ⟨id, among, rfl⟩ := List.mem_map.mp (perm.mem_iff.mp member)
    exact Partition.descend_place base (creatable id among).ns (creatable id among).topic
  case find_perm =>
    intro ntp
    have found := perm.filter fun p => p.ntp = ntp
    rwa [List.filter_map] at found

theorem Made.nil (formed : tree.WellFormed) (inside : (tree.fields? base).isSome = true)
    (empty : tree.lookup base = .ok (.dir []))
    (listed : ∀ names, tree.failing (base.descend names) = none) : Made tree base [] [] := by
  refine ⟨⟨formed, inside, empty, listed, .dir (List.forall_mem_nil _)⟩, fun names => ?_⟩
  constructor
  · rintro ⟨found, lower⟩
    cases lower with
    | here => exact .inl rfl
    | down member => cases member
  · rintro (rfl | ⟨id, member, -⟩)
    · exact FileNode.hasDir_nil _
    · cases member

theorem scan_created (formed : tree.WellFormed) (inside : (tree.fields? base).isSome = true)
    (empty : tree.lookup base = .ok (.dir []))
    (listed : ∀ names, tree.failing (base.descend names) = none) (once : ids.Nodup)
    (creatable : ∀ id ∈ ids, Creatable config id) :
    ((∃ tree', createAll tree base ids = .ok tree') ↔
        ∀ id ∈ ids, ∃ tree', Partition.create tree base id.1 id.2 = .ok tree') ∧
      ∀ tree', createAll tree base ids = .ok tree' →
        ∃ data, scan tree' config base = .ok data ∧ Finds base ids data := by
  have start := Made.nil formed inside empty listed
  refine ⟨⟨fun ⟨tree', all⟩ id member => ?_, fun each => ?_⟩, fun tree' all => ?_⟩
  · exact (start.exists_create_iff (creatable id member)).mpr
      (start.hasRoom creatable all id member)
  · have room : ∀ id ∈ ids, FileTree.HasRoom base (Partition.place id) := fun id member =>
      (start.exists_create_iff (creatable id member)).mp (each id member)
    obtain ⟨tree', -, all, -⟩ := start.createAll creatable room
    exact ⟨tree', all⟩
  · have room := start.hasRoom creatable all
    obtain ⟨tree', top, all', made⟩ := start.createAll creatable room
    cases all.symm.trans all'
    have readable := made.not_failsFor creatable room
    exact ⟨_, scan_of_readable made.there readable, made.finds once creatable⟩

/-! ### Extreme numbers -/

namespace Extreme

def root : Path := ⟨"/data/logs/../logs"⟩

def disk : FileTree := { mount := ⟨"/data"⟩, root := .ok (.dir [("logs", .dir [])]) }

def partitions : List (Ntp × Int64) :=
  [(⟨"kafka", "t", 10⟩, 9), (⟨"kafka", "t", Int32.minValue⟩, Int64.minValue),
    (⟨"kafka", "t", 9⟩, 10), (⟨"kafka", "t", 9⟩, Int64.maxValue), (⟨"kafka", "9_9", -1⟩, -1)]

end Extreme

theorem scan_created_extreme :
    Extreme.disk.WellFormed ∧ Extreme.partitions.Nodup ∧
      (∀ id ∈ Extreme.partitions, Creatable {} id) ∧
      ∃ tree data, createAll Extreme.disk Extreme.root Extreme.partitions = .ok tree ∧
        scan tree {} Extreme.root = .ok data ∧ Finds Extreme.root Extreme.partitions data := by
  have formed : Extreme.disk.WellFormed := FileTree.wellFormed_of_root rfl (by decide)
  have once : Extreme.partitions.Nodup := by decide
  have creatable : ∀ id ∈ Extreme.partitions, Creatable {} id := by decide
  have room : ∀ id ∈ Extreme.partitions, FileTree.HasRoom Extreme.root (Partition.place id) := by
    decide
  have inside : (Extreme.disk.fields? Extreme.root).isSome = true := rfl
  have empty : Extreme.disk.lookup Extreme.root = .ok (.dir []) := rfl
  have listed (names : List RawText) :
      Extreme.disk.failing (Extreme.root.descend names) = none := rfl
  have each : ∀ id ∈ Extreme.partitions,
      ∃ tree, Partition.create Extreme.disk Extreme.root id.1 id.2 = .ok tree := fun id member =>
    ((Made.nil formed inside empty listed).exists_create_iff (creatable id member)).mpr
      (room id member)
  obtain ⟨all, found⟩ := scan_created formed inside empty listed once creatable
  obtain ⟨tree, created⟩ := all.mpr each
  obtain ⟨data, scanned, finds⟩ := found tree created
  exact ⟨formed, once, creatable, tree, data, created, scanned, finds⟩

end DataDir
end PartitionLog
