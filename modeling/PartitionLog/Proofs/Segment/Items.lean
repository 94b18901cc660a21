import PartitionLog.Proofs.Batch.Reading
import PartitionLog.Segment.File

/-!
# The items of a segment

`Reads` tells which items bytes hold from a place in the segment on, batch by batch. A cursor gives
exactly these (`reads_items`), one for each call, and nothing ever after (`next_after`).
-/
namespace PartitionLog

namespace BatchCursor

inductive Reads (config : ReaderConfig) (stop : Option IoError) :
    Nat → Nat → Bytes → List (Except BatchError Batch) → Prop
  | ended {index position : Nat} {held : Bytes}
      (ending : Batch.outcome config index position held stop = .ok none) :
      Reads config stop index position held []
  | failed {index position : Nat} {held : Bytes} {e : BatchError}
      (failing : Batch.outcome config index position held stop = .error e) :
      Reads config stop index position held [.error e]
  | found {index position : Nat} {held : Bytes} {batch : Batch}
      {items : List (Except BatchError Batch)}
      (finding : Batch.outcome config index position held stop = .ok (some batch))
      (behind : Reads config stop (index + 1) (position + batch.write.length)
        (held.drop batch.write.length) items) :
      Reads config stop index position held (.ok batch :: items)

/-- The cursor behind a batch, with what the stream has left there. -/
def past (cursor : BatchCursor) (batch : Batch) (stream : ByteStream) : BatchCursor :=
  { cursor with
    stream
    batchesRead := cursor.batchesRead + 1
    position := cursor.position + batch.write.length }

def after : Nat → BatchCursor → BatchCursor
  | 0, cursor => cursor
  | calls + 1, cursor => after calls cursor.next.2

variable {cursor : BatchCursor} {items : List (Except BatchError Batch)}

/-! ## One call -/

theorem next_of_done (done : cursor.done = true) : cursor.next = (none, cursor) := by
  simp [next, done]

section Going

variable (going : cursor.done = false)

include going

theorem next_of_ended
    (ending : Batch.outcome cursor.config cursor.batchesRead cursor.position
      cursor.stream.delivered cursor.stream.failure = .ok none) :
    ∃ rest, cursor.next = (none, rest) ∧ rest.done = true := by
  rw [← Batch.readNext_fst] at ending
  rw [next, if_neg (by simp [going])]
  generalize Batch.readNext _ _ _ _ = answer at ending ⊢
  obtain ⟨answer, stream⟩ := answer
  cases ending
  exact ⟨_, rfl, rfl⟩

theorem next_of_failed {e : BatchError}
    (failing : Batch.outcome cursor.config cursor.batchesRead cursor.position
      cursor.stream.delivered cursor.stream.failure = .error e) :
    ∃ rest, cursor.next = (some (.error e), rest) ∧ rest.done = true := by
  rw [← Batch.readNext_fst] at failing
  rw [next, if_neg (by simp [going])]
  generalize Batch.readNext _ _ _ _ = answer at failing ⊢
  obtain ⟨answer, stream⟩ := answer
  cases failing
  exact ⟨_, rfl, rfl⟩

theorem next_of_found {batch : Batch}
    (finding : Batch.outcome cursor.config cursor.batchesRead cursor.position
      cursor.stream.delivered cursor.stream.failure = .ok (some batch)) :
    ∃ stream : ByteStream,
      cursor.next = (some (.ok batch), cursor.past batch stream) ∧
      stream.delivered = cursor.stream.delivered.drop batch.write.length ∧
      stream.failure = cursor.stream.failure := by
  obtain ⟨intact, placed, positioned, following, held⟩ := Batch.outcome_eq_some_iff.mp finding
  obtain ⟨stream, answer, left, stop⟩ := Batch.readNext_of_intact intact placed positioned held
  have size : batch.header.batchSize.toInt.toNat = batch.write.length := by
    rw [Batch.toInt_batchSize intact.size, Int.toNat_natCast]
  refine ⟨stream, ?_, ?_, stop⟩
  · rw [next, if_neg (by simp [going]), answer]
    simp only [size, past]
  · rw [left, held, List.drop_left]

end Going

/-! ## All calls -/

/-- A batch takes bytes off what is left, so the fuel outlasts them. -/
theorem reads_itemsWithin (fuel : Nat) (cursor : BatchCursor) (going : cursor.done = false)
    (enough : cursor.stream.delivered.length < fuel) :
    Reads cursor.config cursor.stream.failure cursor.batchesRead cursor.position
      cursor.stream.delivered (itemsWithin fuel cursor) := by
  induction fuel generalizing cursor with
  | zero => exact absurd enough (Nat.not_lt_zero _)
  | succ fuel ih =>
    cases answer : Batch.outcome cursor.config cursor.batchesRead cursor.position
        cursor.stream.delivered cursor.stream.failure with
    | error e =>
      obtain ⟨rest, call, done⟩ := next_of_failed going answer
      have nothing : itemsWithin fuel rest = [] := by
        cases fuel with
        | zero => rfl
        | succ fuel => simp [itemsWithin, next_of_done done]
      simp only [itemsWithin, call, nothing]
      exact .failed answer
    | ok batch? =>
      cases batch? with
      | none =>
        obtain ⟨rest, call, done⟩ := next_of_ended going answer
        simp only [itemsWithin, call]
        exact .ended answer
      | some batch =>
        obtain ⟨stream, call, left, stop⟩ := next_of_found going answer
        obtain ⟨_, _, _, following, held⟩ := Batch.outcome_eq_some_iff.mp answer
        have shorter : stream.delivered.length < fuel := by
          rw [held, List.length_append, batch.length_write, BatchHeader.size] at enough
          rw [left, held, List.drop_left]
          omega
        have rest := ih (cursor.past batch stream) going shorter
        simp only [itemsWithin, call]
        refine .found answer ?_
        rw [← left, ← stop]
        exact rest

theorem reads_items (cursor : BatchCursor) (going : cursor.done = false) :
    Reads cursor.config cursor.stream.failure cursor.batchesRead cursor.position
      cursor.stream.delivered cursor.items :=
  reads_itemsWithin _ cursor going (Nat.lt_succ_of_le cursor.stream.length_delivered_le)

theorem reads_ofBytes (config : ReaderConfig) (held : Bytes) :
    Reads config none 0 0 held (BatchCursor.items { config, stream := .ofBytes held }) := by
  have reads := reads_items { config, stream := .ofBytes held } rfl
  rwa [ByteStream.delivered_ofBytes, ByteStream.failure_ofBytes] at reads

theorem Reads.unique {config : ReaderConfig} {stop : Option IoError} {index position : Nat}
    {held : Bytes} {items items' : List (Except BatchError Batch)}
    (reads : Reads config stop index position held items)
    (reads' : Reads config stop index position held items') : items = items' := by
  induction reads generalizing items' with
  | ended ending =>
    cases reads' with
    | ended _ => rfl
    | failed failing => simp [ending] at failing
    | found finding _ => simp [ending] at finding
  | failed failing =>
    cases reads' with
    | ended ending => simp [failing] at ending
    | failed failing' =>
      have same := Except.error.inj (failing.symm.trans failing')
      rw [same]
    | found finding _ => simp [failing] at finding
  | found finding behind ih =>
    cases reads' with
    | ended ending => simp [finding] at ending
    | failed failing => simp [finding] at failing
    | found finding' behind' =>
      have same := Option.some.inj (Except.ok.inj (finding.symm.trans finding'))
      subst same
      rw [ih behind']

theorem after_of_done (calls : Nat) (done : cursor.done = true) : cursor.after calls = cursor := by
  induction calls with
  | zero => rfl
  | succ calls ih => rw [after, next_of_done done, ih]

theorem next_after_of_reads (calls : Nat) (going : cursor.done = false)
    (reads : Reads cursor.config cursor.stream.failure cursor.batchesRead cursor.position
      cursor.stream.delivered items) :
    (cursor.after calls).next.1 = items[calls]? := by
  induction calls generalizing cursor items with
  | zero =>
    cases reads with
    | ended ending =>
      obtain ⟨rest, call, _⟩ := next_of_ended going ending
      simp [after, call]
    | failed failing =>
      obtain ⟨rest, call, _⟩ := next_of_failed going failing
      simp [after, call]
    | found finding behind =>
      obtain ⟨stream, call, _⟩ := next_of_found going finding
      simp [after, call]
  | succ calls ih =>
    cases reads with
    | ended ending =>
      obtain ⟨rest, call, done⟩ := next_of_ended going ending
      simp [after, call, after_of_done calls done, next_of_done done]
    | failed failing =>
      obtain ⟨rest, call, done⟩ := next_of_failed going failing
      simp [after, call, after_of_done calls done, next_of_done done]
    | @found _ _ _ batch _ finding behind =>
      obtain ⟨stream, call, left, stop⟩ := next_of_found going finding
      rw [← left, ← stop] at behind
      rw [after, call, List.getElem?_cons_succ]
      exact @ih (cursor.past batch stream) _ going behind

theorem next_after (calls : Nat) (going : cursor.done = false) :
    (cursor.after calls).next.1 = cursor.items[calls]? :=
  next_after_of_reads calls going (reads_items cursor going)

/-! ## Other places -/

section Placement

variable {config : ReaderConfig} {stop : Option IoError} {index position : Nat}
  {held following : Bytes} {batch : Batch} {items : List (Except BatchError Batch)}

theorem Reads.of_intact (intact : Batch.Intact config batch)
    (behind : Reads config stop (index + 1) (position + batch.write.length) following items) :
    Reads config stop index position (batch.write ++ following)
      (.ok (batch.placed index position) :: items) := by
  refine .found (Batch.outcome_of_intact intact) ?_
  rw [Batch.write_placed, List.drop_left]
  exact behind

theorem Reads.behind_intact (intact : Batch.Intact config batch)
    (reads : Reads config stop index position (batch.write ++ following) items) :
    ∃ rest, items = .ok (batch.placed index position) :: rest ∧
      Reads config stop (index + 1) (position + batch.write.length) following rest := by
  have answer : Batch.outcome config index position (batch.write ++ following) stop =
      .ok (some (batch.placed index position)) := Batch.outcome_of_intact intact
  cases reads with
  | ended ending => simp [answer] at ending
  | failed failing => simp [answer] at failing
  | found finding behind =>
    have same := Option.some.inj (Except.ok.inj (answer.symm.trans finding))
    subst same
    rw [Batch.write_placed, List.drop_left] at behind
    exact ⟨_, rfl, behind⟩

def unplaced (item : Except BatchError Batch) : Except BatchError Batch :=
  item.map (Batch.placed 0 0)

theorem Reads.relocate (reads : Reads config stop index position held items)
    (sound : ∀ e, .error e ∉ items) (index' position' : Nat) :
    ∃ items', Reads config stop index' position' held items' ∧
      items'.map unplaced = items.map unplaced := by
  induction reads generalizing index' position' with
  | ended ending => exact ⟨[], .ended (Batch.outcome_eq_none ending _ _), rfl⟩
  | failed failing => exact absurd List.mem_cons_self (sound _)
  | found finding behind ih =>
    obtain ⟨intact, _, _, following, rfl⟩ := Batch.outcome_eq_some_iff.mp finding
    rw [List.drop_left] at ih
    obtain ⟨items', reads', same⟩ := ih (fun e member => sound e (List.mem_cons_of_mem _ member))
      (index' + 1) (position' + _)
    refine ⟨_, .of_intact intact reads', ?_⟩
    rw [List.map_cons, same]
    rfl

end Placement

end BatchCursor

/-! ## Files -/

theorem FileTree.openFile_of_contents {tree : FileTree} {path : Path} {bytes : Bytes}
    (contents : tree.fileContents path = .ok bytes) : tree.openFile path = .ok (.ofBytes bytes) := by
  unfold fileContents at contents
  unfold openFile
  cases found : tree.lookup path with
  | error e => simp [found, bind, Except.bind] at contents
  | ok node =>
    cases node with
    | dir entries => simp [found, bind, Except.bind] at contents
    | file bytes' =>
      simp only [found, bind, Except.bind, pure, Except.pure, Except.ok.injEq] at contents ⊢
      rw [contents]

theorem FileTree.fileContents_child {entries : List (RawText × FileNode)} (name : RawText)
    {path : Path} {bytes : Bytes} (accepted : accept path = .ok ())
    (fields : fieldsBelow [slash] path.text.bytes = some [name.bytes])
    (plain : name.bytes ≠ [] ∧ name.bytes ≠ [dot] ∧ name.bytes ≠ [dot, dot])
    (short : name.bytes.length ≤ FileNode.nameLimit)
    (there : entries.lookup name = some (.file bytes)) :
    fileContents { mount := ⟨"/"⟩, root := .ok (.dir entries) } path = .ok bytes := by
  obtain ⟨nonempty, noDot, noDots⟩ := plain
  have top : (RawText.ofString "/").bytes = [slash] := by decide
  have goes : ¬ (name.bytes = [] ∨ name.bytes = [dot]) := not_or.mpr ⟨nonempty, noDot⟩
  rw [fileContents, lookup, accepted, fields?, top, fields]
  simp only [bind, Except.bind, FileTree.top, pure, Except.pure, Place.walk, List.foldlM_cons,
    List.foldlM_nil, Place.step, if_neg goes, if_neg noDots, FileNode.child,
    if_neg (Nat.not_lt.mpr short), there]

theorem Segment.batches_of_contents {segment : Segment} {tree : FileTree} {config : ReaderConfig}
    {bytes : Bytes} (contents : tree.fileContents segment.path = .ok bytes) :
    segment.batches tree config = .ok { config, stream := .ofBytes bytes } := by
  rw [batches, FileTree.openFile_of_contents contents]
  rfl

end PartitionLog
