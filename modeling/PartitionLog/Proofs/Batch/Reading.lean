import PartitionLog.Batch.Stream
import PartitionLog.Proofs.Batch.HeaderLayout
import PartitionLog.Proofs.ByteStream
import PartitionLog.Proofs.Except

/-!
# Reading a batch as a function of the delivered bytes

`readNext` answers by the bytes the stream delivers and by what stops it (`readNext_fst`), and takes
as many as the header asks for (`readNext_snd`). It finds a batch exactly where the bytes start with
those of an intact one (`readNext_eq_some_iff`), and then leaves what follows it
(`readNext_of_intact`). Where the bytes are cut short, the answer is the same or there is none:
`outcome_take`.
-/
namespace PartitionLog.Batch

def ended : Option IoError → Except BatchError (Option Batch)
  | none => .ok none
  | some cause => .error (.io cause)

def bodyOutcome (config : ReaderConfig) (index filePosition : Nat) (header : BatchHeader)
    (body : Bytes) (stop : Option IoError) : Except BatchError (Option Batch) :=
  if header.isZeroed then .ok none
  else if body.length < bodyLimit config header then ended stop
  else
    let records := body.take (bodyLimit config header)
    (accept config { header, records, index, filePosition }).map some

def outcome (config : ReaderConfig) (index filePosition : Nat) (held : Bytes)
    (stop : Option IoError) : Except BatchError (Option Batch) :=
  if held.length < BatchHeader.size then ended stop
  else
    bodyOutcome config index filePosition (.ofBytes (held.take BatchHeader.size))
      (held.drop BatchHeader.size) stop

/-- Written whole, whatever its size. -/
structure Sealed (batch : Batch) : Prop where
  headerCrc : batch.header.computedHeaderCrc = batch.header.headerCrc
  size : batch.header.recordsSize = some batch.records.length
  crc : batch.header.computedCrc batch.records = batch.header.crc

structure Intact (config : ReaderConfig) (batch : Batch) : Prop where
  headerCrc : batch.header.computedHeaderCrc = batch.header.headerCrc
  size : batch.header.recordsSize = some batch.records.length
  within : batch.records.length ≤ config.maxBatchSize
  crc : batch.header.computedCrc batch.records = batch.header.crc

variable {config : ReaderConfig} {index filePosition : Nat} {held following : Bytes}
  {stop : Option IoError} {header : BatchHeader} {batch : Batch}

theorem Sealed.intact (whole : Sealed batch) (within : batch.records.length ≤ config.maxBatchSize) :
    Intact config batch :=
  ⟨whole.headerCrc, whole.size, within, whole.crc⟩

def placed (index filePosition : Nat) (batch : Batch) : Batch := { batch with index, filePosition }

@[simp] theorem write_placed (batch : Batch) :
    (batch.placed index filePosition).write = batch.write := rfl

theorem Intact.placed (intact : Intact config batch) :
    Intact config (batch.placed index filePosition) :=
  ⟨intact.headerCrc, intact.size, intact.within, intact.crc⟩

theorem Intact.verify (intact : Intact config batch) : batch.verify = .ok () := by
  rw [Batch.verify, if_neg (not_not_intro intact.headerCrc), if_neg (not_not_intro intact.crc)]

theorem length_write (batch : Batch) :
    batch.write.length = BatchHeader.size + batch.records.length := by
  rw [write, List.length_append, BatchHeader.length_write]

theorem ended_ne_some : ended stop ≠ .ok (some batch) := by
  cases stop <;> simp [ended]

theorem not_isZeroed (size : Nat) (declared : header.recordsSize = some size) :
    header.isZeroed = false := by
  apply Bool.eq_false_iff.mpr
  intro zeroed
  have empty : header = {} := of_decide_eq_true zeroed
  subst empty
  exact absurd declared (by simp [BatchHeader.recordsSize, BatchHeader.size])

theorem bodyLimit_le (size : Nat) (declared : header.recordsSize = some size)
    (within : size ≤ config.maxBatchSize) : bodyLimit config header = size := by
  rw [bodyLimit, declared, Option.getD_some]
  exact Nat.min_eq_left (by omega)

theorem bodyLimit_of_isZeroed (zeroed : header.isZeroed = true) : bodyLimit config header = 0 := by
  rw [of_decide_eq_true zeroed]
  exact Nat.zero_min _

/-! ## Reading from a stream -/

theorem readBody_eq (stream : ByteStream) (present : header.isZeroed = false) :
    readBody config index filePosition header stream =
      (bodyOutcome config index filePosition header stream.delivered stream.failure,
        (stream.takeUpTo (bodyLimit config header)).2) := by
  rw [readBody, bodyOutcome, present, if_neg Bool.false_ne_true]
  by_cases short : stream.delivered.length < bodyLimit config header
  · rw [ByteStream.takeUpTo_of_lt short, if_pos short]
    cases stream.failure with
    | none => exact if_pos short
    | some cause => rfl
  · obtain ⟨rest, taken, -, -⟩ := ByteStream.takeUpTo_of_le (Nat.not_lt.mp short)
    have full : ¬ (stream.delivered.take (bodyLimit config header)).length <
        bodyLimit config header := by
      rw [List.length_take]
      omega
    rw [taken, if_neg short]
    exact if_neg full

theorem readNext_of_lt {stream : ByteStream} (short : stream.delivered.length < BatchHeader.size) :
    readNext config index filePosition stream =
      (ended stream.failure, (stream.takeUpTo BatchHeader.size).2) := by
  rw [readNext, ByteStream.fill_eq_takeUpTo, ByteStream.takeUpTo_of_lt short]
  cases stream.failure with
  | none => exact if_pos short
  | some cause => rfl

theorem readNext_of_le {stream : ByteStream} (enough : BatchHeader.size ≤ stream.delivered.length)
    (head : BatchHeader.ofBytes (stream.delivered.take BatchHeader.size) = header) :
    ∃ rest, rest.delivered = stream.delivered.drop BatchHeader.size ∧
      rest.failure = stream.failure ∧
      readNext config index filePosition stream =
        if header.isZeroed then (.ok none, rest)
        else readBody config index filePosition header rest := by
  subst head
  obtain ⟨rest, taken, left, stop⟩ := ByteStream.takeUpTo_of_le enough
  have full : ¬ (stream.delivered.take BatchHeader.size).length < BatchHeader.size := by
    rw [List.length_take]
    omega
  refine ⟨rest, left, stop, ?_⟩
  rw [readNext, ByteStream.fill_eq_takeUpTo, taken]
  exact if_neg full

theorem readNext_fst (config : ReaderConfig) (index filePosition : Nat) (stream : ByteStream) :
    (readNext config index filePosition stream).1 =
      outcome config index filePosition stream.delivered stream.failure := by
  by_cases short : stream.delivered.length < BatchHeader.size
  · rw [readNext_of_lt short, outcome, if_pos short]
  · obtain ⟨rest, left, stop, answer⟩ := readNext_of_le (Nat.not_lt.mp short) rfl
    rw [answer, outcome, if_neg short]
    cases zeroed : (BatchHeader.ofBytes (stream.delivered.take BatchHeader.size)).isZeroed with
    | true => simp [bodyOutcome, zeroed]
    | false => rw [if_neg Bool.false_ne_true, readBody_eq rest zeroed, left, stop]

/-- A header of zeros asks for no body, and behind a short one there is nothing. -/
theorem readNext_snd {stream : ByteStream}
    (head : BatchHeader.ofBytes (stream.delivered.take BatchHeader.size) = header)
    (enough : BatchHeader.size + bodyLimit config header ≤ stream.delivered.length ∨
      stream.failure = none) :
    (readNext config index filePosition stream).2.delivered =
        stream.delivered.drop (BatchHeader.size + bodyLimit config header) ∧
      (readNext config index filePosition stream).2.failure = stream.failure := by
  by_cases short : stream.delivered.length < BatchHeader.size
  · have whole : stream.failure = none := enough.resolve_left (by omega)
    obtain ⟨left, stop⟩ := stream.takeUpTo_snd BatchHeader.size (.inr whole)
    rw [readNext_of_lt short, left, List.drop_of_length_le (by omega),
      List.drop_of_length_le (by omega)]
    exact ⟨rfl, stop⟩
  · obtain ⟨behind, left, stop, answer⟩ := readNext_of_le (Nat.not_lt.mp short) head
    rw [answer]
    cases zeroed : header.isZeroed with
    | true =>
      rw [if_pos rfl, bodyLimit_of_isZeroed zeroed, Nat.add_zero]
      exact ⟨left, stop⟩
    | false =>
      have room : bodyLimit config header ≤ behind.delivered.length ∨ behind.failure = none := by
        rw [left, stop, List.length_drop]
        exact enough.imp_left fun enough => by omega
      obtain ⟨left', stop'⟩ := behind.takeUpTo_snd (bodyLimit config header) room
      rw [if_neg Bool.false_ne_true, readBody_eq behind zeroed, left', left, List.drop_drop]
      exact ⟨rfl, stop'.trans stop⟩

/-! ## Where a batch is found -/

theorem accept_eq_ok_iff (found : Batch) :
    accept config batch = .ok found ↔
      found = batch ∧ batch.header.computedHeaderCrc = batch.header.headerCrc ∧
        (∃ size, batch.header.recordsSize = some size ∧ size ≤ config.maxBatchSize) ∧
        batch.header.computedCrc batch.records = batch.header.crc := by
  unfold accept
  by_cases headerCrc : batch.header.computedHeaderCrc = batch.header.headerCrc
  · rw [if_neg (not_not_intro headerCrc)]
    cases declared : batch.header.recordsSize with
    | none => simp
    | some size =>
      by_cases within : config.maxBatchSize < size
      · simp [within, Nat.not_le.mpr within]
      · by_cases crc : batch.header.computedCrc batch.records = batch.header.crc
        · simp [within, Nat.not_lt.mp within, crc, headerCrc, eq_comm]
        · simp [within, crc]
  · simp [headerCrc]

theorem bodyOutcome_append (records following : Bytes) (present : header.isZeroed = false)
    (limit : bodyLimit config header = records.length) :
    bodyOutcome config index filePosition header (records ++ following) stop =
      (accept config { header, records, index, filePosition }).map some := by
  have enough : ¬ (records ++ following).length < records.length := by
    rw [List.length_append]
    omega
  rw [bodyOutcome, present, limit, if_neg (by decide), if_neg enough, List.take_left]

theorem bodyOutcome_eq_some_iff (body : Bytes) :
    bodyOutcome config index filePosition header body stop = .ok (some batch) ↔
      Intact config batch ∧ batch.header = header ∧ batch.index = index ∧
        batch.filePosition = filePosition ∧ ∃ following, body = batch.records ++ following := by
  constructor
  · intro found
    unfold bodyOutcome at found
    split at found
    · cases found
    · split at found
      · exact absurd found ended_ne_some
      · rename_i enough
        obtain ⟨accepted, answer, same⟩ := map_eq_ok_iff.mp found
        cases same
        obtain ⟨same, headerCrc, ⟨size, declared, within⟩, crc⟩ := (accept_eq_ok_iff _).mp answer
        subst same
        have limit := bodyLimit_le size declared within
        rw [limit] at enough
        have length : (body.take size).length = size := by
          rw [List.length_take]
          omega
        rw [limit] at crc ⊢
        exact ⟨⟨headerCrc, by rw [declared, length], by rw [length]; exact within, crc⟩, rfl, rfl,
          rfl, body.drop size, (List.take_append_drop size body).symm⟩
  · rintro ⟨intact, rfl, rfl, rfl, following, rfl⟩
    have limit := bodyLimit_le batch.records.length intact.size intact.within
    have answer : accept config batch = .ok batch :=
      (accept_eq_ok_iff batch).mpr
        ⟨rfl, intact.headerCrc, ⟨batch.records.length, intact.size, intact.within⟩, intact.crc⟩
    rw [bodyOutcome_append batch.records following (not_isZeroed _ intact.size) limit, answer]
    rfl

theorem outcome_write (body : Bytes) :
    outcome config index filePosition (header.write ++ body) stop =
      bodyOutcome config index filePosition header body stop := by
  have enough : ¬ (header.write ++ body).length < BatchHeader.size := by
    rw [List.length_append, BatchHeader.length_write]
    omega
  rw [outcome, if_neg enough, List.take_left' header.length_write,
    List.drop_left' header.length_write, BatchHeader.ofBytes_write]

theorem outcome_eq_some_iff :
    outcome config index filePosition held stop = .ok (some batch) ↔
      Intact config batch ∧ batch.index = index ∧ batch.filePosition = filePosition ∧
        ∃ following, held = batch.write ++ following := by
  constructor
  · intro found
    have enough : ¬ held.length < BatchHeader.size := by
      intro short
      rw [outcome, if_pos short] at found
      exact ended_ne_some found
    have full : (held.take BatchHeader.size).length = BatchHeader.size := by
      rw [List.length_take]
      omega
    rw [outcome, if_neg enough] at found
    obtain ⟨intact, front, place, position, following, back⟩ :=
      (bodyOutcome_eq_some_iff _).mp found
    refine ⟨intact, place, position, following, ?_⟩
    rw [write, front, BatchHeader.write_ofBytes _ full, List.append_assoc, ← back,
      List.take_append_drop]
  · rintro ⟨intact, place, position, following, rfl⟩
    rw [write, List.append_assoc, outcome_write]
    exact (bodyOutcome_eq_some_iff _).mpr ⟨intact, rfl, place, position, following, rfl⟩

theorem outcome_of_intact (intact : Intact config batch) :
    outcome config index filePosition (batch.write ++ following) stop =
      .ok (some (batch.placed index filePosition)) :=
  outcome_eq_some_iff.mpr ⟨intact.placed, rfl, rfl, following, rfl⟩

theorem readNext_eq_some_iff (stream : ByteStream) :
    (readNext config index filePosition stream).1 = .ok (some batch) ↔
      Intact config batch ∧ batch.index = index ∧ batch.filePosition = filePosition ∧
        ∃ following, stream.delivered = batch.write ++ following := by
  rw [readNext_fst, outcome_eq_some_iff]

theorem readNext_of_intact {stream : ByteStream} (intact : Intact config batch)
    (placed : batch.index = index) (positioned : batch.filePosition = filePosition)
    (held : stream.delivered = batch.write ++ following) :
    ∃ rest, readNext config index filePosition stream = (.ok (some batch), rest) ∧
      rest.delivered = following ∧ rest.failure = stream.failure := by
  have found := (readNext_eq_some_iff stream).mpr ⟨intact, placed, positioned, following, held⟩
  have head : BatchHeader.ofBytes (stream.delivered.take BatchHeader.size) = batch.header := by
    rw [held, write, List.append_assoc, List.take_left' batch.header.length_write,
      BatchHeader.ofBytes_write]
  have used : BatchHeader.size + bodyLimit config batch.header = batch.write.length := by
    rw [bodyLimit_le _ intact.size intact.within, length_write]
  have enough : batch.write.length ≤ stream.delivered.length := by
    rw [held, List.length_append]
    exact Nat.le_add_right _ _
  obtain ⟨left, stop⟩ := readNext_snd head (.inl (used ▸ enough))
  rw [used, held, List.drop_left] at left
  exact ⟨_, Prod.ext found rfl, left, stop⟩

theorem toInt_batchSize (size : batch.header.recordsSize = some batch.records.length) :
    batch.header.batchSize.toInt = batch.write.length := by
  rw [BatchHeader.recordsSize] at size
  split at size
  · cases size
  · have exact := Option.some.inj size
    rw [length_write]
    omega

/-! ## Where the data end -/

theorem bodyOutcome_eq_none (body : Bytes)
    (ending : bodyOutcome config index filePosition header body stop = .ok none)
    (index' filePosition' : Nat) :
    bodyOutcome config index' filePosition' header body stop = .ok none := by
  unfold bodyOutcome at *
  split
  · rfl
  · rename_i present
    rw [if_neg present] at ending
    split
    · rename_i short
      rwa [if_pos short] at ending
    · rename_i enough
      rw [if_neg enough] at ending
      obtain ⟨_, _, found⟩ := map_eq_ok_iff.mp ending
      cases found

theorem outcome_eq_none (ending : outcome config index filePosition held stop = .ok none)
    (index' filePosition' : Nat) : outcome config index' filePosition' held stop = .ok none := by
  unfold outcome at *
  split
  · rename_i short
    rwa [if_pos short] at ending
  · rename_i enough
    rw [if_neg enough] at ending
    exact bodyOutcome_eq_none _ ending index' filePosition'

/-! ## Where the bytes are cut short -/

theorem bodyOutcome_take (count : Nat) (body : Bytes) :
    bodyOutcome config index filePosition header (body.take count) none = .ok none ∨
      bodyOutcome config index filePosition header (body.take count) none =
        bodyOutcome config index filePosition header body stop := by
  by_cases zeroed : header.isZeroed
  · right
    simp [bodyOutcome, zeroed]
  · by_cases short : (body.take count).length < bodyLimit config header
    · left
      simp only [bodyOutcome, zeroed, short, if_true]
      rfl
    · right
      have within : bodyLimit config header ≤ count := by
        rw [List.length_take] at short
        omega
      have enough : ¬ body.length < bodyLimit config header := by
        rw [List.length_take] at short
        omega
      simp only [bodyOutcome, zeroed, short, enough, if_false, List.take_take,
        Nat.min_eq_left within]

theorem outcome_take (count : Nat) :
    outcome config index filePosition (held.take count) none = .ok none ∨
      outcome config index filePosition (held.take count) none =
        outcome config index filePosition held stop := by
  by_cases short : (held.take count).length < BatchHeader.size
  · left
    rw [outcome, if_pos short]
    rfl
  · rw [outcome, if_neg short]
    rw [List.length_take] at short
    have enough : ¬ held.length < BatchHeader.size := by omega
    have within : BatchHeader.size ≤ count := by omega
    rw [outcome, if_neg enough, List.take_take, Nat.min_eq_left within, List.drop_take]
    exact bodyOutcome_take (count - BatchHeader.size) (held.drop BatchHeader.size)

theorem outcome_take_of_lt (count : Nat) (torn : count < batch.write.length)
    (finding : outcome config index filePosition held stop = .ok (some batch)) :
    outcome config index filePosition (held.take count) none = .ok none := by
  cases outcome_take count with
  | inl none => exact none
  | inr same =>
    obtain ⟨_, _, _, following, front⟩ := outcome_eq_some_iff.mp (same.trans finding)
    have lengths := congrArg List.length front
    simp only [List.length_take, List.length_append] at lengths
    omega

end PartitionLog.Batch
