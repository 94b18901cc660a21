import PartitionLog.Proofs.Varint
import PartitionLog.Shape

/-!
# Reading by positions

A cursor can leave its bytes where they are and move a position in them. It takes slices of the data
then, and a slice that is not within the data does not exist, nor does a difference below zero. A
reader that is composed of such reads never comes to one: from a position within the data it goes
forward to another, with the result that it has on the bytes ahead (`Composed.exists_readAt`). This
holds of every shape, of optional fields and vectors of whatever is composed in this way, and of any
sequence of reads that goes on behind failures: `operations_safe`.
-/
namespace PartitionLog
namespace Reader

variable {α β : Type} {reader reader' : Reader α} {next : α → Reader β} {data : Bytes}
  {position : Nat}

/-! ## Accesses to the data -/

def slice (data : Bytes) (start stop : Nat) : Option Bytes :=
  if start ≤ stop ∧ stop ≤ data.length then some ((data.take stop).drop start) else none

def remaining (data : Bytes) (position : Nat) : Option Nat :=
  if position ≤ data.length then some (data.length - position) else none

theorem remaining_eq (inside : position ≤ data.length) :
    remaining data position = some (data.drop position).length := by
  rw [remaining, if_pos inside, List.length_drop]

theorem slice_eq {n : Nat} (inside : position + n ≤ data.length) :
    slice data position (position + n) = some ((data.drop position).take n) := by
  rw [slice, if_pos ⟨Nat.le_add_right position n, inside⟩, List.drop_take, Nat.add_sub_cancel_left]

theorem slice_length (inside : position ≤ data.length) :
    slice data position data.length = some (data.drop position) := by
  rw [slice, if_pos ⟨inside, Nat.le_refl _⟩, List.take_length]

/-! ## Readers that are composed of reads by position -/

/-- The parts that a reader is made of. Of these `take`, `rest` and `varint` look at the data, and
`measured` asks how much of it is left, as a vector does for the room that it needs. -/
inductive Composed : {α : Type} → Reader α → Type 1
  | pure {α : Type} (value : α) : Composed (Pure.pure value : Reader α)
  | fail {α : Type} (e : DecodeError) (other : e.isTruncated = false) :
      Composed (Reader.fail e : Reader α)
  | take (n : Nat) : Composed (Reader.take n)
  | rest : Composed Reader.rest
  | varint : Composed Reader.varint
  | measured {α : Type} {reader : Reader α} (composed : Composed reader) : Composed reader
  | bind {α β : Type} {reader : Reader α} {next : α → Reader β} (first : Composed reader)
      (later : ∀ value, Composed (next value)) : Composed (reader >>= next)

namespace Composed

/-- The read from a position on, with the position behind it; `none` stands for an access that is
out of bounds. -/
def readAt {α : Type} {reader : Reader α} : Composed reader → Bytes → Nat →
    Option (Except DecodeError α × Nat)
  | pure value, _, position => some (.ok value, position)
  | fail e _, _, position => some (.error e, position)
  | take n, data, position => do
    let left ← remaining data position
    if left < n then some (.error (.truncated n left), position)
    else
      let taken ← slice data position (position + n)
      some (.ok taken, position + n)
  | rest, data, position => do
    let taken ← slice data position data.length
    some (.ok taken, data.length)
  | varint, data, position => do
    let ahead ← slice data position data.length
    match Varint.decode ahead with
    | .ok (value, length) => some (.ok value, position + length)
    | .error e => some (.error e, position)
  | measured composed, data, position => do
    let _ ← remaining data position
    composed.readAt data position
  | bind first later, data, position =>
    match first.readAt data position with
    | some (.ok value, behind) => (later value).readAt data behind
    | some (.error e, behind) => some (.error e, behind)
    | none => none

def map (f : α → β) (composed : Composed reader) : Composed (f <$> reader) :=
  composed.bind fun value => .pure (f value)

def branch {c : Prop} [decision : Decidable c] (yes : Composed reader) (no : Composed reader') :
    Composed (if c then reader else reader') :=
  match decision with
  | isTrue _ => yes
  | isFalse _ => no

def fixed (width : Nat) : Composed (Reader.fixed width) := (take width).map _

def u8 : Composed Reader.u8 := (fixed 1).map _
def u16 : Composed Reader.u16 := (fixed 2).map _
def u32 : Composed Reader.u32 := (fixed 4).map _
def u64 : Composed Reader.u64 := (fixed 8).map _
def i8 : Composed Reader.i8 := u8.map _
def i16 : Composed Reader.i16 := u16.map _
def i32 : Composed Reader.i32 := u32.map _
def i64 : Composed Reader.i64 := u64.map _
def bool : Composed Reader.bool := u8.map _

def nullableBytes : Composed Reader.nullableBytes :=
  varint.bind fun _ => branch (.pure none) ((take _).map some)

def size : Composed Reader.size := i32.bind fun _ => branch (.fail _ rfl) (.pure _)

def sizedBytes : Composed Reader.sizedBytes := size.bind take

def text : Composed Reader.text :=
  sizedBytes.bind fun bs =>
    match String.fromUTF8? ⟨bs.toArray⟩ with
    | some value => .pure value
    | none => .fail .invalidUtf8 rfl

def optional (composed : Composed reader) : Composed (Reader.optional reader) :=
  bool.bind fun _ => branch (composed.map some) (.pure none)

def replicate (composed : Composed reader) : (count : Nat) → Composed (Reader.replicate reader count)
  | 0 => .pure []
  | count + 1 =>
    composed.bind fun value => (composed.replicate count).bind fun values => .pure (value :: values)

def vector (composed : Composed reader) : Composed (Reader.vector reader) :=
  size.bind fun count => (composed.replicate count).measured

end Composed

/-! ## Where a read ends -/

/-- How a read from `position` on may end. -/
structure Within (data : Bytes) (position : Nat) (result : Except DecodeError α) (behind : Nat) :
    Prop where
  onward : position ≤ behind
  inside : behind ≤ data.length
  truncated : ∀ needed available, result = .error (.truncated needed available) →
    available < needed ∧ available ≤ data.length - position

theorem Within.of_later {result : Except DecodeError α} {middle behind : Nat}
    (onward : position ≤ middle) (later : Within data middle result behind) :
    Within data position result behind where
  onward := onward.trans later.onward
  inside := later.inside
  truncated needed available same := by
    obtain ⟨short, fewer⟩ := later.truncated needed available same
    exact ⟨short, fewer.trans (Nat.sub_le_sub_left onward _)⟩

theorem Within.of_ok {value : α} {behind : Nat} (onward : position ≤ behind)
    (inside : behind ≤ data.length) : Within data position (.ok value) behind :=
  ⟨onward, inside, nofun⟩

theorem Within.of_error {e : DecodeError} {behind : Nat}
    (within : Within data position (.error e : Except DecodeError α) behind) :
    Within data position (.error e : Except DecodeError β) behind where
  onward := within.onward
  inside := within.inside
  truncated needed available same := by
    cases same
    exact within.truncated needed available rfl

/-- A read by position is defined, and is the read of what is ahead. -/
structure ReadsAt (data : Bytes) (position : Nat) (composed : Composed reader)
    (result : Except DecodeError α) (behind : Nat) : Prop where
  defined : composed.readAt data position = some (result, behind)
  same : reader.run (data.drop position) = (result, data.drop behind)
  within : Within data position result behind

namespace Composed

theorem exists_readAt_take (n : Nat) (inside : position ≤ data.length) :
    ∃ result behind, ReadsAt data position (take n) result behind := by
  have ahead : (data.drop position).length = data.length - position := List.length_drop
  by_cases enough : n ≤ (data.drop position).length
  · have room : position + n ≤ data.length := by omega
    refine ⟨.ok ((data.drop position).take n), position + n, ?_, ?_, .of_ok (by omega) room⟩
    · simp only [readAt, remaining_eq inside, slice_eq room, Option.bind_eq_bind, Option.bind_some,
        if_neg (Nat.not_lt.mpr enough)]
    · rw [run_take, if_pos enough, List.drop_drop]
  · have short := Nat.lt_of_not_le enough
    refine ⟨.error (.truncated n (data.drop position).length), position, ?_, ?_, Nat.le_refl _,
      inside, ?_⟩
    · simp only [readAt, remaining_eq inside, Option.bind_eq_bind, Option.bind_some, if_pos short]
    · rw [run_take, if_neg enough]
    · rintro needed available same
      cases same
      exact ⟨short, ahead.le⟩

theorem exists_readAt_varint (inside : position ≤ data.length) :
    ∃ result behind, ReadsAt data position varint result behind := by
  have ahead : (data.drop position).length = data.length - position := List.length_drop
  have given := slice_length inside
  cases answer : Varint.decodeUnsigned (data.drop position) with
  | ok r =>
    obtain ⟨n, length⟩ := r
    obtain ⟨gs, rest, -, split, -, -, rfl⟩ := Varint.decodeUnsigned_eq_ok_iff.mp answer
    have room : gs.length ≤ (data.drop position).length := by
      rw [split, List.length_append]
      omega
    refine ⟨.ok (Varint.unzigzag n), position + gs.length, ?_, ?_, .of_ok (by omega) (by omega)⟩
    · simp only [readAt, given, Option.bind_eq_bind, Option.bind_some, Varint.decode_of_ok answer]
    · rw [Varint.run_varint, answer, ← List.drop_drop]
  | error e =>
    refine ⟨.error e, position, ?_, ?_, Nat.le_refl _, inside, ?_⟩
    · simp only [readAt, given, Option.bind_eq_bind, Option.bind_some,
        Varint.decode_of_error answer]
    · rw [Varint.run_varint, answer]
    · rintro needed available same
      cases same
      rcases Varint.error_of_decodeUnsigned answer with overflow | truncated
      · cases overflow
      · cases truncated
        exact ⟨Nat.lt_succ_self _, ahead.le⟩

theorem exists_readAt (composed : Composed reader) (inside : position ≤ data.length) :
    ∃ result behind, ReadsAt data position composed result behind := by
  induction composed generalizing position with
  | pure value => exact ⟨.ok value, position, rfl, rfl, .of_ok (Nat.le_refl _) inside⟩
  | fail e other =>
    refine ⟨.error e, position, rfl, rfl, Nat.le_refl _, inside, ?_⟩
    rintro needed available same
    cases same
    cases other
  | take n => exact exists_readAt_take n inside
  | rest =>
    refine ⟨.ok (data.drop position), data.length, ?_, ?_, .of_ok inside (Nat.le_refl _)⟩
    · simp only [readAt, slice_length inside, Option.bind_eq_bind, Option.bind_some]
    · rw [List.drop_length]
      rfl
  | varint => exact exists_readAt_varint inside
  | measured composed ih =>
    obtain ⟨result, behind, reads⟩ := ih inside
    refine ⟨result, behind, ?_, reads.same, reads.within⟩
    simp only [readAt, remaining_eq inside, Option.bind_eq_bind, Option.bind_some, reads.defined]
  | bind first later ihFirst ihLater =>
    obtain ⟨result, middle, front⟩ := ihFirst inside
    cases result with
    | error e =>
      refine ⟨.error e, middle, ?_, run_bind_error front.same, front.within.of_error⟩
      simp only [readAt, front.defined]
    -- What is left for the later part is no more than what there was for the whole.
    | ok value =>
      obtain ⟨result, behind, back⟩ := ihLater value front.within.inside
      refine ⟨result, behind, ?_, ?_, back.within.of_later front.within.onward⟩
      · simp only [readAt, front.defined, back.defined]
      · rw [run_bind_ok front.same, back.same]

end Composed

/-! ## Everything or nothing -/

/-- A read that fails takes nothing. -/
def AllOrNothing (reader : Reader α) : Prop :=
  ∀ input e rest, reader.run input = (.error e, rest) → rest = input

namespace AllOrNothing

theorem take (n : Nat) : (take n).AllOrNothing := by
  intro input e rest failed
  rw [run_take] at failed
  split at failed <;> cases failed
  rfl

theorem varint : Reader.varint.AllOrNothing := by
  intro input e rest failed
  rw [Varint.run_varint] at failed
  split at failed <;> cases failed
  rfl

theorem map (f : α → β) (whole : reader.AllOrNothing) : (f <$> reader).AllOrNothing := by
  intro input e rest failed
  rw [← bind_pure_comp, run_bind] at failed
  generalize taken : reader.run input = answer at failed
  obtain ⟨e' | value, behind⟩ := answer
  · cases failed
    exact whole input e rest taken
  · cases failed

theorem fixed (width : Nat) : (Reader.fixed width).AllOrNothing := (take width).map _

theorem u8 : Reader.u8.AllOrNothing := (fixed 1).map _
theorem u16 : Reader.u16.AllOrNothing := (fixed 2).map _
theorem u32 : Reader.u32.AllOrNothing := (fixed 4).map _
theorem u64 : Reader.u64.AllOrNothing := (fixed 8).map _
theorem i8 : Reader.i8.AllOrNothing := u8.map _
theorem i16 : Reader.i16.AllOrNothing := u16.map _
theorem i32 : Reader.i32.AllOrNothing := u32.map _
theorem i64 : Reader.i64.AllOrNothing := u64.map _
theorem bool : Reader.bool.AllOrNothing := u8.map _

end AllOrNothing
end Reader

/-! ## Shapes -/

def Shape.composed : (shape : Shape) → Reader.Composed shape.read
  | u8 => .u8
  | u16 => .u16
  | u32 => .u32
  | u64 => .u64
  | i8 => .i8
  | i16 => .i16
  | i32 => .i32
  | i64 => .i64
  | bool => .bool
  | varint => .varint
  | nullableBytes => .nullableBytes
  | sizedBytes => .sizedBytes
  | text => .text
  | ntp => .bind .text fun _ => .bind .text fun _ => .bind .i32 fun _ => .pure _
  | vnode => .bind .i32 fun _ => .bind .i64 fun _ => .pure _
  | bytes count => .take count
  | rest => .rest
  | optional inner => .optional inner.composed
  | vector inner => .vector inner.composed

/-- Fields of a fixed width and varints. -/
def Shape.IsPrimitive : Shape → Prop
  | u8 | u16 | u32 | u64 | i8 | i16 | i32 | i64 | bool | varint | bytes _ => True
  | nullableBytes | sizedBytes | text | ntp | vnode | rest | optional _ | vector _ => False

theorem Shape.IsPrimitive.allOrNothing {shape : Shape} (primitive : shape.IsPrimitive) :
    shape.read.AllOrNothing := by
  cases shape with
  | u8 => exact .u8
  | u16 => exact .u16
  | u32 => exact .u32
  | u64 => exact .u64
  | i8 => exact .i8
  | i16 => exact .i16
  | i32 => exact .i32
  | i64 => exact .i64
  | bool => exact .bool
  | varint => exact .varint
  | bytes count => exact .take count
  | nullableBytes | sizedBytes | text | ntp | vnode | rest | optional | vector =>
    exact primitive.elim

/-! ## Any sequence of reads -/

/-- A read of some type with what it is composed of. -/
structure Operation where
  Value : Type
  read : Reader Value
  composed : Reader.Composed read

def Shape.operation (shape : Shape) : Operation := ⟨shape.Value, shape.read, shape.composed⟩

namespace Operation

variable {data : Bytes} {position : Nat}

def readAt (operation : Operation) (data : Bytes) (position : Nat) :
    Option (Except DecodeError operation.Value × Nat) :=
  operation.composed.readAt data position

/-- Where the operations leave a cursor, whether they fail or not. -/
def positionAfter (data : Bytes) : List Operation → Nat → Option Nat
  | [], position => some position
  | operation :: later, position =>
    match operation.readAt data position with
    | some (_, behind) => positionAfter data later behind
    | none => none

def restAfter : List Operation → Bytes → Bytes
  | [], input => input
  | operation :: later, input => restAfter later (operation.read.run input).2

theorem exists_positionAfter (operations : List Operation) (inside : position ≤ data.length) :
    ∃ behind, positionAfter data operations position = some behind ∧ position ≤ behind ∧
      behind ≤ data.length ∧ restAfter operations (data.drop position) = data.drop behind := by
  induction operations generalizing position with
  | nil => exact ⟨position, rfl, Nat.le_refl _, inside, rfl⟩
  | cons operation later ih =>
    obtain ⟨result, middle, reads⟩ := operation.composed.exists_readAt inside
    obtain ⟨behind, found, onward, within, left⟩ := ih reads.within.inside
    refine ⟨behind, ?_, reads.within.onward.trans onward, within, ?_⟩
    · simp only [positionAfter, readAt, reads.defined, found]
    · rw [restAfter, reads.same, left]

theorem operations_safe (data : Bytes) (operations : List Operation) :
    ∃ position, positionAfter data operations 0 = some position ∧ position ≤ data.length ∧
      restAfter operations data = data.drop position ∧
      Reader.remaining data position = some (restAfter operations data).length ∧
      (∀ operation : Operation, ∃ result behind,
        operation.readAt data position = some (result, behind) ∧
        operation.read.run (restAfter operations data) = (result, data.drop behind) ∧
        Reader.Within data position result behind) ∧
      ∀ shape : Shape, shape.IsPrimitive → ∀ e behind,
        shape.operation.readAt data position = some (.error e, behind) → behind = position := by
  obtain ⟨position, found, -, inside, left⟩ :=
    exists_positionAfter operations (Nat.zero_le data.length)
  rw [List.drop_zero] at left
  refine ⟨position, found, inside, left, ?_, fun operation => ?_, ?_⟩
  · rw [left, Reader.remaining_eq inside]
  · obtain ⟨result, behind, reads⟩ := operation.composed.exists_readAt inside
    exact ⟨result, behind, reads.defined, left ▸ reads.same, reads.within⟩
  · intro shape primitive e behind failed
    obtain ⟨result, behind', reads⟩ := shape.composed.exists_readAt inside
    cases reads.defined.symm.trans failed
    have kept := primitive.allOrNothing _ _ _ reads.same
    have lengths := congrArg List.length kept
    have bound := reads.within.inside
    rw [List.length_drop, List.length_drop] at lengths
    omega

/-- The second element of a vector is cut behind its length. -/
theorem operations_safe_cut :
    let data : Bytes := [2, 0, 0, 0, 1, 4, 7, 8, 1, 20, 1, 2, 3]
    let operations := [Shape.vector (.optional .nullableBytes), .bytes 1].map Shape.operation
    positionAfter data operations 0 = some 11 ∧ restAfter operations data = [2, 3] ∧
      Reader.remaining data 11 = some 2 ∧
      ∃ e behind, Shape.u32.operation.readAt data 11 = some (.error e, behind) ∧ behind = 11 := by
  intro data operations
  obtain ⟨position, found, -, left, available, step, kept⟩ := operations_safe data operations
  have there : position = 11 := Option.some.inj (found.symm.trans (by decide))
  subst there
  exact ⟨found, left, available, _, _, rfl, kept .u32 trivial _ _ rfl⟩

end Operation
end PartitionLog
