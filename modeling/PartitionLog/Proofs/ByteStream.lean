import PartitionLog.ByteStream

/-!
# What a stream delivers

The bytes a stream delivers and the failure that stops it decide what a read takes from it, however
the bytes are cut and whatever interrupts them: `takeUpTo_fst`. Filling a buffer call by call is
such a read (`fill_eq_takeUpTo`).
-/
namespace PartitionLog.ByteStream

def delivered : ByteStream → Bytes
  | [] => []
  | .data b bs :: stream => b :: bs ++ delivered stream
  | .interrupted :: stream => delivered stream
  | .failed _ :: _ => []

def failure : ByteStream → Option IoError
  | [] => none
  | .data _ _ :: stream => failure stream
  | .interrupted :: stream => failure stream
  | .failed cause :: _ => some cause

@[simp] theorem delivered_ofBytes (bs : Bytes) : (ofBytes bs).delivered = bs := by
  cases bs with
  | nil => rfl
  | cons b bs => simp [ofBytes, delivered]

@[simp] theorem failure_ofBytes (bs : Bytes) : (ofBytes bs).failure = none := by
  cases bs <;> rfl

/-- The answer to a read that wants more bytes than there are. -/
def ending (bs : Bytes) : Option IoError → Except IoError Bytes
  | none => .ok bs
  | some cause => .error cause

theorem map_ending (front bs : Bytes) (stop : Option IoError) :
    (ending bs stop).map (front ++ ·) = ending (front ++ bs) stop := by
  cases stop <;> rfl

theorem failure_eq_none_iff {stream : ByteStream} :
    stream.failure = none ↔ ∀ cause, .failed cause ∉ stream := by
  induction stream with
  | nil => simp [failure]
  | cons delivery stream ih =>
    cases delivery with
    | data b bs => simp [failure, ih]
    | interrupted => simp [failure, ih]
    | failed cause =>
      rw [failure]
      exact iff_of_false nofun fun whole => whole cause List.mem_cons_self

theorem delivered_eq_contents {stream : ByteStream} (whole : stream.failure = none) :
    stream.delivered = stream.contents := by
  induction stream with
  | nil => rfl
  | cons delivery stream ih =>
    cases delivery with
    | data b bs => rw [delivered, contents, ih whole]
    | interrupted => exact ih whole
    | failed cause => cases whole

theorem length_delivered_le (stream : ByteStream) :
    stream.delivered.length ≤ stream.contents.length := by
  induction stream with
  | nil => exact Nat.le_refl 0
  | cons delivery stream ih =>
    cases delivery with
    | data b bs => simpa [delivered, contents] using ih
    | interrupted => exact ih
    | failed cause => exact Nat.zero_le _

theorem fillWithin_zero (calls : Nat) (stream : ByteStream) :
    stream.fillWithin calls 0 = (.ok [], stream) := by
  cases calls <;> rfl

/-- A delivery either goes into the room whole, or it is cut there and the room is filled. -/
theorem fillWithin_eq_takeUpTo {calls : Nat} (room : Nat) {stream : ByteStream}
    (enough : stream.length < calls) : stream.fillWithin calls room = stream.takeUpTo room := by
  induction stream generalizing calls room with
  | nil =>
    cases calls with
    | zero => exact absurd enough (Nat.not_lt_zero _)
    | succ calls => cases room <;> rfl
  | cons delivery stream ih =>
    cases calls with
    | zero => exact absurd enough (Nat.not_lt_zero _)
    | succ calls =>
      have fewer : stream.length < calls := Nat.lt_of_succ_lt_succ enough
      cases room with
      | zero => rfl
      | succ room =>
        cases delivery with
        | interrupted => exact ih (room + 1) fewer
        | failed cause => rfl
        | data b bs =>
          rw [takeUpTo, fillWithin, if_neg (Nat.succ_ne_zero room), read, List.drop_succ_cons]
          cases left : bs.drop room with
          | nil => simp only [Nat.add_sub_add_right, ih _ fewer]
          | cons b' bs' =>
            have long : room < bs.length := List.length_lt_of_drop_ne_nil (by simp [left])
            have filled : room + 1 - ((bs.take room).length + 1) = 0 := by
              rw [List.length_take]
              omega
            simp only [List.take_succ_cons, filled, fillWithin_zero]
            simp [Except.map]

theorem fill_eq_takeUpTo (room : Nat) (stream : ByteStream) :
    stream.fill room = stream.takeUpTo room :=
  fillWithin_eq_takeUpTo room (Nat.lt_succ_self _)

theorem takeUpTo_fst (limit : Nat) (stream : ByteStream) :
    (stream.takeUpTo limit).1 =
      if limit ≤ stream.delivered.length then .ok (stream.delivered.take limit)
      else ending stream.delivered stream.failure := by
  fun_induction takeUpTo limit stream with
  | case1 stream => simp
  | case2 limit => simp [delivered, failure, ending]
  | case3 limit stream ih => exact ih
  | case4 limit cause stream => simp [delivered, failure, ending]
  | case5 limit b bs stream used result rest taken ih =>
    have short : bs.length ≤ limit := List.drop_eq_nil_iff.mp used
    rw [taken] at ih
    change result = _ at ih
    change result.map (b :: bs ++ ·) = _
    rw [ih, delivered, failure]
    by_cases enough : limit - bs.length ≤ (delivered stream).length
    · have within : limit + 1 ≤ (b :: bs ++ delivered stream).length := by
        simp only [List.length_append, List.length_cons]
        omega
      rw [if_pos enough, if_pos within, List.cons_append, List.take_succ_cons, List.take_append,
        List.take_of_length_le short]
      rfl
    · have beyond : ¬ limit + 1 ≤ (b :: bs ++ delivered stream).length := by
        simp only [List.length_append, List.length_cons]
        omega
      rw [if_neg enough, if_neg beyond, map_ending]
  | case6 limit b bs stream b' bs' left =>
    have long : limit < bs.length := List.length_lt_of_drop_ne_nil (by simp [left])
    have within : limit + 1 ≤ (b :: bs ++ delivered stream).length := by
      simp only [List.length_append, List.length_cons]
      omega
    rw [delivered, if_pos within, List.cons_append, List.take_succ_cons,
      List.take_append_of_le_length (Nat.le_of_lt long)]

/-- A read that runs into a failure leaves what stands behind it. No other one does. -/
theorem takeUpTo_snd (limit : Nat) (stream : ByteStream)
    (enough : limit ≤ stream.delivered.length ∨ stream.failure = none) :
    (stream.takeUpTo limit).2.delivered = stream.delivered.drop limit ∧
      (stream.takeUpTo limit).2.failure = stream.failure := by
  fun_induction takeUpTo limit stream with
  | case1 stream => simp
  | case2 limit => simp [delivered]
  | case3 limit stream ih => exact ih enough
  | case4 limit cause stream => simp [delivered, failure] at enough
  | case5 limit b bs stream used result rest taken ih =>
    have short : bs.length ≤ limit := List.drop_eq_nil_iff.mp used
    rw [taken] at ih
    rw [delivered, failure] at enough
    simp only [List.length_append, List.length_cons] at enough
    obtain ⟨left, stop⟩ := ih (enough.imp_left fun enough => by omega)
    rw [delivered, failure, List.cons_append, List.drop_succ_cons, List.drop_append, used]
    exact ⟨left, stop⟩
  | case6 limit b bs stream b' bs' left =>
    have long : limit < bs.length := List.length_lt_of_drop_ne_nil (by simp [left])
    refine ⟨?_, rfl⟩
    change b' :: bs' ++ delivered stream = (bs ++ delivered stream).drop limit
    rw [List.drop_append_of_le_length (Nat.le_of_lt long), left]

theorem takeUpTo_of_le {limit : Nat} {stream : ByteStream}
    (enough : limit ≤ stream.delivered.length) :
    ∃ rest, stream.takeUpTo limit = (.ok (stream.delivered.take limit), rest) ∧
      rest.delivered = stream.delivered.drop limit ∧ rest.failure = stream.failure := by
  have answer := stream.takeUpTo_fst limit
  rw [if_pos enough] at answer
  exact ⟨_, Prod.ext answer rfl, stream.takeUpTo_snd limit (.inl enough)⟩

theorem takeUpTo_of_lt {limit : Nat} {stream : ByteStream}
    (short : stream.delivered.length < limit) :
    stream.takeUpTo limit =
      (ending stream.delivered stream.failure, (stream.takeUpTo limit).2) := by
  have answer := stream.takeUpTo_fst limit
  rw [if_neg (Nat.not_le.mpr short)] at answer
  exact Prod.ext answer rfl

end PartitionLog.ByteStream
