import PartitionLog.Proofs.Canonical

/-!
# Presence bytes

An optional field is written behind a byte 0 or 1, and read behind any byte: only 0 stands for
absence. `UpToPresence` says that this is all the freedom a field leaves: a reader takes as many
bytes as the writer makes of the value, and takes exactly these where each presence byte is 0 or 1.
A canonical field is one without presence bytes (`Canonical.upToPresence`,
`UpToPresence.canonical`).
-/
namespace PartitionLog.Reader

variable {α β : Type} {reader : Reader α} {input rest : Bytes}

/-! ## The presence bytes of a field -/

/-- A field without any. -/
def skip (reader : Reader α) : Reader Bytes := (fun _ => []) <$> reader

/-- An optional field, with none inside. -/
def presence (reader : Reader α) : Reader Bytes := do
  let flag ← u8
  if flag != 0 then (fun _ => [flag]) <$> reader else pure [flag]

def joined (first second : Reader Bytes) : Reader Bytes := do
  let front ← first
  let back ← second
  pure (front ++ back)

/-! ## What is left to them -/

def UpToPresence (reader : Reader α) (flags : Reader Bytes) (write : α → Bytes) : Prop :=
  ∀ input value rest, reader.run input = (.ok value, rest) →
    ∃ taken found, input = taken ++ rest ∧ flags.Decodes taken found ∧
      reader.Decodes (write value) value ∧ (write value).length = taken.length ∧
      (write value = taken ↔ ∀ flag ∈ found, flag = 0 ∨ flag = 1)

variable {reader' : Reader β} {flags flags' : Reader Bytes} {write : α → Bytes}
  {write' : β → Bytes}

theorem Canonical.upToPresence (canonical : reader.Canonical write) :
    reader.UpToPresence reader.skip write := by
  intro input value rest read
  obtain ⟨front, decodes⟩ := canonical input value rest read
  exact ⟨write value, [], front, decodes.map _, decodes, rfl, by simp⟩

/-- Only the byte in front of the field is free, and only if the field is there. -/
theorem Canonical.optional (canonical : reader.Canonical write) :
    (optional reader).UpToPresence reader.presence (Wire.optional write) := by
  intro input value? rest found
  obtain ⟨there, middle, flagged, read⟩ := run_bind_eq_ok_iff.mp found
  obtain ⟨flag, first, rfl⟩ := run_map_eq_ok_iff.mp flagged
  obtain ⟨rfl, decodesFlag⟩ := Canonical.u8 _ _ _ first
  have byte : Wire.u8 flag = [flag] := Wire.u8_eq flag
  by_cases absent : flag = 0
  · subst absent
    cases read
    have alone : reader.presence.Decodes (Wire.u8 0) [0] := by
      intro following
      rw [presence, run_bind_ok (decodesFlag following)]
      rfl
    refine ⟨Wire.u8 0, [0], rfl, alone, Decodes.optional_self none (by simp), rfl, ?_⟩
    simp [byte, Wire.optional, Wire.bool]
  · have present : (flag != 0) = true := by simpa using absent
    rw [present, if_pos rfl] at read
    obtain ⟨value, taken, rfl⟩ := run_map_eq_ok_iff.mp read
    obtain ⟨rfl, decodes⟩ := canonical _ _ _ taken
    refine ⟨Wire.u8 flag ++ write value, [flag], (List.append_assoc ..).symm, ?_,
      (Decodes.bool true).bind (decodes.map some), ?_, ?_⟩
    · refine decodesFlag.bind ?_
      rw [present, if_pos rfl]
      exact decodes.map _
    · simp [byte, Wire.optional, Wire.bool]
    · simp [byte, Wire.optional, Wire.bool, absent, eq_comm]

namespace UpToPresence

theorem canonical (upTo : reader.UpToPresence reader.skip write) : reader.Canonical write := by
  intro input value rest read
  obtain ⟨taken, found, front, none, decodes, -, same⟩ := upTo input value rest read
  obtain ⟨_, -, rfl⟩ := run_map_eq_ok_iff.mp none.run
  obtain rfl := same.mpr (by simp)
  exact ⟨front, decodes⟩

theorem of_eq {same : Reader α} {sameFlags : Reader Bytes} (eq : same = reader)
    (eqFlags : sameFlags = flags) (upTo : reader.UpToPresence flags write) :
    same.UpToPresence sameFlags write :=
  eq ▸ eqFlags ▸ upTo

/-! ## Structures -/

theorem pure (value : α) :
    (Pure.pure value : Reader α).UpToPresence (Pure.pure []) fun _ => [] := by
  intro input _ rest read
  cases read
  exact ⟨[], [], rfl, fun _ => rfl, fun _ => rfl, rfl, by simp⟩

theorem map {f : α → β} (upTo : reader.UpToPresence flags write)
    (same : ∀ value, write' (f value) = write value) :
    (f <$> reader).UpToPresence flags write' := by
  intro input result rest mapped
  obtain ⟨value, read, rfl⟩ := run_map_eq_ok_iff.mp mapped
  obtain ⟨taken, found, front, decodesFlags, decodes, length, exactly⟩ := upTo _ _ _ read
  rw [same]
  exact ⟨taken, found, front, decodesFlags, decodes.map f, length, exactly⟩

theorem pair (first : reader.UpToPresence flags write)
    (second : reader'.UpToPresence flags' write') :
    (reader.pair reader').UpToPresence (flags.joined flags') fun x => write x.1 ++ write' x.2 := by
  intro input result rest read
  obtain ⟨x, middle, readX, read⟩ := run_bind_eq_ok_iff.mp read
  obtain ⟨y, _, readY, read⟩ := run_bind_eq_ok_iff.mp read
  cases read
  obtain ⟨front, found, rfl, flagsX, decodesX, length, exactly⟩ := first _ _ _ readX
  obtain ⟨back, found', rfl, flagsY, decodesY, length', exactly'⟩ := second _ _ _ readY
  refine ⟨front ++ back, found ++ found', (List.append_assoc ..).symm,
    flagsX.bind (flagsY.bind_pure _), decodesX.bind (decodesY.bind_pure _), ?_, ?_⟩
  · rw [List.length_append, List.length_append, length, length']
  · rw [List.append_eq_append_iff_of_size_eq_left length, exactly, exactly',
      List.forall_mem_append]

/-- The first field may decide which others there are. -/
theorem bind {next : α → Reader β} {flagsOf : α → Reader Bytes} {writeOf : α → β → Bytes}
    (first : reader.Canonical write)
    (others : ∀ x, (next x).UpToPresence (flagsOf x) (writeOf x)) :
    (reader >>= fun x => Prod.mk x <$> next x).UpToPresence (reader >>= flagsOf)
      fun x => write x.1 ++ writeOf x.1 x.2 := by
  intro input result rest read
  obtain ⟨x, middle, readX, read⟩ := run_bind_eq_ok_iff.mp read
  obtain ⟨y, readY, rfl⟩ := run_map_eq_ok_iff.mp read
  obtain ⟨rfl, decodesX⟩ := first _ _ _ readX
  obtain ⟨back, found, rfl, flagsY, decodesY, length, exactly⟩ := others x _ _ _ readY
  refine ⟨write x ++ back, found, (List.append_assoc ..).symm, decodesX.bind flagsY,
    decodesX.bind (decodesY.map _), ?_, ?_⟩
  · rw [List.length_append, List.length_append, length]
  · rw [List.append_right_inj, exactly]

/-! ## Vectors -/

theorem replicate (each : reader.UpToPresence flags write) {count : Nat} {values : List α}
    (read : (replicate reader count).run input = (.ok values, rest)) :
    values.length = count ∧ (∀ value ∈ values, reader.Decodes (write value) value) ∧
      ∃ taken found, input = taken ++ rest ∧ (Reader.replicate flags count).Decodes taken found ∧
        (values.flatMap write).length = taken.length ∧
        (values.flatMap write = taken ↔ ∀ flag ∈ found.flatten, flag = 0 ∨ flag = 1) := by
  induction count generalizing input values rest with
  | zero =>
    cases read
    exact ⟨rfl, by simp, [], [], rfl, fun _ => rfl, rfl, by simp⟩
  | succ count ih =>
    obtain ⟨value, middle, first, read⟩ := run_bind_eq_ok_iff.mp read
    obtain ⟨values', _, others, read⟩ := run_bind_eq_ok_iff.mp read
    cases read
    obtain ⟨front, found, rfl, flagsX, decodes, length, exactly⟩ := each _ _ _ first
    obtain ⟨counted, decodes', back, found', rfl, flagsY, length', exactly'⟩ := ih others
    refine ⟨congrArg (· + 1) counted, List.forall_mem_cons.mpr ⟨decodes, decodes'⟩,
      front ++ back, found :: found', (List.append_assoc ..).symm,
      flagsX.bind (flagsY.bind_pure _), ?_, ?_⟩
    · rw [List.flatMap_cons, List.length_append, List.length_append, length, length']
    · rw [List.flatMap_cons, List.append_eq_append_iff_of_size_eq_left length, exactly, exactly',
        List.flatten_cons, List.forall_mem_append]

theorem vector (each : reader.UpToPresence flags write) :
    (vector reader).UpToPresence (List.flatten <$> Reader.vector flags) (Wire.vector write) := by
  intro input values rest read
  obtain ⟨count, middle, sized, elements⟩ := run_bind_eq_ok_iff.mp read
  obtain ⟨rfl, decodesCount⟩ := Canonical.size _ _ _ sized
  obtain ⟨rfl, decodes, taken, found, rfl, flagged, length, exactly⟩ := each.replicate elements
  refine ⟨_, found.flatten, (List.append_assoc ..).symm, (decodesCount.bind flagged).map _,
    decodesCount.bind (.replicate_self values decodes), ?_, ?_⟩
  · rw [Wire.vector, List.length_append, List.length_append, length]
  · rw [Wire.vector, List.append_right_inj, exactly]

end UpToPresence

theorem replicate_map (f : α → β) (count : Nat) :
    replicate (f <$> reader) count = List.map f <$> replicate reader count := by
  induction count with
  | zero => rfl
  | succ count ih => simp [replicate, ih]

theorem Canonical.vector (each : reader.Canonical write) :
    (vector reader).Canonical (Wire.vector write) := by
  have elements := each.upToPresence.vector
  have none : (Reader.vector reader).skip = List.flatten <$> Reader.vector reader.skip := by
    simp [skip, Reader.vector, replicate_map, List.map_const']
  exact (elements.of_eq rfl none).canonical

end PartitionLog.Reader
