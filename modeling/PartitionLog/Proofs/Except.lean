/-!
# Computations that may fail

A fold whose steps first read and then apply can do all the reading first, and fails as the reading
does: `foldlM_eq_map_mapM`. Of a list of reads, the first failure counts: `failure?_mapM`.
-/
namespace PartitionLog

theorem foldlM_eq_map_mapM {ε σ α β : Type} {step : σ → α → Except ε σ} {read : α → Except ε β}
    {apply : σ → β → σ} (split : ∀ state x, step state x = apply state <$> read x)
    (xs : List α) (state : σ) :
    xs.foldlM step state = (fun ys => ys.foldl apply state) <$> xs.mapM read := by
  induction xs generalizing state with
  | nil => rfl
  | cons x xs ih =>
    simp only [List.foldlM_cons, List.mapM_cons, split, ih, map_bind, bind_map_left,
      List.foldl_cons, bind_pure_comp, Functor.map_map]

theorem mapM_congr_left {ε α β : Type} {read read' : α → Except ε β} {xs : List α}
    (same : ∀ x ∈ xs, read x = read' x) : xs.mapM read = xs.mapM read' := by
  have through (read : α → Except ε β) : (xs.map read).mapM id = xs.mapM read := List.mapM_map
  rw [← through read, List.map_congr_left same, through read']

theorem exists_ok_of_map_eq_some {ε α β : Type} {x : Except ε α} {f : α → β} {result : β}
    (h : x.toOption.map f = some result) : ∃ value, x = .ok value ∧ f value = result := by
  cases x with
  | error e => simp [Except.toOption] at h
  | ok value => exact ⟨value, rfl, Option.some.inj h⟩

theorem map_eq_ok_iff {ε α β : Type} {x : Except ε α} {f : α → β} {result : β} :
    x.map f = .ok result ↔ ∃ value, x = .ok value ∧ f value = result := by
  cases x with
  | error e => simp [Except.map]
  | ok value => simp [Except.map]

theorem mapError_eq_ok_iff {ε ε' α : Type} {onError : ε → ε'} {x : Except ε α} {result : α} :
    x.mapError onError = .ok result ↔ x = .ok result := by
  cases x with
  | error e => exact ⟨nofun, nofun⟩
  | ok value =>
    exact ⟨fun same => congrArg Except.ok (Except.ok.inj same),
      fun same => congrArg Except.ok (Except.ok.inj same)⟩

theorem mapError_eq_error_iff {ε ε' α : Type} {onError : ε → ε'} {x : Except ε α} {e : ε'} :
    x.mapError onError = .error e ↔ ∃ cause, x = .error cause ∧ onError cause = e := by
  cases x with
  | error cause =>
    constructor
    · intro same
      exact ⟨cause, rfl, Except.error.inj same⟩
    · rintro ⟨cause', same, rfl⟩
      cases same
      rfl
  | ok value => exact ⟨nofun, nofun⟩

theorem bind_eq_ok_iff {ε α β : Type} {x : Except ε α} {next : α → Except ε β} {result : β} :
    (x >>= next) = .ok result ↔ ∃ value, x = .ok value ∧ next value = .ok result := by
  cases x with
  | error e => simp [bind, Except.bind]
  | ok value => simp [bind, Except.bind]

theorem mapM_cons_eq_ok_iff {ε α β : Type} {read : α → Except ε β} {x : α} {xs : List α}
    {results : List β} :
    (x :: xs).mapM read = .ok results ↔
      ∃ y ys, read x = .ok y ∧ xs.mapM read = .ok ys ∧ results = y :: ys := by
  simp only [List.mapM_cons, bind_eq_ok_iff, pure, Except.pure, Except.ok.injEq, exists_and_left,
    @eq_comm _ results]

theorem mapM_append_eq_ok_iff {ε α β : Type} {read : α → Except ε β} {xs ys : List α}
    {results : List β} :
    (xs ++ ys).mapM read = .ok results ↔
      ∃ front back, xs.mapM read = .ok front ∧ ys.mapM read = .ok back ∧
        results = front ++ back := by
  simp only [List.mapM_append, bind_eq_ok_iff, pure, Except.pure, Except.ok.injEq, exists_and_left,
    @eq_comm _ results]

theorem mapM_map_ok {ε α : Type} (values : List α) :
    (values.map Except.ok).mapM id = (.ok values : Except ε (List α)) := by
  induction values with
  | nil => rfl
  | cons value values ih =>
    rw [List.map_cons, List.mapM_cons, ih]
    rfl

theorem mapM_map_ok_error {ε α : Type} (values : List α) (e : ε) :
    (values.map Except.ok ++ [Except.error e]).mapM id = .error e := by
  rw [List.mapM_append, mapM_map_ok]
  rfl

theorem exists_prefix_of_mapM {ε α β : Type} {read : α → Except ε β} {xs xs' : List α}
    {results : List β} (ok : xs.mapM read = .ok results) (front : xs' <+: xs) :
    ∃ results', xs'.mapM read = .ok results' ∧ results' <+: results := by
  obtain ⟨rest, rfl⟩ := front
  obtain ⟨results', more, ok', -, rfl⟩ := mapM_append_eq_ok_iff.mp ok
  exact ⟨results', ok', List.prefix_append _ _⟩

theorem exists_ok_of_mem {ε α β : Type} {read : α → Except ε β} {xs : List α} {results : List β}
    (ok : xs.mapM read = .ok results) : ∀ x ∈ xs, ∃ y, read x = .ok y := by
  induction xs generalizing results with
  | nil => simp
  | cons x xs ih =>
    obtain ⟨y, ys, first, later, rfl⟩ := mapM_cons_eq_ok_iff.mp ok
    intro z member
    cases List.mem_cons.mp member with
    | inl head => exact ⟨y, head ▸ first⟩
    | inr rest => exact ih later z rest

theorem map_of_mapM {ε α β γ : Type} {read : α → Except ε β} {f : β → γ} {g : α → γ}
    (each : ∀ x y, read x = .ok y → f y = g x) {xs : List α} {results : List β}
    (ok : xs.mapM read = .ok results) : results.map f = xs.map g := by
  induction xs generalizing results with
  | nil =>
    cases ok
    rfl
  | cons x xs ih =>
    obtain ⟨y, ys, first, later, rfl⟩ := mapM_cons_eq_ok_iff.mp ok
    rw [List.map_cons, List.map_cons, each x y first, ih later]

theorem length_of_mapM {ε α β : Type} {read : α → Except ε β} {xs : List α} {results : List β}
    (ok : xs.mapM read = .ok results) : results.length = xs.length := by
  have same := map_of_mapM (f := fun _ => ()) (g := fun _ => ()) (fun _ _ _ => rfl) ok
  simpa using congrArg List.length same

theorem mapM_mono {ε α β : Type} {read read' : α → Except ε β} {xs : List α} {results : List β}
    (weaker : ∀ x y, read x = .ok y → read' x = .ok y) (ok : xs.mapM read = .ok results) :
    xs.mapM read' = .ok results := by
  have same : ∀ x ∈ xs, read x = read' x := by
    intro x member
    obtain ⟨y, found⟩ := exists_ok_of_mem ok x member
    exact found.trans (weaker x y found).symm
  exact (mapM_congr_left same).symm.trans ok

theorem mapError_map {ε ε' α β : Type} (onError : ε → ε') (f : α → β) (x : Except ε α) :
    (f <$> x).mapError onError = f <$> x.mapError onError := by
  cases x <;> rfl

/-! ## The failure of a computation -/

def failure? {ε α : Type} : Except ε α → Option ε
  | .error e => some e
  | .ok _ => none

theorem failure?_eq_some_iff {ε α : Type} {x : Except ε α} {e : ε} :
    failure? x = some e ↔ x = .error e := by
  cases x <;> simp [failure?]

theorem failure?_map {ε α β : Type} (f : α → β) (x : Except ε α) :
    failure? (f <$> x) = failure? x := by
  cases x <;> rfl

/-- The first of all failures that a list of reads can meet is the one it ends with. -/
theorem failure?_mapM {ε α β : Type} {read : α → Except ε β} {failures : α → List ε}
    (first : ∀ x, failure? (read x) = (failures x).head?) (xs : List α) :
    failure? (xs.mapM read) = (xs.flatMap failures).head? := by
  induction xs with
  | nil => rfl
  | cons x xs ih =>
    rw [List.mapM_cons, List.flatMap_cons, List.head?_append, ← first, ← ih]
    cases read x with
    | error e => rfl
    | ok y => cases xs.mapM read <;> rfl

theorem exists_error_of_mapM {ε α β : Type} {read : α → Except ε β} {xs : List α} {e : ε}
    (failed : xs.mapM read = .error e) : ∃ x ∈ xs, read x = .error e := by
  have first (x : α) : failure? (read x) = (failure? (read x)).toList.head? := by
    cases failure? (read x) <;> rfl
  have head := (failure?_mapM first xs).symm.trans (failure?_eq_some_iff.mpr failed)
  obtain ⟨x, member, among⟩ := List.mem_flatMap.mp (List.mem_of_mem_head? head)
  exact ⟨x, member, failure?_eq_some_iff.mp (Option.mem_toList.mp among)⟩

/-! ## Computations that end alike -/

/-- Both fail with the same error, or both succeed with related results. -/
inductive Alike {ε α β : Type} (R : α → β → Prop) : Except ε α → Except ε β → Prop
  | ok {a : α} {b : β} : R a b → Alike R (.ok a) (.ok b)
  | error (e : ε) : Alike R (.error e) (.error e)

theorem Alike.bind {ε α β γ δ : Type} {R : α → β → Prop} {S : γ → δ → Prop} {x : Except ε α}
    {y : Except ε β} {f : α → Except ε γ} {g : β → Except ε δ} (alike : Alike R x y)
    (next : ∀ a b, R a b → Alike S (f a) (g b)) : Alike S (x >>= f) (y >>= g) := by
  cases alike with
  | ok related => exact next _ _ related
  | error e => exact .error e

theorem Alike.map {ε α β γ δ : Type} {R : α → β → Prop} {S : γ → δ → Prop} {x : Except ε α}
    {y : Except ε β} {f : α → γ} {g : β → δ} (alike : Alike R x y)
    (next : ∀ a b, R a b → S (f a) (g b)) : Alike S (f <$> x) (g <$> y) := by
  cases alike with
  | ok related => exact .ok (next _ _ related)
  | error e => exact .error e

theorem Alike.bind_eq {ε α β γ : Type} {R : α → β → Prop} {x : Except ε α} {y : Except ε β}
    {f : α → Except ε γ} {g : β → Except ε γ} (alike : Alike R x y)
    (next : ∀ a b, R a b → f a = g b) : x >>= f = y >>= g := by
  cases alike with
  | ok related => exact next _ _ related
  | error e => rfl

theorem Alike.refl {ε α : Type} (x : Except ε α) : Alike Eq x x := by
  cases x with
  | ok a => exact .ok rfl
  | error e => exact .error e

end PartitionLog
