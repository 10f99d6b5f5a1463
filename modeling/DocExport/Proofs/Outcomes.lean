import Mathlib.Data.List.Forall2

/-! Results that may fail. A chain of them fails with the first failure on the way, and so does a list whose
elements are processed in order. -/
namespace DocExport
variable {ε ε' α β γ : Type} {x : Except ε α} {a : α} {b : β}

theorem bind_eq_ok_iff {f : α → Except ε β} : x >>= f = .ok b ↔ ∃ a, x = .ok a ∧ f a = .ok b := by
  cases x <;> simp [bind, Except.bind]

theorem bind_eq_error_iff {f : α → Except ε β} {failure : ε} :
    x >>= f = .error failure ↔ x = .error failure ∨ ∃ a, x = .ok a ∧ f a = .error failure := by
  cases x <;> simp [bind, Except.bind]

theorem map_eq_ok_iff {f : α → β} : x.map f = .ok b ↔ ∃ a, x = .ok a ∧ b = f a := by
  cases x <;> simp [Except.map, eq_comm]

theorem map_eq_error_iff {f : α → β} {failure : ε} : x.map f = .error failure ↔ x = .error failure := by
  cases x <;> simp [Except.map]

theorem mapError_eq_ok_iff {f : ε → ε'} : x.mapError f = .ok a ↔ x = .ok a := by
  cases x <;> simp [Except.mapError]

theorem mapError_eq_error_iff {f : ε → ε'} {failure : ε'} :
    x.mapError f = .error failure ↔ ∃ own, x = .error own ∧ failure = f own := by
  cases x <;> simp [Except.mapError, eq_comm]

/-- No failure but those that `P` admits. -/
def FailsOnly (P : ε → Prop) (result : Except ε α) : Prop := ∀ failure, result = .error failure → P failure

section
variable {P : ε → Prop} {Q : ε' → Prop} {result : Except ε α}

theorem failsOnly_ok (a : α) : FailsOnly P (.ok a) := nofun

theorem FailsOnly.imp {P' : ε → Prop} (h : FailsOnly P result) (hP : ∀ failure, P failure → P' failure) :
    FailsOnly P' result :=
  fun failure hfailure => hP failure (h failure hfailure)

theorem FailsOnly.bind {f : α → Except ε β} (h : FailsOnly P result) (hf : ∀ a, FailsOnly P (f a)) :
    FailsOnly P (result.bind f) := by
  intro failure hfailure
  rcases bind_eq_error_iff.mp hfailure with hown | ⟨a, -, hrest⟩
  · exact h failure hown
  · exact hf a failure hrest

theorem FailsOnly.map {f : α → β} (h : FailsOnly P result) : FailsOnly P (result.map f) :=
  fun failure hfailure => h failure (map_eq_error_iff.mp hfailure)

theorem failsOnly_mapError {f : ε → ε'} (hQ : ∀ failure, Q (f failure)) : FailsOnly Q (result.mapError f) := by
  intro failure hfailure
  obtain ⟨own, -, rfl⟩ := mapError_eq_error_iff.mp hfailure
  exact hQ own

end

/-- `f` fails on an element and on none before it. What stands behind it is of no account. -/
inductive FirstFails (f : α → Except ε β) : List α → ε → Prop where
  | here {a : α} {rest : List α} {failure : ε} : f a = .error failure → FirstFails f (a :: rest) failure
  | later {a : α} {b : β} {rest : List α} {failure : ε} :
    f a = .ok b → FirstFails f rest failure → FirstFails f (a :: rest) failure

variable {f : α → Except ε β} {xs : List α}

theorem mapM_eq_ok_iff {ys : List β} : xs.mapM f = .ok ys ↔ List.Forall₂ (fun x y => f x = .ok y) xs ys := by
  induction xs generalizing ys with
  | nil => simp [pure, Except.pure, eq_comm]
  | cons x xs ih =>
    simp only [List.mapM_cons, bind_eq_ok_iff, ih, List.forall₂_cons_left_iff, pure, Except.pure,
      Except.ok.injEq]
    constructor
    · rintro ⟨y, hx, more, hxs, rfl⟩
      exact ⟨y, more, hx, hxs, rfl⟩
    · rintro ⟨y, more, hx, hxs, rfl⟩
      exact ⟨y, hx, more, hxs, rfl⟩

theorem mapM_eq_error_iff {failure : ε} : xs.mapM f = .error failure ↔ FirstFails f xs failure := by
  induction xs with
  | nil => exact ⟨nofun, nofun⟩
  | cons x xs ih =>
    simp only [List.mapM_cons, bind_eq_error_iff, ih, pure, Except.pure, reduceCtorEq, and_false, exists_false,
      or_false]
    constructor
    · rintro (hx | ⟨y, hx, hxs⟩)
      · exact .here hx
      · exact .later hx hxs
    · rintro (hx | ⟨hx, hxs⟩)
      · exact .inl hx
      · exact .inr ⟨_, hx, hxs⟩

theorem mapM_congr_of_forall₂ {g : γ → Except ε β} {ys : List γ} (h : List.Forall₂ (fun x y => f x = g y) xs ys) :
    xs.mapM f = ys.mapM g := by
  induction h with
  | nil => rfl
  | cons hhead _ ih => rw [List.mapM_cons, List.mapM_cons, hhead, ih]

theorem mapM_zipIdx (xs : List α) (start : Nat) : ((xs.zipIdx start).mapM fun x => f x.1) = xs.mapM f := by
  have hmap : ((xs.zipIdx start).map Prod.fst).mapM f = (xs.zipIdx start).mapM (f ∘ Prod.fst) := List.mapM_map
  rw [List.zipIdx_map_fst] at hmap
  exact hmap.symm

/-- What is done to each result alike can be done once, behind all of them. -/
theorem mapM_mapError_map (g : ε → ε') (h : β → γ) :
    (xs.mapM fun x => ((f x).mapError g).map h) = ((xs.mapM f).mapError g).map (List.map h) := by
  induction xs with
  | nil => rfl
  | cons x xs ih =>
    rw [List.mapM_cons, List.mapM_cons, ih]
    cases f x with
    | error failure => rfl
    | ok y =>
      cases xs.mapM f with
      | error failure => rfl
      | ok ys => rfl

end DocExport
