import Mathlib

/-!
# Computations that may fail

Much of the library is computed in `Except`.  These are the lemmas about single computations, loops and
pairs of computations that the other files use, whatever is computed.
-/

namespace GivenClause

variable {ε α β γ δ : Type}

/-! ## Success -/

/-- If two computations in a row succeed, the first does. -/
lemma bind_eq_ok {x : Except ε α} {f : α → Except ε β} {b : β} (h : x >>= f = .ok b) :
    ∃ a, x = .ok a ∧ f a = .ok b := by
  cases x with
  | error e => cases h
  | ok a => exact ⟨a, rfl, h⟩

/-- A computation that is found to succeed with a property has a result with that property. -/
lemma exists_ok_of_any {x : Except ε α} {p : α → Bool} (h : x.toOption.any p = true) :
    ∃ a, x = .ok a ∧ p a = true := by
  cases x with
  | error e => cases h
  | ok a => exact ⟨a, rfl, h⟩

/-! ## Loops that collect -/

lemma mapM_congr {f g : α → Except ε β} {xs : List α} (h : ∀ x ∈ xs, f x = g x) :
    xs.mapM f = xs.mapM g := by
  induction xs with
  | nil => rfl
  | cons x xs ih =>
      rw [List.mapM_cons, List.mapM_cons, h x List.mem_cons_self,
        ih fun y hy => h y (List.mem_cons_of_mem x hy)]

lemma exists_mapM_ok {f : α → Except ε β} (xs : List α) (h : ∀ x, ∃ y, f x = .ok y) :
    ∃ ys, xs.mapM f = .ok ys := by
  induction xs with
  | nil => exact ⟨[], rfl⟩
  | cons x xs ih =>
      obtain ⟨y, hy⟩ := h x
      obtain ⟨ys, hys⟩ := ih
      refine ⟨y :: ys, ?_⟩
      simp [List.mapM_cons, hy, hys, bind, Except.bind, pure, Except.pure]

lemma forall₂_of_mapM {f : α → Except ε β} {xs : List α} {ys : List β} (h : xs.mapM f = .ok ys) :
    List.Forall₂ (fun x y => f x = .ok y) xs ys := by
  induction xs generalizing ys with
  | nil =>
      obtain rfl : [] = ys := Except.ok.inj h
      exact .nil
  | cons x xs ih =>
      rw [List.mapM_cons] at h
      obtain ⟨y, hy, h⟩ := bind_eq_ok h
      obtain ⟨rest, hrest, h⟩ := bind_eq_ok h
      obtain rfl : y :: rest = ys := Except.ok.inj h
      exact .cons hy (ih hrest)

/-- A loop yields exactly the results of its rounds. -/
lemma mem_of_mapM {f : α → Except ε β} {xs : List α} {ys : List β} (h : xs.mapM f = .ok ys) {y : β} :
    y ∈ ys ↔ ∃ x ∈ xs, f x = .ok y := by
  have hall := forall₂_of_mapM h
  clear h
  induction hall with
  | nil => simp
  | cons hxy _ ih => simp [ih, hxy, eq_comm]

lemma mem_of_mapM_tagged {f : α → Except ε β} {tag : α → γ} {xs : List α} {ys : List (γ × β)}
    (h : (xs.mapM fun x => f x >>= fun b => pure (tag x, b)) = .ok ys) {t : γ} {b : β} :
    (t, b) ∈ ys ↔ ∃ x ∈ xs, tag x = t ∧ f x = .ok b := by
  rw [mem_of_mapM h]
  refine exists_congr fun x => and_congr_right fun _ => ?_
  cases f x <;> simp [bind, Except.bind, pure, Except.pure]

/-! ## Loops that go on from a result -/

section Loops

variable {m : Type → Type} [Monad m] [LawfulMonad m]

lemma foldlM_flatMap (f : α → List γ) (g : β → γ → m β) (xs : List α) (b : β) :
    (xs.flatMap f).foldlM g b = xs.foldlM (fun b x => (f x).foldlM g b) b := by
  induction xs generalizing b with
  | nil => rfl
  | cons x xs ih => simp [ih]

omit [LawfulMonad m] in
lemma foldlM_congr {f g : β → α → m β} {xs : List α} (h : ∀ x ∈ xs, ∀ b, f b x = g b x) (b : β) :
    xs.foldlM f b = xs.foldlM g b := by
  induction xs generalizing b with
  | nil => rfl
  | cons x xs ih =>
      rw [List.foldlM_cons, List.foldlM_cons, h x List.mem_cons_self]
      exact congrArg _ (funext fun b => ih (fun y hy => h y (List.mem_cons_of_mem x hy)) b)

omit [LawfulMonad m] in
/-- A loop over the items with their positions that only looks at the positions. -/
lemma foldlM_zipIdx (f : β → ℕ → m β) (xs : List α) (b : β) :
    xs.zipIdx.foldlM (fun b p => f b p.2) b = (List.range xs.length).foldlM f b := by
  rw [← List.foldlM_map (f := Prod.snd), List.zipIdx_map_snd, List.range_eq_range']

end Loops

/-! ## Computations side by side -/

/-- Both computations fail, for the same reason, or both succeed with related results. -/
def Parallel (R : α → β → Prop) : Except ε α → Except ε β → Prop
  | .ok a, .ok b => R a b
  | .error e, .error e' => e = e'
  | _, _ => False

namespace Parallel

variable {R : α → β → Prop} {S : γ → δ → Prop}

lemma cases {x : Except ε α} {y : Except ε β} (h : Parallel R x y) :
    (∃ e, x = .error e ∧ y = .error e) ∨ ∃ a b, x = .ok a ∧ y = .ok b ∧ R a b := by
  cases x with
  | error e =>
      cases y with
      | error e' => exact Or.inl ⟨e, rfl, congrArg _ (Eq.symm h)⟩
      | ok b => exact h.elim
  | ok a =>
      cases y with
      | error e' => exact h.elim
      | ok b => exact Or.inr ⟨a, b, rfl, rfl, h⟩

lemma bind {x : Except ε α} {y : Except ε β} {f : α → Except ε γ} {g : β → Except ε δ}
    (h : Parallel R x y) (hfg : ∀ a b, R a b → Parallel S (f a) (g b)) :
    Parallel S (x >>= f) (y >>= g) := by
  rcases h.cases with ⟨e, rfl, rfl⟩ | ⟨a, b, rfl, rfl, hab⟩
  · exact rfl
  · exact hfg a b hab

lemma mapM {xs : List α} {ys : List β} {f : α → Except ε γ} {g : β → Except ε δ}
    (h : List.Forall₂ R xs ys) (hfg : ∀ a b, R a b → Parallel S (f a) (g b)) :
    Parallel (List.Forall₂ S) (xs.mapM f) (ys.mapM g) := by
  induction h with
  | nil => exact List.Forall₂.nil
  | cons hab _ ih =>
      rw [List.mapM_cons, List.mapM_cons]
      refine (hfg _ _ hab).bind fun c d hcd => ih.bind fun cs ds hcds => ?_
      exact List.Forall₂.cons hcd hcds

end Parallel

end GivenClause
