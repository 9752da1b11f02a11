/-!
# Filtered lists

A loop that marks one member of a finite list in each round ends, because fewer members are left
unmarked.  This is the fact behind that argument.
-/

namespace GivenClause

/-- A list filtered by a stronger test that refuses one more member gets shorter. -/
theorem length_filter_lt {α : Type} {p q : α → Bool} {xs : List α} {x : α}
    (h : ∀ y ∈ xs, p y = true → q y = true) (hx : x ∈ xs) (hq : q x = true) (hp : p x = false) :
    (xs.filter p).length < (xs.filter q).length := by
  induction xs with
  | nil => cases hx
  | cons y ys ih =>
    have tail : (ys.filter p).length ≤ (ys.filter q).length := by
      rw [← List.countP_eq_length_filter, ← List.countP_eq_length_filter]
      exact List.countP_mono_left fun z hz hpz => h z (List.mem_cons_of_mem y hz) hpz
    rcases List.mem_cons.1 hx with rfl | hx
    · simp only [List.filter_cons, hp, hq, if_true, Bool.false_eq_true, if_false, List.length_cons]
      omega
    · have := ih (fun z hz => h z (List.mem_cons_of_mem y hz)) hx
      cases hpy : p y
      · simp only [List.filter_cons, hpy, Bool.false_eq_true, if_false]
        split
        · simp only [List.length_cons]; omega
        · exact this
      · have hqy := h y (by simp) hpy
        simp only [List.filter_cons, hpy, hqy, if_true, List.length_cons]
        omega

end GivenClause
