import Mathlib
import GivenClause.Schedule

/-!
# Taking turns

The slots of a schedule are due in a fixed rhythm.  A round has as many selections as the ratios add up
to (`total`), and those of one slot follow behind those of the slots before it (`offset`).  The `phase`
of a schedule is the number of the next selection within its round: every selection moves it on by one
and the last selection of a round takes it back to zero (`phase_next`).

From the phase one can read off which slot is due (`InTurn.current_eq_iff`), and how many selections have
to be made before it is a given slot's turn (`turnsUntil`): always less than a round.

A new schedule starts with phase zero, so after `k` selections its phase is `k` modulo the total, however
many clauses have been scored meanwhile.  Hence the slot of every selection: `slot_of_selection`.
-/

namespace GivenClause.Schedule

/-- The number of selections in a round. -/
def total (s : Schedule) : ℕ := (s.slots.map Slot.ratio).sum

/-- The number of selections in a round before the first one of the slot at position `j`. -/
def offset (s : Schedule) (j : ℕ) : ℕ := ((s.slots.take j).map Slot.ratio).sum

/-- The number of the next selection within its round. -/
def phase (s : Schedule) : ℕ := s.offset s.current + (ratioAt s.slots s.current - s.remaining)

/-- A schedule at some point of its round: every slot has selections to make, and the slot that is due
has not made all of them. -/
structure InTurn (s : Schedule) : Prop where
  positive : ∀ slot ∈ s.slots, 0 < slot.ratio
  current : s.current < s.slots.length
  unfinished : 0 < s.remaining
  within : s.remaining ≤ ratioAt s.slots s.current

/-- A schedule starts in turn. -/
lemma inTurn_start (name : String) {slots : List Slot} (hne : slots ≠ [])
    (hpositive : ∀ slot ∈ slots, 0 < slot.ratio) : (start name slots).InTurn := by
  obtain ⟨slot, rest, rfl⟩ := List.exists_cons_of_ne_nil hne
  exact ⟨hpositive, by simp [start], by simpa [start, ratioAt] using hpositive slot (by simp), le_rfl⟩

section Round

variable {s : Schedule}

lemma InTurn.ratioAt_pos (h : s.InTurn) {j : ℕ} (hj : j < s.slots.length) : 0 < ratioAt s.slots j := by
  rw [ratioAt, List.getElem?_eq_getElem hj]
  exact h.positive _ (List.getElem_mem hj)

lemma offset_succ (s : Schedule) (j : ℕ) : s.offset (j + 1) = s.offset j + ratioAt s.slots j := by
  rw [offset, offset, ratioAt, List.take_add_one]
  cases s.slots[j]? <;> simp

lemma offset_mono (s : Schedule) : Monotone s.offset :=
  monotone_nat_of_le_succ fun j => by simp [offset_succ]

lemma offset_length (s : Schedule) : s.offset s.slots.length = s.total := by
  rw [offset, total, List.take_length]

lemma offset_le_total (s : Schedule) (j : ℕ) : s.offset j ≤ s.total := by
  rcases le_total j s.slots.length with hj | hj
  · exact s.offset_length ▸ s.offset_mono hj
  · rw [offset, total, List.take_of_length_le hj]

lemma InTurn.offset_lt_total (h : s.InTurn) {j : ℕ} (hj : j < s.slots.length) :
    s.offset j < s.total := by
  have hsucc := s.offset_le_total (j + 1)
  have hpos := h.ratioAt_pos hj
  rw [offset_succ] at hsucc
  omega

/-- The phase lies among the selections of the slot that is due. -/
lemma InTurn.phase_lt (h : s.InTurn) : s.phase < s.offset (s.current + 1) := by
  have hunfinished := h.unfinished
  have hwithin := h.within
  rw [offset_succ, phase]
  omega

lemma InTurn.phase_lt_total (h : s.InTurn) : s.phase < s.total :=
  h.phase_lt.trans_le (s.offset_le_total _)

/-- **The slot that is due** is the one among whose selections the phase lies. -/
theorem InTurn.current_eq_iff (h : s.InTurn) {j : ℕ} :
    s.current = j ↔ s.offset j ≤ s.phase ∧ s.phase < s.offset (j + 1) := by
  have hlt := h.phase_lt
  have hle : s.offset s.current ≤ s.phase := Nat.le_add_right _ _
  constructor
  · rintro rfl
    exact ⟨hle, hlt⟩
  · rintro ⟨hlower, hupper⟩
    rcases lt_trichotomy s.current j with hbefore | heq | hbehind
    · have hmono : s.offset (s.current + 1) ≤ s.offset j := s.offset_mono hbefore
      omega
    · exact heq
    · have hmono : s.offset (j + 1) ≤ s.offset s.current := s.offset_mono hbehind
      omega

/-- The slot whose first selection is the next one is due. -/
lemma InTurn.current_of_phase (h : s.InTurn) {j : ℕ} (hj : j < s.slots.length)
    (hphase : s.phase = s.offset j) : s.current = j := by
  have hpos := h.ratioAt_pos hj
  refine h.current_eq_iff.2 ⟨hphase.ge, ?_⟩
  rw [offset_succ]
  omega

end Round

/-! ## Selections -/

lemma next_fst (s : Schedule) : s.next.1 = s.current := by
  rw [next]
  split_ifs <;> rfl

lemma slots_next (s : Schedule) : s.next.2.slots = s.slots := by
  rw [next]
  split_ifs <;> rfl

@[simp] lemma total_next (s : Schedule) : s.next.2.total = s.total := by
  rw [total, slots_next, total]

@[simp] lemma offset_next (s : Schedule) (j : ℕ) : s.next.2.offset j = s.offset j := by
  rw [offset, slots_next, offset]

lemma InTurn.next {s : Schedule} (h : s.InTurn) : s.next.2.InTurn := by
  have hfollowing : (s.current + 1) % s.slots.length < s.slots.length :=
    Nat.mod_lt _ (Nat.zero_lt_of_lt h.current)
  have hunfinished := h.unfinished
  have hwithin := h.within
  rw [Schedule.next]
  split_ifs with hlast
  · exact ⟨h.positive, hfollowing, h.ratioAt_pos hfollowing, le_rfl⟩
  · refine ⟨h.positive, h.current, ?_, ?_⟩
    · show 0 < s.remaining - 1
      omega
    · show s.remaining - 1 ≤ ratioAt s.slots s.current
      omega

/-- **A selection moves the phase on by one**, around the end of the round. -/
theorem InTurn.phase_next {s : Schedule} (h : s.InTurn) :
    s.next.2.phase = (s.phase + 1) % s.total := by
  have hunfinished := h.unfinished
  have hwithin := h.within
  have hphase := h.phase_lt_total
  by_cases hlast : s.remaining = 1
  · have hfull : s.phase + 1 = s.offset (s.current + 1) := by
      rw [offset_succ, phase]
      omega
    have hnext : s.next.2.phase = s.offset ((s.current + 1) % s.slots.length) := by
      rw [Schedule.next, if_pos hlast]
      show s.offset _ + (ratioAt s.slots _ - ratioAt s.slots _) = _
      rw [Nat.sub_self, Nat.add_zero]
    rw [hnext, hfull]
    rcases Nat.lt_or_ge (s.current + 1) s.slots.length with hmore | hround
    · rw [Nat.mod_eq_of_lt hmore, Nat.mod_eq_of_lt (h.offset_lt_total hmore)]
    · have hend : s.current + 1 = s.slots.length := le_antisymm h.current hround
      rw [hend, Nat.mod_self, offset_length, Nat.mod_self]
      simp [offset]
  · have hnext : s.next.2.phase = s.phase + 1 := by
      rw [Schedule.next, if_neg hlast]
      show s.offset s.current + (ratioAt s.slots s.current - (s.remaining - 1)) = s.phase + 1
      rw [phase]
      omega
    have hshort : s.phase + 1 < s.offset (s.current + 1) := by
      rw [offset_succ, phase]
      omega
    rw [hnext, Nat.mod_eq_of_lt (hshort.trans_le (s.offset_le_total _))]

/-! ## Scoring -/

lemma ratioAt_evaluate (s : Schedule) (c : Clause) (j : ℕ) :
    ratioAt (s.evaluate c).2.slots j = ratioAt s.slots j := by
  simp [evaluate, ratioAt, Function.comp_def]

@[simp] lemma total_evaluate (s : Schedule) (c : Clause) : (s.evaluate c).2.total = s.total := by
  simp [evaluate, total, Function.comp_def]

@[simp] lemma offset_evaluate (s : Schedule) (c : Clause) (j : ℕ) :
    (s.evaluate c).2.offset j = s.offset j := by
  simp [evaluate, offset, ← List.map_take, Function.comp_def]

@[simp] lemma phase_evaluate (s : Schedule) (c : Clause) : (s.evaluate c).2.phase = s.phase := by
  rw [phase, ratioAt_evaluate, offset_evaluate]
  rfl

lemma InTurn.evaluate {s : Schedule} (h : s.InTurn) (c : Clause) : (s.evaluate c).2.InTurn where
  positive := by
    intro slot hslot
    obtain ⟨old, hold, rfl⟩ := List.mem_map.1 hslot
    exact h.positive old hold
  current := by simpa [Schedule.evaluate] using h.current
  unfinished := h.unfinished
  within := by
    rw [ratioAt_evaluate]
    exact h.within

/-! ## Waiting for a turn -/

/-- The number of selections before the first one of the slot at position `j`. -/
def turnsUntil (s : Schedule) (j : ℕ) : ℕ :=
  if s.phase ≤ s.offset j then s.offset j - s.phase else s.offset j + s.total - s.phase

@[simp] lemma turnsUntil_evaluate (s : Schedule) (c : Clause) (j : ℕ) :
    (s.evaluate c).2.turnsUntil j = s.turnsUntil j := by
  simp [turnsUntil]

section Wait

variable {s : Schedule} {j : ℕ}

/-- **Every turn comes within a round.** -/
theorem InTurn.turnsUntil_lt (h : s.InTurn) (hj : j < s.slots.length) :
    s.turnsUntil j < s.total := by
  have hoffset := h.offset_lt_total hj
  have hphase := h.phase_lt_total
  rw [turnsUntil]
  split_ifs <;> omega

lemma InTurn.current_of_turnsUntil (h : s.InTurn) (hj : j < s.slots.length)
    (hturn : s.turnsUntil j = 0) : s.current = j := by
  have hphase := h.phase_lt_total
  refine h.current_of_phase hj ?_
  rw [turnsUntil] at hturn
  split_ifs at hturn <;> omega

lemma InTurn.turnsUntil_next (h : s.InTurn) (hj : j < s.slots.length)
    (hwait : s.turnsUntil j ≠ 0) : s.next.2.turnsUntil j + 1 = s.turnsUntil j := by
  have hoffset := h.offset_lt_total hj
  have hphase := h.phase_lt_total
  have hnext : s.next.2.phase = if s.phase + 1 = s.total then 0 else s.phase + 1 := by
    rw [h.phase_next]
    split_ifs with hround
    · rw [hround, Nat.mod_self]
    · exact Nat.mod_eq_of_lt (by omega)
  rw [turnsUntil, offset_next, total_next, hnext]
  rw [turnsUntil] at hwait ⊢
  split_ifs at hwait ⊢ <;> omega

end Wait

/-! ## The slot of every selection -/

/-- What is done with a schedule. -/
inductive Use where
  | score (c : Clause)
  | select
  deriving DecidableEq

/-- The schedule after a use. -/
def use (s : Schedule) : Use → Schedule
  | .score c => (s.evaluate c).2
  | .select => s.next.2

/-- The schedule after several uses. -/
def useAll (s : Schedule) (uses : List Use) : Schedule := uses.foldl use s

section Uses

variable {s : Schedule}

lemma total_use (s : Schedule) (u : Use) : (s.use u).total = s.total := by
  cases u with
  | score c => exact s.total_evaluate c
  | select => exact s.total_next

lemma InTurn.use (h : s.InTurn) (u : Use) : (s.use u).InTurn := by
  cases u with
  | score c => exact h.evaluate c
  | select => exact h.next

/-- Only selections move the phase. -/
lemma InTurn.phase_use (h : s.InTurn) (u : Use) :
    (s.use u).phase = (s.phase + [u].count .select) % s.total := by
  cases u with
  | score c =>
      rw [Schedule.use, phase_evaluate]
      exact (Nat.mod_eq_of_lt h.phase_lt_total).symm
  | select => exact h.phase_next

lemma InTurn.useAll (h : s.InTurn) (uses : List Use) : (s.useAll uses).InTurn := by
  induction uses generalizing s with
  | nil => exact h
  | cons u uses ih => exact ih (h.use u)

/-- **The phase counts the selections**, round by round. -/
theorem InTurn.phase_useAll (h : s.InTurn) (uses : List Use) :
    (s.useAll uses).phase = (s.phase + uses.count .select) % s.total := by
  induction uses generalizing s with
  | nil => exact (Nat.mod_eq_of_lt h.phase_lt_total).symm
  | cons u uses ih =>
      calc ((s.use u).useAll uses).phase
          = ((s.phase + [u].count .select) % s.total + uses.count .select) % s.total := by
            rw [ih (h.use u), total_use, h.phase_use]
        _ = (s.phase + (u :: uses).count .select) % s.total := by
            rw [Nat.mod_add_mod, Nat.add_assoc, ← List.count_append, List.singleton_append]

end Uses

/-- The sum of the first `i` ratios. -/
def ratioSum (ratios : List (ℤ × Weight)) (i : ℕ) : ℤ := ((ratios.take i).map Prod.fst).sum

/-- The slots have these ratios. -/
def HasRatios (s : Schedule) (ratios : List (ℤ × Weight)) : Prop :=
  s.slots.map (fun slot => (slot.ratio : ℤ)) = ratios.map Prod.fst

section Ratios

variable {s : Schedule} {ratios : List (ℤ × Weight)}

lemma HasRatios.use (h : s.HasRatios ratios) (u : Use) : (s.use u).HasRatios ratios := by
  cases u with
  | score c => simpa [HasRatios, Schedule.use, evaluate, Function.comp_def] using h
  | select => rwa [HasRatios, Schedule.use, slots_next]

lemma HasRatios.useAll (h : s.HasRatios ratios) (uses : List Use) :
    (s.useAll uses).HasRatios ratios := by
  induction uses generalizing s with
  | nil => exact h
  | cons u uses ih => exact ih (h.use u)

lemma HasRatios.length_slots (h : s.HasRatios ratios) : s.slots.length = ratios.length := by
  simpa using congrArg List.length h

lemma HasRatios.offset_eq (h : s.HasRatios ratios) (i : ℕ) : (s.offset i : ℤ) = ratioSum ratios i := by
  rw [offset, ratioSum, Nat.cast_list_sum, List.map_map, List.map_take, List.map_take]
  exact congrArg (fun rs => (rs.take i).sum) h

lemma HasRatios.total_eq (h : s.HasRatios ratios) :
    (s.total : ℤ) = ratioSum ratios ratios.length := by
  rw [← offset_length, h.offset_eq, h.length_slots]

/-- The slot that is due still has some of its selections to make. -/
lemma InTurn.remaining_le (h : s.InTurn) (hratios : s.HasRatios ratios) :
    ∃ r w, ratios[s.current]? = some (r, w) ∧ (s.remaining : ℤ) ≤ r := by
  have hcurrent : s.current < ratios.length := hratios.length_slots ▸ h.current
  refine ⟨_, _, List.getElem?_eq_getElem hcurrent, ?_⟩
  have hratio : (ratioAt s.slots s.current : ℤ) = ratios[s.current].1 := by
    have hget := congrArg (fun rs => rs[s.current]?) hratios
    simpa [ratioAt, h.current, hcurrent] using hget
  calc (s.remaining : ℤ) ≤ ratioAt s.slots s.current := Nat.cast_le.2 h.within
    _ = ratios[s.current].1 := hratio

lemma exists_ofRatios (name : String) (nonempty : ratios ≠ []) (positive : ∀ r ∈ ratios, 1 ≤ r.1) :
    ∃ s, ofRatios name ratios = .ok s ∧ s.InTurn ∧ s.HasRatios ratios ∧ s.phase = 0 := by
  have hpositive : (ratios.any fun r => decide (r.1 < 1)) = false := by
    rw [List.any_eq_false]
    intro r hr
    simpa using positive r hr
  refine ⟨start name (ratios.map fun r => ⟨r.1.toNat, r.2⟩), ?_, ?_, ?_, ?_⟩
  · rw [ofRatios, if_neg (by simpa using nonempty)]
    exact if_neg (by simp [hpositive])
  · refine inTurn_start name (by simpa using nonempty) fun slot hslot => ?_
    obtain ⟨r, hr, rfl⟩ := List.mem_map.1 hslot
    have hone := positive r hr
    show 0 < r.1.toNat
    omega
  · rw [HasRatios, start, List.map_map]
    refine List.map_congr_left fun r hr => ?_
    have hone := positive r hr
    show (r.1.toNat : ℤ) = r.1
    omega
  · simp [phase, start, offset]

end Ratios

/-- **The slot of every selection.**  Let the ratios `r₀, …, rₘ₋₁` be positive, and at least one.  Then
they make a schedule.  After `k` selections, with any clauses scored in between, the next one is by the
only slot `i` with `r₀ + ⋯ + rᵢ₋₁ ≤ k mod (r₀ + ⋯ + rₘ₋₁) < r₀ + ⋯ + rᵢ`.  After it the slot that is
due has at least one selection to make and at most as many as its ratio says. -/
theorem slot_of_selection (name : String) {ratios : List (ℤ × Weight)} (nonempty : ratios ≠ [])
    (positive : ∀ r ∈ ratios, 1 ≤ r.1) :
    ∃ s, ofRatios name ratios = .ok s ∧ ∀ uses : List Use,
      (∀ i, (s.useAll uses).next.1 = i ↔ i < ratios.length ∧
        ratioSum ratios i ≤ (uses.count .select : ℤ) % ratioSum ratios ratios.length ∧
        (uses.count .select : ℤ) % ratioSum ratios ratios.length < ratioSum ratios (i + 1)) ∧
      1 ≤ (s.useAll uses).next.2.remaining ∧
      ∃ r w, ratios[(s.useAll uses).next.2.current]? = some (r, w) ∧
        ((s.useAll uses).next.2.remaining : ℤ) ≤ r := by
  obtain ⟨s, hs, hturn, hratios, hphase⟩ := exists_ofRatios name nonempty positive
  refine ⟨s, hs, fun uses => ⟨fun i => ?_, ?_, ?_⟩⟩
  · have ht := hturn.useAll uses
    have hcount : ((s.useAll uses).phase : ℤ)
        = (uses.count .select : ℤ) % ratioSum ratios ratios.length := by
      rw [hturn.phase_useAll uses, hphase, Nat.zero_add, ← hratios.total_eq]
      rfl
    rw [next_fst, ht.current_eq_iff, ← hcount, ← (hratios.useAll uses).offset_eq,
      ← (hratios.useAll uses).offset_eq, Nat.cast_le, Nat.cast_lt]
    refine ⟨fun h => ⟨?_, h⟩, And.right⟩
    rw [← (hratios.useAll uses).length_slots, ← ht.current_eq_iff.2 h]
    exact ht.current
  · exact (hturn.useAll uses).next.unfinished
  · exact ((hturn.useAll uses).next).remaining_le ((hratios.useAll uses).use .select)

/-- Ratios two, three and one. -/
def rota : List (ℤ × Weight) := [(2, .standardCount), (3, .freshAge), (1, .symbolCount 1 1)]

/-- Ten selections, and a clause scored among them. -/
def shift : List Use := List.replicate 4 .select ++ .score default :: List.replicate 6 .select

/-- Ten modulo six is four, so the eleventh selection is the last one of the slot with ratio three. -/
theorem rota_eleventh :
    rota ≠ [] ∧ (∀ r ∈ rota, 1 ≤ r.1) ∧
    ∃ s, ofRatios "rota" rota = .ok s ∧ (s.useAll shift).next.1 = 1 ∧
      1 ≤ (s.useAll shift).next.2.remaining := by
  have hne : rota ≠ [] := by decide
  have hpos : ∀ r ∈ rota, 1 ≤ r.1 := by decide
  obtain ⟨s, hs, hslot⟩ := slot_of_selection "rota" hne hpos
  obtain ⟨hturn, hremaining, -⟩ := hslot shift
  exact ⟨hne, hpos, s, hs, (hturn 1).2 (by decide), hremaining⟩

end GivenClause.Schedule
