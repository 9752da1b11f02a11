import Mathlib
import GivenClause.Proofs.ExactMatching

/-!
# The trail lists the bindings

Bindings and trail are two lists, and most operations change both, one after the other.  If the lists
ever disagreed, a later removal would look for something that is not there, or undo the wrong binding.

To say that this never happens, composing, backtracking and matching are written out here in single
steps, in which taking away what is not there is an error (`Discrepancy`).  The invariant that excludes
these errors is `Recorded`: no variable is bound twice, and the trail is the list of the bound variables
in binding order, read from its end.  The trail is then determined by the bindings
(`Recorded.eq_listed`), so what an operation does to such a substitution is an equation between lists of
bindings: `foldlM_composeAt` for the loop of a composition, `Recorded.backtrack_eq` for undoing.

`trail_lists_bindings` puts this together for all sequences of operations on any number of
substitutions.
-/

namespace GivenClause.Substitution

/-! ## Operations in single steps -/

/-- Something to be removed is not there. -/
inductive Discrepancy where
  /-- The variable has no binding. -/
  | unbound (x : String)
  /-- The variable is not on the trail. -/
  | unrecorded (x : String)
  deriving Repr, DecidableEq

/-- Remove the binding of a variable that has one. -/
def unbind (x : String) (bindings : List (String × Term)) :
    Except Discrepancy (List (String × Term)) :=
  if x ∈ bindings.map Prod.fst then .ok (erase x bindings) else .error (.unbound x)

/-- Remove a variable from the trail that is on it. -/
def strike (x : String) (trail : List String) : Except Discrepancy (List String) :=
  if x ∈ trail then .ok (trail.erase x) else .error (.unrecorded x)

/-- Push `x<-t` into the value of `y`, and drop the binding if it has become `y<-y`. -/
def composeAt (x : String) (t : Term) (s : Substitution) (y : String) :
    Except Discrepancy Substitution :=
  match s.find? y with
  | none => .error (.unbound y)
  | some u =>
    let rewritten := assign y (u.replace x t) s.bindings
    if u.replace x t = .var y then do
      return { bindings := ← unbind y rewritten, trail := ← strike y s.trail }
    else .ok { s with bindings := rewritten }

/-- `compose`, one bound variable after the other. -/
def composeInSteps (s : Substitution) (x : String) (t : Term) : Except Discrepancy Substitution := do
  let s' ← s.domain.foldlM (composeAt x t) s
  return if s'.binds x then s' else s'.add x t

/-- `unwind`, where every variable that is taken from the trail has to lose a binding. -/
def unwindInSteps (mark : ℕ) :
    List String → List (String × Term) → Except Discrepancy Substitution
  | [], bindings => .ok ⟨bindings, []⟩
  | x :: trail, bindings =>
    if trail.length < mark then .ok ⟨bindings, x :: trail⟩
    else unbind x bindings >>= unwindInSteps mark trail

/-- `backtrack`, one variable of the trail after the other. -/
def backtrackInSteps (s : Substitution) (mark : ℕ) : Except Discrepancy Substitution :=
  unwindInSteps mark s.trail s.bindings

/-- `matchTerm`, where a failure is undone step by step. -/
def matchInSteps (s : Substitution) (pattern target : Term) :
    Except Discrepancy (Bool × Substitution) :=
  match extend pattern target s with
  | (true, s') => .ok (true, s')
  | (false, s') => do return (false, ← s'.backtrackInSteps s.mark)

/-! ## Lists of bindings with distinct variables -/

section Lists

variable {y : String} {u : Term} {done todo : List (String × Term)}

lemma notMem_keys_of_nodup (h : ((done ++ (y, u) :: todo).map Prod.fst).Nodup) :
    y ∉ done.map Prod.fst ∧ y ∉ todo.map Prod.fst := by
  rw [List.map_append, List.map_cons, List.nodup_middle, List.nodup_cons, List.mem_append] at h
  exact not_or.1 h.1

lemma lookup_append_cons (h : y ∉ done.map Prod.fst) :
    (done ++ (y, u) :: todo).lookup y = some u := by
  rw [List.lookup_append, lookup_eq_none_of_notMem h, Option.none_or, List.lookup_cons_self]

lemma assign_append_cons (h : y ∉ done.map Prod.fst) (v : Term) :
    assign y v (done ++ (y, u) :: todo) = done ++ (y, v) :: todo := by
  induction done with
  | nil => simp [assign]
  | cons b done ih =>
      rw [List.map_cons, List.mem_cons, not_or] at h
      rw [List.cons_append, assign, if_neg (Ne.symm h.1), ih h.2, List.cons_append]

lemma nodup_keys_of_cons {b : String × Term} (h : ((done ++ b :: todo).map Prod.fst).Nodup) :
    ((done ++ todo).map Prod.fst).Nodup :=
  h.sublist (((List.Sublist.refl done).append (List.sublist_cons_self b todo)).map Prod.fst)

end Lists

/-! ## Substitutions whose trail lists their bindings -/

/-- The trail, from its end, lists the bound variables in binding order, and every variable once. -/
structure Recorded (s : Substitution) : Prop where
  distinct : s.Distinct
  trail_reverse : s.trail.reverse = s.domain

/-- The substitution with these bindings and a trail that lists them. -/
def listed (bindings : List (String × Term)) : Substitution :=
  ⟨bindings, (bindings.map Prod.fst).reverse⟩

variable {s : Substitution}

lemma Recorded.eq_listed (h : s.Recorded) : s = listed s.bindings := by
  have htrail : s.trail = s.domain.reverse := by rw [← h.trail_reverse, List.reverse_reverse]
  cases s
  rw [listed, mk.injEq]
  exact ⟨rfl, htrail⟩

lemma recorded_listed {bindings : List (String × Term)} (h : (bindings.map Prod.fst).Nodup) :
    (listed bindings).Recorded := ⟨h, List.reverse_reverse _⟩

lemma Recorded.mark_eq (h : s.Recorded) : s.mark = s.size := by
  rw [mark, ← List.length_reverse, h.trail_reverse, domain, List.length_map, size]

lemma recorded_empty : empty.Recorded := recorded_listed List.nodup_nil

/-! ## Binding -/

lemma domain_assign_of_mem {x : String} {bindings : List (String × Term)}
    (h : x ∈ bindings.map Prod.fst) (t : Term) :
    (assign x t bindings).map Prod.fst = bindings.map Prod.fst := by
  induction bindings with
  | nil => cases h
  | cons b rest ih =>
      obtain ⟨y, u⟩ := b
      rw [assign]
      split_ifs with hy
      · rfl
      · rw [List.map_cons, List.mem_cons] at h
        rw [List.map_cons, List.map_cons, ih (h.resolve_left (Ne.symm hy))]

/-- A further binding goes to the end of both lists. -/
lemma Recorded.extends {s' : Substitution} (h : s.Recorded) (hs' : s.Extends s') : s'.Recorded := by
  obtain ⟨new, hbindings, htrail⟩ := hs'.further
  refine ⟨hs'.distinct, ?_⟩
  rw [htrail, List.reverse_append, h.trail_reverse, List.reverse_reverse, domain, domain, hbindings,
    List.map_append]

/-- A new value for a bound variable changes neither its place nor the trail. -/
lemma Recorded.insert (h : s.Recorded) (x : String) (t : Term) : (s.insert x t).Recorded := by
  cases hx : s.find? x with
  | none => exact h.extends (extends_insert h.distinct hx t)
  | some u =>
      have hbinds : s.binds x = true := by rw [binds, hx]; rfl
      refine ⟨nodup_keys_assign x t h.distinct, ?_⟩
      rw [Substitution.insert, if_pos hbinds]
      exact h.trail_reverse.trans (domain_assign_of_mem (binds_iff.1 hbinds) t).symm

lemma Recorded.add (h : s.Recorded) (x : String) (t : Term) : (s.add x t).Recorded := by
  rw [Substitution.add]
  split_ifs
  · exact h
  · exact h.insert x t

lemma recorded_ofList (pairs : List (String × Term)) : (ofList pairs).Recorded := by
  rw [ofList]
  generalize pairs.foldl _ _ = bindings
  induction bindings using List.reverseRecOn with
  | nil => exact recorded_empty
  | append_singleton bindings b ih =>
      rw [List.foldl_append]
      exact ih.add b.1 b.2

lemma Recorded.matchTerm (h : s.Recorded) (pattern target : Term) :
    (s.matchTerm pattern target).2.Recorded :=
  h.extends (matchTerm_extends pattern target h.distinct)

/-! ## Composing -/

section Composing

variable {y : String} {u : Term} {done todo : List (String × Term)}

/-- Dropping a binding of a listed substitution strikes one variable off its trail. -/
lemma erase_trail_listed (h : ((done ++ (y, u) :: todo).map Prod.fst).Nodup) :
    (listed (done ++ (y, u) :: todo)).trail.erase y = (listed (done ++ todo)).trail := by
  have hy := (notMem_keys_of_nodup h).2
  simp only [listed, List.map_append, List.map_cons, List.reverse_append, List.reverse_cons,
    List.append_assoc, List.singleton_append]
  rw [List.erase_append_right _ (by simpa using hy), List.erase_cons_head]

lemma pushed_cons (x : String) (t : Term) :
    (listed ((y, u) :: todo)).pushed x t =
      if u.replace x t = .var y then (listed todo).pushed x t
      else (y, u.replace x t) :: (listed todo).pushed x t := by
  rw [pushed, pushed, listed, List.map_cons, List.filter_cons]
  split_ifs <;> simp_all [listed]

lemma idled_cons (x : String) (t : Term) :
    (listed ((y, u) :: todo)).idled x t =
      if u.replace x t = .var y then (y, u.replace x t) :: (listed todo).idled x t
      else (listed todo).idled x t := by
  rw [idled, idled, listed, List.map_cons, List.filter_cons]
  split_ifs <;> simp_all [listed]

/-- One step of the loop: the binding of `y` is dropped from both lists, or keeps its place in both. -/
lemma composeAt_listed (x : String) (t : Term)
    (h : ((done ++ (y, u) :: todo).map Prod.fst).Nodup) :
    composeAt x t (listed (done ++ (y, u) :: todo)) y = .ok (listed (done ++
      if u.replace x t = .var y then todo else (y, u.replace x t) :: todo)) := by
  have hy := notMem_keys_of_nodup h
  have hfind : (listed (done ++ (y, u) :: todo)).find? y = some u := lookup_append_cons hy.1
  have hrewritten : assign y (u.replace x t) (done ++ (y, u) :: todo)
      = done ++ (y, u.replace x t) :: todo := assign_append_cons hy.1 _
  simp only [composeAt, hfind]
  split_ifs with hidle
  · have hunbind : unbind y (done ++ (y, u.replace x t) :: todo) = .ok (done ++ todo) := by
      rw [unbind, if_pos (by simp), erase_append_cons hy]
    have hstrike : strike y (listed (done ++ (y, u) :: todo)).trail
        = .ok (listed (done ++ todo)).trail := by
      rw [strike, if_pos (by simp [listed]), erase_trail_listed h]
    show (unbind y (assign y (u.replace x t) (done ++ (y, u) :: todo)) >>= _) = _
    rw [hrewritten, hunbind, hstrike]
    rfl
  · show Except.ok (mk (assign y _ (done ++ (y, u) :: todo)) _) = _
    rw [hrewritten]
    simp [listed]

/-- The loop of a composition.  Of the bindings `done ++ todo` those in `done` have had their turn. -/
lemma foldlM_composeAt (x : String) (t : Term) (h : ((done ++ todo).map Prod.fst).Nodup) :
    (todo.map Prod.fst).foldlM (composeAt x t) (listed (done ++ todo))
      = .ok (listed (done ++ (listed todo).pushed x t)) := by
  induction todo generalizing done with
  | nil => rfl
  | cons b todo ih =>
      obtain ⟨y, u⟩ := b
      rw [List.map_cons, List.foldlM_cons, composeAt_listed x t h, pushed_cons]
      split_ifs
      · exact ih (nodup_keys_of_cons h)
      · -- a binding that stays goes from the front of `todo` to the end of `done`
        have hnext := @ih (done ++ [(y, u.replace x t)]) (by simpa using h)
        show (todo.map Prod.fst).foldlM _ (listed (done ++ (y, u.replace x t) :: todo)) = _
        simpa using hnext

/-- `compose` strikes the variables of all dropped bindings off the trail at once. -/
lemma foldl_erase_idled (x : String) (t : Term) (h : ((done ++ todo).map Prod.fst).Nodup) :
    ((listed todo).idled x t).foldl (fun trail b => trail.erase b.1) (listed (done ++ todo)).trail
      = (listed (done ++ (listed todo).pushed x t)).trail := by
  induction todo generalizing done with
  | nil => rfl
  | cons b todo ih =>
      obtain ⟨y, u⟩ := b
      rw [idled_cons, pushed_cons]
      split_ifs
      · rw [List.foldl_cons, erase_trail_listed h]
        exact ih (nodup_keys_of_cons h)
      · have hnext := @ih (done ++ [(y, u.replace x t)]) (by simpa using h)
        simpa [listed] using hnext

end Composing

/-- The loop of a composition runs through, and leaves what `compose` has before it adds `x<-t`. -/
lemma Recorded.exists_pushed (h : s.Recorded) (x : String) (t : Term) :
    ∃ s', s'.Recorded ∧ s.domain.foldlM (composeAt x t) s = .ok s' ∧
      s.compose x t = if s'.binds x then s' else s'.add x t := by
  obtain ⟨s', hbindings, htrail, hcompose⟩ := s.compose_eq x t
  have hs' : s' = listed (s.pushed x t) := by
    have herased := @foldl_erase_idled [] s.bindings x t h.distinct
    rw [List.nil_append, List.nil_append, ← h.eq_listed] at herased
    cases s'
    rw [listed, mk.injEq]
    exact ⟨hbindings, htrail.trans herased⟩
  have hloop := @foldlM_composeAt [] s.bindings x t h.distinct
  rw [List.nil_append, List.nil_append, ← h.eq_listed] at hloop
  exact ⟨s', hs' ▸ recorded_listed (nodup_keys_pushed h.distinct x t), hs' ▸ hloop, hcompose⟩

lemma Recorded.compose (h : s.Recorded) (x : String) (t : Term) : (s.compose x t).Recorded := by
  obtain ⟨s', hs', -, hcompose⟩ := h.exists_pushed x t
  rw [hcompose]
  split_ifs
  · exact hs'
  · exact hs'.add x t

/-- **Composing finds every binding and every record that it removes.** -/
theorem Recorded.composeInSteps_eq (h : s.Recorded) (x : String) (t : Term) :
    s.composeInSteps x t = .ok (s.compose x t) := by
  obtain ⟨s', -, hloop, hcompose⟩ := h.exists_pushed x t
  rw [composeInSteps, hloop, hcompose]
  rfl

/-! ## Undoing -/

/-- **Undoing leaves the oldest bindings.** -/
theorem Recorded.backtrack_eq (h : s.Recorded) (mark : ℕ) :
    s.backtrack mark = listed (s.bindings.take mark) := by
  have hdistinct := h.distinct
  rw [h.eq_listed]
  rw [Distinct, domain] at hdistinct
  generalize s.bindings = bindings at hdistinct
  -- a mark beyond the end undoes nothing, and any other splits the bindings
  rcases le_total bindings.length mark with hshort | hlong
  · rw [listed, List.take_of_length_le hshort]
    exact unwind_of_length_le (by simpa using hshort) bindings
  · obtain ⟨kept, new, rfl, hlength⟩ : ∃ kept new, bindings = kept ++ new ∧ kept.length = mark :=
      ⟨_, _, (List.take_append_drop mark bindings).symm, List.length_take_of_le hlong⟩
    have hundone := unwind_append (listed kept).trail hdistinct
    have htrail : (listed (kept ++ new)).trail = (new.map Prod.fst).reverse ++ (listed kept).trail := by
      simp [listed]
    have hmark : (listed kept).trail.length = mark := by simpa [listed] using hlength
    rw [hmark, ← htrail] at hundone
    show unwind mark (listed (kept ++ new)).trail (kept ++ new) = listed ((kept ++ new).take mark)
    rw [hundone, List.take_left' hlength]
    rfl

lemma Recorded.backtrack (h : s.Recorded) (mark : ℕ) : (s.backtrack mark).Recorded := by
  rw [h.backtrack_eq]
  exact recorded_listed (h.distinct.sublist ((List.take_sublist mark s.bindings).map Prod.fst))

lemma unwindInSteps_eq {mark : ℕ} {trail : List String} (hnodup : trail.Nodup)
    {bindings : List (String × Term)} (hbound : ∀ x ∈ trail, x ∈ bindings.map Prod.fst) :
    unwindInSteps mark trail bindings = .ok (unwind mark trail bindings) := by
  induction trail generalizing bindings with
  | nil => rfl
  | cons x trail ih =>
      rw [List.nodup_cons] at hnodup
      rw [unwindInSteps, unwind]
      split_ifs
      · rfl
      · rw [unbind, if_pos (hbound x List.mem_cons_self)]
        -- the variables below `x` on the trail are others, so they have kept their bindings
        refine ih hnodup.2 fun y hy => ?_
        obtain ⟨b, hb, rfl⟩ := List.mem_map.1 (hbound y (List.mem_cons_of_mem x hy))
        refine List.mem_map_of_mem (List.mem_filter.2 ⟨hb, decide_eq_true ?_⟩)
        rintro rfl
        exact hnodup.1 hy

/-- **Every variable that is undone has a binding to lose.** -/
theorem Recorded.backtrackInSteps_eq (h : s.Recorded) (mark : ℕ) :
    s.backtrackInSteps mark = .ok (s.backtrack mark) := by
  refine unwindInSteps_eq ?_ fun x hx => ?_
  · rw [← List.nodup_reverse, h.trail_reverse]
    exact h.distinct
  · rw [← List.mem_reverse, h.trail_reverse] at hx
    exact hx

theorem Recorded.matchInSteps_eq (h : s.Recorded) (pattern target : Term) :
    s.matchInSteps pattern target = .ok (s.matchTerm pattern target) := by
  have hextends := extend_extends pattern target h.distinct
  rw [matchInSteps, Substitution.matchTerm]
  cases hext : extend pattern target s with
  | mk success s' =>
      rw [hext] at hextends
      cases success with
      | true => rfl
      | false =>
          show (s'.backtrackInSteps s.mark >>= _) = _
          rw [(h.extends hextends).backtrackInSteps_eq]
          rfl

/-! ## Sequences of operations -/

/-- One operation on the substitutions made so far, which are numbered in the order in which they were
made.  An operation on a number that has not been given out does nothing. -/
inductive Operation where
  | make (pairs : List (String × Term))
  | copy (i : ℕ)
  | bind (i : ℕ) (x : String) (t : Term) (keepIdentity : Bool)
  | compose (i : ℕ) (x : String) (t : Term)
  | matchTerm (i : ℕ) (pattern target : Term)
  | backtrack (i : ℕ) (mark : ℕ)

/-- Change one of several substitutions. -/
def change (pool : List Substitution) (i : ℕ)
    (f : Substitution → Except Discrepancy Substitution) :
    Except Discrepancy (List Substitution) :=
  match pool[i]? with
  | none => .ok pool
  | some s => (f s).map (pool.set i)

/-- Perform an operation in single steps. -/
def perform (pool : List Substitution) : Operation → Except Discrepancy (List Substitution)
  | .make pairs => .ok (pool ++ [ofList pairs])
  | .copy i => .ok (pool ++ pool[i]?.toList)
  | .bind i x t keepIdentity =>
    change pool i fun s => .ok (if keepIdentity then s.insert x t else s.add x t)
  | .compose i x t => change pool i fun s => s.composeInSteps x t
  | .matchTerm i pattern target =>
    change pool i fun s => (s.matchInSteps pattern target).map Prod.snd
  | .backtrack i mark => change pool i fun s => s.backtrackInSteps mark

section Sequences

variable {pool : List Substitution}

lemma exists_change (h : ∀ s ∈ pool, s.Recorded) (i : ℕ)
    {f : Substitution → Except Discrepancy Substitution}
    (hf : ∀ s, s.Recorded → ∃ s', f s = .ok s' ∧ s'.Recorded) :
    ∃ pool', change pool i f = .ok pool' ∧ ∀ s ∈ pool', s.Recorded := by
  rw [change]
  cases hi : pool[i]? with
  | none => exact ⟨pool, rfl, h⟩
  | some s =>
      obtain ⟨s', hs', hrecorded⟩ := hf s (h s (List.mem_of_getElem? hi))
      refine ⟨pool.set i s', by simp only [hs']; rfl, fun r hr => ?_⟩
      rcases List.mem_or_eq_of_mem_set hr with hr | rfl
      · exact h r hr
      · exact hrecorded

/-- One operation succeeds, and keeps the trails in order. -/
lemma exists_perform (h : ∀ s ∈ pool, s.Recorded) (operation : Operation) :
    ∃ pool', perform pool operation = .ok pool' ∧ ∀ s ∈ pool', s.Recorded := by
  cases operation with
  | make pairs =>
      refine ⟨_, rfl, fun s hs => ?_⟩
      rcases List.mem_append.1 hs with hs | hs
      · exact h s hs
      · rw [List.mem_singleton.1 hs]
        exact recorded_ofList pairs
  | copy i =>
      refine ⟨_, rfl, fun s hs => ?_⟩
      rcases List.mem_append.1 hs with hs | hs
      · exact h s hs
      · exact h s (List.mem_of_getElem? (Option.mem_toList.1 hs))
  | bind i x t keepIdentity =>
      refine exists_change h i fun s hs => ⟨_, rfl, ?_⟩
      split_ifs
      · exact hs.insert x t
      · exact hs.add x t
  | compose i x t =>
      exact exists_change h i fun s hs => ⟨_, hs.composeInSteps_eq x t, hs.compose x t⟩
  | matchTerm i pattern target =>
      refine exists_change h i fun s hs => ⟨_, ?_, hs.matchTerm pattern target⟩
      rw [hs.matchInSteps_eq]
      rfl
  | backtrack i mark =>
      exact exists_change h i fun s hs => ⟨_, hs.backtrackInSteps_eq mark, hs.backtrack mark⟩

lemma exists_performAll (h : ∀ s ∈ pool, s.Recorded) (operations : List Operation) :
    ∃ pool', operations.foldlM perform pool = .ok pool' ∧ ∀ s ∈ pool', s.Recorded := by
  induction operations generalizing pool with
  | nil => exact ⟨pool, rfl, h⟩
  | cons operation operations ih =>
      obtain ⟨pool₁, hperform, h₁⟩ := exists_perform h operation
      obtain ⟨pool', hperformAll, h'⟩ := ih h₁
      refine ⟨pool', ?_, h'⟩
      rw [List.foldlM_cons, hperform]
      exact hperformAll

end Sequences

/-- **The trail lists the bindings.**  Make, copy, bind, compose, match and backtrack in any order: no
step ever looks for a binding or a record that is not there.  For every substitution that comes about,
the trail from its end is the list of the bound variables in binding order, each of them once, so that
the mark is the number of bindings.  Composing, matching and backtracking do in single steps what they
do at once, and going back to a mark leaves as many of the oldest bindings, in their order and with
their present values. -/
theorem trail_lists_bindings (operations : List Operation) :
    ∃ pool, operations.foldlM perform [] = .ok pool ∧ ∀ s ∈ pool,
      s.trail.reverse = s.domain ∧ s.domain.Nodup ∧ s.mark = s.size ∧
      (∀ x t, s.composeInSteps x t = .ok (s.compose x t)) ∧
      (∀ pattern target, s.matchInSteps pattern target = .ok (s.matchTerm pattern target)) ∧
      ∀ mark, s.backtrackInSteps mark = .ok (s.backtrack mark) ∧
        (s.backtrack mark).bindings = s.bindings.take mark ∧
        (s.backtrack mark).trail.reverse = s.domain.take mark := by
  obtain ⟨pool, hpool, hrecorded⟩ := @exists_performAll [] (by simp) operations
  refine ⟨pool, hpool, fun s hs => ?_⟩
  have h := hrecorded s hs
  refine ⟨h.trail_reverse, h.distinct, h.mark_eq, h.composeInSteps_eq, h.matchInSteps_eq,
    fun mark => ⟨h.backtrackInSteps_eq mark, ?_, ?_⟩⟩
  · rw [h.backtrack_eq]
    rfl
  · rw [(h.backtrack mark).trail_reverse, h.backtrack_eq]
    exact List.map_take

end GivenClause.Substitution
