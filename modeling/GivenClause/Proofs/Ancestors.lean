import Mathlib
import GivenClause.Derivation.Ancestry

/-!
# Following support links

`ancestry` collects a clause and everything it was derived from.  The collection has the clause
itself and recorded clauses, no two of one name, it is closed under support links, and nothing is in
it that the clause does not depend on: `Explored`, with nothing pending.  It exists whenever all
links lead to recorded clauses.

The loop works off a stack of clauses whose links have not been followed.  In between, what is
`Explored` is closed except for these.
-/

namespace GivenClause

open Relation

/-- A clause named `b` is supported by `a`. -/
def Leads (clauses : List Clause) (a b : String) : Prop :=
  ∃ c ∈ clauses, c.name = b ∧ a ∈ c.support

lemma Leads.mono {clauses more : List Clause} {a b : String} (h : Leads clauses a b)
    (hsub : clauses ⊆ more) : Leads more a b := by
  obtain ⟨c, hc, hname, ha⟩ := h
  exact ⟨c, hsub hc, hname, ha⟩

/-- Of two clauses of one name in a list without repeated names, there is only one. -/
lemma eq_of_name_eq {clauses : List Clause} (h : (clauses.map Clause.name).Nodup) {c d : Clause}
    (hc : c ∈ clauses) (hd : d ∈ clauses) (hname : c.name = d.name) : c = d :=
  List.inj_on_of_nodup_map h hc hd hname

namespace Archive

variable {archive : Archive} {found new : List Clause} {w : Clause}

lemma find?_eq_none_iff {name : String} : archive.find? name = none ↔ name ∉ archive.names := by
  simp [find?, names]

/-! ## The premises of one clause -/

/-- One link at a time: its premise is found already, or it is looked up and found. -/
lemma newPremises_cons {conclusion premise : String} {rest : List String}
    (h : archive.newPremises conclusion found (premise :: rest) = .ok new) :
    (premise ∈ found.map Clause.name ∧ archive.newPremises conclusion found rest = .ok new) ∨
      ∃ d more, archive.find? premise = some d ∧ premise ∉ found.map Clause.name ∧
        archive.newPremises conclusion (found ++ [d]) rest = .ok more ∧ new = d :: more := by
  rw [newPremises] at h
  split_ifs at h with hfound
  · exact Or.inl ⟨by simpa using hfound, h⟩
  · have hnotMem : premise ∉ found.map Clause.name := by simpa using hfound
    cases hd : archive.find? premise with
    | none => simp [hd] at h
    | some d =>
        cases hmore : archive.newPremises conclusion (found ++ [d]) rest with
        | error e => simp [hd, hmore, bind, Except.bind] at h
        | ok more =>
            simp only [hd, hmore, bind, Except.bind, pure, Except.pure, Except.ok.injEq] at h
            exact Or.inr ⟨d, more, rfl, hnotMem, hmore, h.symm⟩

/-- What is added for one clause is recorded, is in its support, and completes it. -/
lemma newPremises_ok {conclusion : String} {support : List String}
    (h : archive.newPremises conclusion found support = .ok new) :
    (∀ d ∈ new, d ∈ archive.entries ∧ d.name ∈ support) ∧
      (∀ name ∈ support, name ∈ (found ++ new).map Clause.name) ∧
      ((found.map Clause.name).Nodup → ((found ++ new).map Clause.name).Nodup) := by
  induction support generalizing found new with
  | nil =>
      simp only [newPremises, Except.ok.injEq] at h
      simp [← h]
  | cons premise rest ih =>
      rcases newPremises_cons h with ⟨hfound, hrest⟩ | ⟨d, more, hd, hpremise, hmore, rfl⟩
      · obtain ⟨hnew, hsupport, hnodup⟩ := ih hrest
        refine ⟨fun d hd => ⟨(hnew d hd).1, List.mem_cons_of_mem _ (hnew d hd).2⟩, ?_, hnodup⟩
        intro name hname
        rcases List.mem_cons.1 hname with rfl | hname
        · rw [List.map_append]
          exact List.mem_append_left _ hfound
        · exact hsupport name hname
      · obtain ⟨hnew, hsupport, hnodup⟩ := ih hmore
        have hname := name_of_find? hd
        rw [List.append_assoc, List.singleton_append] at hsupport hnodup
        refine ⟨fun e he => ?_, fun name hn => ?_, fun hdistinct => hnodup ?_⟩
        · rcases List.mem_cons.1 he with rfl | he
          · exact ⟨find?_mem hd, hname ▸ List.mem_cons_self⟩
          · exact ⟨(hnew e he).1, List.mem_cons_of_mem _ (hnew e he).2⟩
        · rcases List.mem_cons.1 hn with rfl | hn
          · exact List.mem_map.2 ⟨d, by simp, hname⟩
          · exact hsupport name hn
        · rw [List.map_append, List.map_singleton, hname, ← List.concat_eq_append]
          exact hdistinct.concat hpremise

lemma exists_newPremises {conclusion : String} {support : List String}
    (h : ∀ name ∈ support, name ∈ archive.names) (found : List Clause) :
    ∃ new, archive.newPremises conclusion found support = .ok new := by
  induction support generalizing found with
  | nil => exact ⟨[], rfl⟩
  | cons premise rest ih =>
      have hrest : ∀ name ∈ rest, name ∈ archive.names :=
        fun name hname => h name (List.mem_cons_of_mem _ hname)
      rw [newPremises]
      split_ifs
      · exact ih hrest found
      · cases hd : archive.find? premise with
        | none => exact absurd (h premise List.mem_cons_self) (find?_eq_none_iff.1 hd)
        | some d =>
            obtain ⟨more, hmore⟩ := ih hrest (found ++ [d])
            exact ⟨d :: more, by simp [hmore, bind, Except.bind, pure, Except.pure]⟩

/-! ## The loop -/

/-- Starting from `w`, the clauses `found` have been found, and only the links of the `pending` ones
are still to be followed. -/
structure Explored (archive : Archive) (w : Clause) (found pending : List Clause) : Prop where
  root : w ∈ found
  known : ∀ c ∈ found, c = w ∨ c ∈ archive.entries
  distinct : (found.map Clause.name).Nodup
  subset : pending ⊆ found
  closed : ∀ c ∈ found, c ∈ pending ∨ ∀ name ∈ c.support, name ∈ found.map Clause.name
  reached : ∀ c ∈ found, ReflTransGen (Leads found) c.name w.name

lemma explored_start (archive : Archive) (w : Clause) : Explored archive w [w] [w] where
  root := List.mem_singleton_self w
  known := fun _ hc => Or.inl (List.mem_singleton.1 hc)
  distinct := List.nodup_singleton _
  subset := List.Subset.refl _
  closed := fun _ hc => Or.inl hc
  reached := fun _ hc => List.mem_singleton.1 hc ▸ .refl

/-- One round: the premises of the first pending clause are found and become pending. -/
lemma Explored.step {c : Clause} {rest : List Clause} (h : Explored archive w found (c :: rest))
    (hnew : archive.newPremises c.name found c.support = .ok new) :
    Explored archive w (found ++ new) (new.reverse ++ rest) := by
  obtain ⟨hrecorded, hsupport, hnodup⟩ := newPremises_ok hnew
  have hc : c ∈ found := h.subset List.mem_cons_self
  have hsub : found ⊆ found ++ new := List.subset_append_left _ _
  have hreached : ∀ d ∈ found, ReflTransGen (Leads (found ++ new)) d.name w.name :=
    fun d hd => (h.reached d hd).lift id fun _ _ hab => hab.mono hsub
  refine ⟨hsub h.root, fun d hd => ?_, hnodup h.distinct, fun d hd => ?_, fun d hd => ?_,
    fun d hd => ?_⟩
  · rcases List.mem_append.1 hd with hd | hd
    · exact h.known d hd
    · exact Or.inr (hrecorded d hd).1
  · rcases List.mem_append.1 hd with hd | hd
    · exact List.mem_append_right _ (List.mem_reverse.1 hd)
    · exact hsub (h.subset (List.mem_cons_of_mem _ hd))
  · rcases List.mem_append.1 hd with hd | hd
    · rcases h.closed d hd with hpending | hclosed
      · rcases List.mem_cons.1 hpending with rfl | hpending
        · exact Or.inr hsupport
        · exact Or.inl (List.mem_append_right _ hpending)
      · exact Or.inr fun name hname => List.map_subset _ hsub (hclosed name hname)
    · exact Or.inl (List.mem_append_left _ (List.mem_reverse.2 hd))
  · rcases List.mem_append.1 hd with hd | hd
    · exact hreached d hd
    · exact .head ⟨c, hsub hc, rfl, (hrecorded d hd).2⟩ (hreached c hc)

/-- **What the loop returns is explored to the end.** -/
theorem Explored.explore {pending result : List Clause} (h : Explored archive w found pending)
    (hok : archive.explore found pending = .ok result) : Explored archive w result [] := by
  fun_induction archive.explore found pending with
  | case1 found =>
      cases hok
      exact h
  | case2 => cases hok
  | case3 found c rest new hnew ih => exact ih (h.step hnew) hok

/-- With nothing pending, all support names are names of clauses found. -/
lemma Explored.complete (h : Explored archive w found []) :
    ∀ c ∈ found, ∀ name ∈ c.support, name ∈ found.map Clause.name :=
  fun c hc => (h.closed c hc).resolve_left List.not_mem_nil

/-- If all links lead to recorded clauses, the loop returns. -/
theorem Explored.exists_explore {pending : List Clause} (h : Explored archive w found pending)
    (hlinks : ∀ c, c = w ∨ c ∈ archive.entries → ∀ name ∈ c.support, name ∈ archive.names) :
    ∃ result, archive.explore found pending = .ok result := by
  fun_induction archive.explore found pending with
  | case1 found => exact ⟨found, rfl⟩
  | case2 found c rest e hnew =>
      have hc := h.known c (h.subset List.mem_cons_self)
      obtain ⟨new, hok⟩ := @exists_newPremises archive c.name c.support (hlinks c hc) found
      rw [hok] at hnew
      cases hnew
  | case3 found c rest new hnew ih => exact ih (h.step hnew)

end Archive

end GivenClause
