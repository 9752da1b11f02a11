import Mathlib
import GivenClause.Derivation
import GivenClause.Proofs.Ancestors

/-!
# Premises first

The order of a derivation is a listing of its clause names in which premises come before conclusions
(`PremisesFirst`).  `Graph.order` gives such a listing whenever it gives one
(`premisesFirst_of_order`), and it gives one if the links go up in some measure (`exists_order`).

The steps are the clauses in that order, under their numbers.  So a clause is the step that its
number says (`getElem?_stepsOf`), and what supports it has smaller numbers.
-/

namespace GivenClause

open Relation

/-! ## The graph of a derivation -/

namespace Graph

lemma mem_nodes_addNode {g : Graph} {name n : String} :
    n ∈ (g.addNode name).nodes ↔ n ∈ g.nodes ∨ n = name := by
  rw [addNode]
  split_ifs with hmem
  · exact ⟨Or.inl, fun h => h.elim id fun e => e ▸ hmem⟩
  · simp

lemma links_addNode (g : Graph) (name : String) : (g.addNode name).links = g.links := by
  rw [addNode]
  split_ifs <;> rfl

lemma nodup_addNode {g : Graph} (h : g.nodes.Nodup) (name : String) :
    (g.addNode name).nodes.Nodup := by
  rw [addNode]
  split_ifs with hmem
  · exact h
  · have hconcat := h.concat hmem
    rwa [List.concat_eq_append] at hconcat

lemma nodes_addLink (g : Graph) (premise conclusion : String) :
    (g.addLink premise conclusion).nodes = ((g.addNode premise).addNode conclusion).nodes := by
  rw [addLink]
  split_ifs <;> rfl

lemma mem_links_addLink {g : Graph} {premise conclusion : String} {link : String × String} :
    link ∈ (g.addLink premise conclusion).links ↔
      link ∈ g.links ∨ link = (premise, conclusion) := by
  rw [addLink]
  simp only [links_addNode]
  split_ifs with hmem
  · rw [links_addNode, links_addNode]
    exact ⟨Or.inl, fun h => h.elim id fun e => e ▸ hmem⟩
  · simp

/-- Adding links to a node that is there adds their premises. -/
lemma foldl_addLink_spec {name : String} (support : List String) {g : Graph}
    (hname : name ∈ g.nodes) (h : g.nodes.Nodup) :
    (support.foldl (fun g premise => g.addLink premise name) g).nodes.Nodup ∧
      (∀ n, n ∈ (support.foldl (fun g premise => g.addLink premise name) g).nodes ↔
        n ∈ g.nodes ∨ n ∈ support) ∧
      ∀ a b, (a, b) ∈ (support.foldl (fun g premise => g.addLink premise name) g).links ↔
        (a, b) ∈ g.links ∨ name = b ∧ a ∈ support := by
  induction support generalizing g with
  | nil => simp [h]
  | cons premise rest ih =>
      rw [List.foldl_cons]
      have hnodes : ∀ n, n ∈ (g.addLink premise name).nodes ↔ n ∈ g.nodes ∨ n = premise := by
        intro n
        rw [nodes_addLink, mem_nodes_addNode, mem_nodes_addNode]
        constructor
        · rintro (hn | rfl)
          · exact hn
          · exact Or.inl hname
        · exact Or.inl
      have hnodup : (g.addLink premise name).nodes.Nodup := by
        rw [nodes_addLink]
        exact nodup_addNode (nodup_addNode h premise) name
      obtain ⟨hnodup', hnodes', hlinks'⟩ := ih ((hnodes name).2 (Or.inl hname)) hnodup
      refine ⟨hnodup', fun n => ?_, fun a b => ?_⟩
      · rw [hnodes', hnodes, List.mem_cons, or_assoc]
      · rw [hlinks', mem_links_addLink, Prod.mk.injEq, List.mem_cons]
        constructor
        · rintro ((hab | ⟨rfl, rfl⟩) | ⟨hb, ha⟩)
          · exact Or.inl hab
          · exact Or.inr ⟨rfl, Or.inl rfl⟩
          · exact Or.inr ⟨hb, Or.inr ha⟩
        · rintro (hab | ⟨rfl, rfl | ha⟩)
          · exact Or.inl (Or.inl hab)
          · exact Or.inl (Or.inr ⟨rfl, rfl⟩)
          · exact Or.inr ⟨rfl, ha⟩

/-- Adding a clause adds its name, its support and the links between them. -/
lemma addClause_spec {g : Graph} (h : g.nodes.Nodup) (c : Clause) :
    (g.addClause c).nodes.Nodup ∧
      (∀ n, n ∈ (g.addClause c).nodes ↔ n ∈ g.nodes ∨ n = c.name ∨ n ∈ c.support) ∧
      ∀ a b, (a, b) ∈ (g.addClause c).links ↔ (a, b) ∈ g.links ∨ c.name = b ∧ a ∈ c.support := by
  have hname : c.name ∈ (g.addNode c.name).nodes := mem_nodes_addNode.2 (Or.inr rfl)
  obtain ⟨hnodup, hnodes, hlinks⟩ :=
    foldl_addLink_spec c.support hname (nodup_addNode h c.name)
  refine ⟨hnodup, fun n => ?_, fun a b => ?_⟩
  · rw [addClause, hnodes, mem_nodes_addNode, or_assoc]
  · rw [addClause, hlinks, links_addNode]

/-- **The graph of clauses** has their names and supports as nodes, and the support links. -/
theorem ofClauses_spec (clauses : List Clause) :
    (ofClauses clauses).nodes.Nodup ∧
      (∀ n, n ∈ (ofClauses clauses).nodes ↔ ∃ c ∈ clauses, n = c.name ∨ n ∈ c.support) ∧
      ∀ a b, (a, b) ∈ (ofClauses clauses).links ↔ Leads clauses a b := by
  rw [ofClauses]
  induction clauses using List.reverseRecOn with
  | nil => simp [Leads]
  | append_singleton clauses c ih =>
      obtain ⟨hnodup, hnodes, hlinks⟩ := ih
      rw [List.foldl_append, List.foldl_cons, List.foldl_nil]
      obtain ⟨hnodup', hnodes', hlinks'⟩ := addClause_spec hnodup c
      refine ⟨hnodup', fun n => ?_, fun a b => ?_⟩
      · rw [hnodes', hnodes]
        simp only [List.mem_append, List.mem_singleton, or_and_right, exists_or, exists_eq_left]
      · rw [hlinks', hlinks]
        simp only [Leads, List.mem_append, List.mem_singleton, or_and_right, exists_or,
          exists_eq_left]

/-! ## Placing the nodes -/

lemma isReady_iff {g : Graph} {placed : List String} {name : String} :
    g.isReady placed name = true ↔ ∀ a, (a, name) ∈ g.links → a ∈ placed := by
  simp only [isReady, List.all_eq_true, Bool.or_eq_true, decide_eq_true_eq, Prod.forall,
    List.contains_iff_mem]
  constructor
  · intro h a ha
    exact (h a name ha).resolve_left fun hne => hne rfl
  · intro h a b hab
    by_cases hb : b = name
    · exact Or.inr (h a (hb ▸ hab))
    · exact Or.inl hb

lemma least_eq_none {rank : String → ℕ} {names : List String} (h : least rank names = none) :
    names = [] := by
  cases names with
  | nil => rfl
  | cons a rest =>
      rw [least] at h
      split at h
      · cases h
      · split_ifs at h

/-- A listing that results from placing has all that was left, and every node comes after its
premises. -/
theorem place_ok {g : Graph} {rank : String → ℕ} {placed left order : List String}
    (h : g.place rank placed left = .ok order) :
    ∃ rest, order = placed ++ rest ∧ rest.Perm left ∧
      ∀ before b after, rest = before ++ b :: after → ∀ a, (a, b) ∈ g.links →
        a ∈ placed ++ before := by
  fun_induction g.place rank placed left with
  | case1 placed left name hnext ih =>
      obtain ⟨rest, rfl, hperm, hready⟩ := ih h
      obtain ⟨hmem, hname⟩ := List.mem_filter.1 (least_mem hnext)
      refine ⟨name :: rest, by simp, ?_, fun before b after hsplit a ha => ?_⟩
      · exact (hperm.cons name).trans (List.perm_cons_erase hmem).symm
      · rcases List.cons_eq_append_iff.1 hsplit with ⟨rfl, hcons⟩ | ⟨before', rfl, hrest⟩
        · obtain ⟨rfl, -⟩ := List.cons.inj hcons
          exact List.mem_append_left _ (isReady_iff.1 hname a ha)
        · have hplaced := hready before' b after hrest a ha
          rwa [List.append_assoc, List.singleton_append] at hplaced
  | case2 placed left hnext hempty =>
      cases h
      rw [List.isEmpty_iff.1 hempty]
      exact ⟨[], by simp, .refl _, by simp⟩
  | case3 => cases h

/-- If links go up in some measure, all nodes can be placed: of those that are left, one of least
measure is ready. -/
theorem exists_place {g : Graph} {rank : String → ℕ} {placed left : List String} {r : String → ℕ}
    (hr : ∀ a b, (a, b) ∈ g.links → r a < r b)
    (hends : ∀ a b, (a, b) ∈ g.links → a ∈ placed ∨ a ∈ left) :
    ∃ order, g.place rank placed left = .ok order := by
  fun_induction g.place rank placed left with
  | case1 placed left name hnext ih =>
      refine ih fun a b hab => ?_
      rcases hends a b hab with ha | ha
      · exact Or.inl (List.mem_append_left _ ha)
      · by_cases hname : a = name
        · exact Or.inl (by simp [hname])
        · exact Or.inr ((List.mem_erase_of_ne hname).2 ha)
  | case2 placed left hnext hempty => exact ⟨placed, rfl⟩
  | case3 placed left hnext hempty =>
      exfalso
      obtain ⟨b, hb, hmin⟩ := left.toFinset.exists_min_image r
        (List.toFinset_nonempty_iff left |>.2 fun e => hempty (by simp [e]))
      rw [List.mem_toFinset] at hb
      have hready : g.isReady placed b = true := by
        rw [isReady_iff]
        intro a hab
        refine (hends a b hab).resolve_right fun ha => ?_
        exact absurd (hr a b hab) (not_lt.2 (hmin a (List.mem_toFinset.2 ha)))
      have hmem : b ∈ left.filter (g.isReady placed) := List.mem_filter.2 ⟨hb, hready⟩
      rw [least_eq_none hnext] at hmem
      cases hmem

end Graph

/-! ## The order of a derivation -/

/-- The listing has each clause name once, and premises come before conclusions. -/
structure PremisesFirst (found : List Clause) (order : List String) : Prop where
  nodup : order.Nodup
  mem_iff : ∀ n, n ∈ order ↔ n ∈ found.map Clause.name
  idxOf_lt : ∀ a b, Leads found a b → order.idxOf a < order.idxOf b

section Order

variable {found : List Clause}

/-- In a closed set of clauses the nodes are the names. -/
lemma mem_nodes_iff_of_closed
    (hclosed : ∀ c ∈ found, ∀ name ∈ c.support, name ∈ found.map Clause.name) (n : String) :
    n ∈ (Graph.ofClauses found).nodes ↔ n ∈ found.map Clause.name := by
  rw [(Graph.ofClauses_spec found).2.1]
  constructor
  · rintro ⟨c, hc, rfl | hn⟩
    · exact List.mem_map_of_mem hc
    · exact hclosed c hc n hn
  · intro hn
    obtain ⟨c, hc, rfl⟩ := List.mem_map.1 hn
    exact ⟨c, hc, Or.inl rfl⟩

theorem premisesFirst_of_order {rank : String → ℕ} {order : List String}
    (hclosed : ∀ c ∈ found, ∀ name ∈ c.support, name ∈ found.map Clause.name)
    (h : (Graph.ofClauses found).order rank = .ok order) : PremisesFirst found order := by
  obtain ⟨hnodup, -, hlinks⟩ := Graph.ofClauses_spec found
  obtain ⟨rest, hrest, hperm, hready⟩ := Graph.place_ok h
  rw [List.nil_append] at hrest
  subst hrest
  have hmem : ∀ n, n ∈ order ↔ n ∈ found.map Clause.name :=
    fun n => hperm.mem_iff.trans (mem_nodes_iff_of_closed hclosed n)
  have hnodup' : order.Nodup := hperm.nodup_iff.2 hnodup
  refine ⟨hnodup', hmem, fun a b hab => ?_⟩
  obtain ⟨c, hc, rfl, -⟩ := id hab
  obtain ⟨before, after, hsplit⟩ := List.append_of_mem ((hmem _).2 (List.mem_map_of_mem hc))
  have ha : a ∈ before := by simpa using hready before c.name after hsplit a ((hlinks _ _).2 hab)
  have hc' : c.name ∉ before := by
    rw [hsplit, List.nodup_append'] at hnodup'
    exact fun hmem => hnodup'.2.2 hmem List.mem_cons_self
  rw [hsplit, List.idxOf_append_of_mem ha, List.idxOf_append_of_notMem hc', List.idxOf_cons_self]
  exact Nat.lt_add_right 0 (List.idxOf_lt_length_of_mem ha)

theorem exists_order (rank : String → ℕ) {r : String → ℕ}
    (hclosed : ∀ c ∈ found, ∀ name ∈ c.support, name ∈ found.map Clause.name)
    (hr : ∀ a b, Leads found a b → r a < r b) :
    ∃ order, (Graph.ofClauses found).order rank = .ok order := by
  obtain ⟨-, -, hlinks⟩ := Graph.ofClauses_spec found
  refine Graph.exists_place (fun a b hab => hr a b ((hlinks a b).1 hab)) fun a b hab => Or.inr ?_
  obtain ⟨c, hc, -, ha⟩ := (hlinks a b).1 hab
  exact (mem_nodes_iff_of_closed hclosed a).2 (hclosed c hc a ha)

variable {order : List String}

/-- What everything leads to comes last. -/
theorem PremisesFirst.idxOf_root (h : PremisesFirst found order) {w : Clause} (hw : w ∈ found)
    (hreached : ∀ c ∈ found, ReflTransGen (Leads found) c.name w.name) :
    order.idxOf w.name + 1 = order.length := by
  have hle : ∀ a, ReflTransGen (Leads found) a w.name → order.idxOf a ≤ order.idxOf w.name := by
    intro a ha
    induction ha using ReflTransGen.head_induction_on with
    | refl => exact le_refl _
    | head hab _ ih => exact (h.idxOf_lt _ _ hab).le.trans ih
  have hlt : order.idxOf w.name < order.length :=
    List.idxOf_lt_length_of_mem ((h.mem_iff _).2 (List.mem_map_of_mem hw))
  -- the last name of the listing is some clause's, and that clause leads to `w`
  have hlast : order.length - 1 < order.length := by omega
  obtain ⟨c, hc, hname⟩ := List.mem_map.1 ((h.mem_iff _).1 (List.getElem_mem hlast))
  have hidx := hle c.name (hreached c hc)
  rw [hname, h.nodup.idxOf_getElem _ hlast] at hidx
  omega

/-! ## The steps -/

lemma forall₂_filterMap_find {f : Clause → Clause} {names : List String}
    (h : ∀ n ∈ names, n ∈ found.map Clause.name) :
    List.Forall₂ (fun name step => ∃ c ∈ found, c.name = name ∧ step = f c) names
      (names.filterMap fun name => (found.find? fun c => c.name = name).map f) := by
  induction names with
  | nil => exact .nil
  | cons name rest ih =>
      have hrest := ih fun n hn => h n (List.mem_cons_of_mem _ hn)
      cases hfind : found.find? fun c => c.name = name with
      | none =>
          obtain ⟨c, hc, hname⟩ := List.mem_map.1 (h name List.mem_cons_self)
          have hnone := List.find?_eq_none.1 hfind c hc
          simp [hname] at hnone
      | some c =>
          have hname : c.name = name := by simpa using List.find?_some hfind
          simp only [List.filterMap_cons, hfind, Option.map_some]
          exact .cons ⟨c, List.mem_of_find?_eq_some hfind, hname, rfl⟩ hrest

/-- Every step is a clause under its number. -/
theorem PremisesFirst.exists_of_getElem? (h : PremisesFirst found order) {n : ℕ} {step : Clause}
    (hn : (Derivation.stepsOf found order)[n]? = some step) :
    ∃ c ∈ found, order.idxOf c.name = n ∧ step = Derivation.renumber order c := by
  have hall := @forall₂_filterMap_find found (Derivation.renumber order) order
    fun name hname => (h.mem_iff name).1 hname
  obtain ⟨hlt, rfl⟩ := List.getElem?_eq_some_iff.1 hn
  have hlt' : n < order.length := hall.length_eq ▸ hlt
  obtain ⟨c, hc, hname, hstep⟩ := hall.get hlt' hlt
  refine ⟨c, hc, ?_, hstep⟩
  rw [hname]
  exact h.nodup.idxOf_getElem n hlt'

lemma PremisesFirst.length_stepsOf (h : PremisesFirst found order) :
    (Derivation.stepsOf found order).length = order.length :=
  (@forall₂_filterMap_find found (Derivation.renumber order) order
    fun name hname => (h.mem_iff name).1 hname).length_eq.symm

/-- **Every clause is the step of its number.** -/
theorem PremisesFirst.getElem?_stepsOf (h : PremisesFirst found order)
    (hdistinct : (found.map Clause.name).Nodup) {c : Clause} (hc : c ∈ found) :
    (Derivation.stepsOf found order)[order.idxOf c.name]? =
      some (Derivation.renumber order c) := by
  have hlt : order.idxOf c.name < (Derivation.stepsOf found order).length := by
    rw [h.length_stepsOf]
    exact List.idxOf_lt_length_of_mem ((h.mem_iff _).2 (List.mem_map_of_mem hc))
  obtain ⟨d, hd, hidx, hstep⟩ := h.exists_of_getElem? (List.getElem?_eq_getElem hlt)
  have hname : d.name = c.name :=
    (List.idxOf_inj ((h.mem_iff _).2 (List.mem_map_of_mem hd))).1 hidx
  rw [List.getElem?_eq_getElem hlt, hstep, eq_of_name_eq hdistinct hd hc hname]

end Order

end GivenClause
