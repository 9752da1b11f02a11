import Mathlib
import GivenClause.Proofs.CanonicalClauses
import GivenClause.Proofs.FollowingPaths

/-!
# Inclusions are inlining

What a problem file with inclusions means is said without the loader: `Flattens` relates a path to the
clauses of its file in the order of the text, where an inclusion stands for the flattening of the file
it names, cut down to the selected clauses.  Nothing is said there about files that are open.  Which
file includes which is a relation between places, `Includes`, and `Cyclic` says that the files below a
path go round in it.

The loader keeps a list of the files that are open, and refuses to open one of them again.

* Files are open inside each other at most as often as there are files (`Followed.length_le`).
* What is loaded is the flattening (`flattens_of_loadFile`), and there is one at most.
* A file that can be flattened has no cycle below it (`Flattens.acc`): the file that an inclusion
  names does not depend on the path, so the derivation bounds every way through the inclusions.
* Where nothing else goes wrong (`Complete`), a file that is refused closes a cycle
  (`loadFile_cases`).

`load_inlines_inclusions` puts them together.  A search can go wrong although every file is there,
when a path to try is too long (`inclusion_lost_on_long_path`); `Complete` asks that none does.
-/

namespace GivenClause

namespace Format.Statement

/-- The clauses that a statement stands for, given those of the files it may include. -/
def inlined (included : String → List Clause) : Statement → List Clause
  | .clause c => [c]
  | .inclusion name none => included name
  | .inclusion name (some selected) => (included name).filter (·.name ∈ selected)

end Format.Statement

namespace Problem

open Files Format Relation

/-! ## Files and what they include -/

/-- A path leads to the file at a place, which holds these statements. -/
def Opens (tree : Tree) (path : Path) (place : Location) (statements : List Statement) : Prop :=
  ∃ text, tree.read path = .ok (.file place text) ∧ readStatements text = .ok statements

/-- The file at one place includes the file at another. -/
def Includes (tree : Tree) (places : Places) (outer inner : Location) : Prop :=
  ∃ path statements name selection found text, Opens tree path outer statements ∧
    .inclusion name selection ∈ statements ∧
    locate tree places (some path.parent) name = .ok found ∧
    tree.read found = .ok (.file inner text)

/-- Some file below a path includes itself, directly or through others. -/
def Cyclic (tree : Tree) (places : Places) (path : Path) : Prop :=
  ∃ first text place, tree.read path = .ok (.file first text) ∧
    ReflTransGen (Includes tree places) first place ∧ TransGen (Includes tree places) place place

/-- The clauses of a file, with the inclusions replaced by what they stand for. -/
inductive Flattens (tree : Tree) (places : Places) : Path → List Clause → Prop
  | nothing {path : Path} (empty : tree.read path = .ok .nothing) : Flattens tree places path []
  | file {path : Path} {place : Location} {statements : List Statement}
      (target : String → Path) (included : String → List Clause)
      (opens : Opens tree path place statements)
      (found : ∀ name selection, .inclusion name selection ∈ statements →
        locate tree places (some path.parent) name = .ok (target name))
      (each : ∀ name selection, .inclusion name selection ∈ statements →
        Flattens tree places (target name) (included name)) :
      Flattens tree places path (statements.flatMap (·.inlined included))

/-- The ways from a path through inclusions, with the files open on them, the innermost first.  A file
that is open is not opened again. -/
inductive Followed (tree : Tree) (places : Places) (path : Path) : List Location → Path → Prop
  | start : Followed tree places path [] path
  | inclusion {opened : List Location} {outer inner : Path} {place : Location}
      {statements : List Statement} {name : String} {selection : Option (List String)}
      (before : Followed tree places path opened outer) (opens : Opens tree outer place statements)
      (new : place ∉ opened) (mem : .inclusion name selection ∈ statements)
      (found : locate tree places (some outer.parent) name = .ok inner) :
      Followed tree places path (place :: opened) inner

/-- All files below a path can be read, and so can their texts; each inclusion names a file that the
search for it finds. -/
def Complete (tree : Tree) (places : Places) (path : Path) : Prop :=
  ∀ opened inner, Followed tree places path opened inner →
    tree.read inner = .ok .nothing ∨
    ∃ place text, tree.read inner = .ok (.file place text) ∧
      (place ∉ opened → ∃ statements, readStatements text = .ok statements ∧
        ∀ name selection, .inclusion name selection ∈ statements →
          ∃ found, locate tree places (some inner.parent) name = .ok found)

variable {tree : Tree} {places : Places} {path : Path}

/-- A path opens one file. -/
lemma Opens.inj {place place' : Location} {statements statements' : List Statement}
    (h : Opens tree path place statements) (h' : Opens tree path place' statements') :
    place = place' ∧ statements = statements' := by
  obtain ⟨text, hread, hstatements⟩ := h
  obtain ⟨text', hread', hstatements'⟩ := h'
  cases hread.symm.trans hread'
  exact ⟨rfl, Except.ok.inj (hstatements.symm.trans hstatements')⟩

/-- A file holds the same statements by whatever path it is opened. -/
lemma Opens.unique {path' : Path} {place : Location} {statements statements' : List Statement}
    (h : Opens tree path place statements) (h' : Opens tree path' place statements') :
    statements = statements' := by
  obtain ⟨text, hread, hstatements⟩ := h
  obtain ⟨text', hread', hstatements'⟩ := h'
  obtain rfl := Tree.text_eq_of_read hread hread'
  exact Except.ok.inj (hstatements.symm.trans hstatements')

/-! ## Ways through the inclusions -/

namespace Followed

variable {opened : List Location} {inner : Path}

/-- The open files are files of the tree, each of them once. -/
lemma nodup_subset (h : Followed tree places path opened inner) :
    opened.Nodup ∧ opened ⊆ tree.files.map Prod.fst := by
  induction h with
  | start => exact ⟨List.nodup_nil, List.nil_subset _⟩
  | inclusion _ opens new _ _ ih =>
      obtain ⟨text, hread, -⟩ := opens
      obtain ⟨content, hmem⟩ := Tree.mem_files_of_read hread
      exact ⟨List.nodup_cons.2 ⟨new, ih.1⟩,
        List.cons_subset.2 ⟨List.mem_map_of_mem (f := Prod.fst) hmem, ih.2⟩⟩

/-- Files are open inside each other at most as often as there are files. -/
theorem length_le (h : Followed tree places path opened inner) :
    opened.length ≤ tree.files.length := by
  obtain ⟨hnodup, hsubset⟩ := h.nodup_subset
  have hle := (List.subperm_of_subset hnodup hsubset).length_le
  rwa [List.length_map] at hle

/-- The file at the end of a way is below the first one, and below every file that is open. -/
theorem includes {place : Location} {text : String} (h : Followed tree places path opened inner)
    (hread : tree.read inner = .ok (.file place text)) :
    ∃ first text₀, tree.read path = .ok (.file first text₀) ∧
      ReflTransGen (Includes tree places) first place ∧
      ∀ outer ∈ opened, ReflTransGen (Includes tree places) first outer ∧
        TransGen (Includes tree places) outer place := by
  induction h generalizing place text with
  | start => exact ⟨place, text, hread, .refl, fun _ hmem => absurd hmem List.not_mem_nil⟩
  | @inclusion opened outer found last statements name selection before opens new mem hfound ih =>
      obtain ⟨text', houter, -⟩ := id opens
      obtain ⟨first, text₀, hfirst, hreach, habove⟩ := ih houter
      have hstep : Includes tree places last place :=
        ⟨outer, statements, name, selection, found, text, opens, mem, hfound, hread⟩
      refine ⟨first, text₀, hfirst, hreach.tail hstep, fun file hmem => ?_⟩
      rcases List.mem_cons.1 hmem with rfl | hmem
      · exact ⟨hreach, .single hstep⟩
      · exact ⟨(habove file hmem).1, (habove file hmem).2.tail hstep⟩

end Followed

/-! ## Flattening -/

namespace Flattens

/-- There is one flattening at most. -/
theorem unique {clauses clauses' : List Clause} (h : Flattens tree places path clauses)
    (h' : Flattens tree places path clauses') : clauses = clauses' := by
  induction h generalizing clauses' with
  | nothing empty =>
      cases h' with
      | nothing => rfl
      | file _ _ opens =>
          obtain ⟨text, hread, -⟩ := opens
          cases empty.symm.trans hread
  | @file path place statements target included opens found each ih =>
      cases h' with
      | nothing empty =>
          obtain ⟨text, hread, -⟩ := opens
          cases empty.symm.trans hread
      | @file _ place' statements' target' included' opens' found' each' =>
          obtain ⟨-, rfl⟩ := opens.inj opens'
          refine List.flatMap_congr fun statement hmem => ?_
          cases statement with
          | clause c => rfl
          | inclusion name selection =>
              have htarget : target name = target' name :=
                Except.ok.inj ((found _ _ hmem).symm.trans (found' _ _ hmem))
              have hincluded : included name = included' name :=
                ih name selection hmem (htarget ▸ each' name selection hmem)
              cases selection <;> simp only [Statement.inlined, hincluded]

/-- What has a flattening includes nothing without end. -/
theorem acc {clauses : List Clause} {place : Location} {text : String}
    (h : Flattens tree places path clauses) (hread : tree.read path = .ok (.file place text)) :
    Acc (Function.swap (Includes tree places)) place := by
  induction h generalizing place text with
  | nothing empty => cases empty.symm.trans hread
  | @file path place' statements target included opens found each ih =>
      obtain ⟨text', hread', hstatements⟩ := id opens
      obtain ⟨rfl, rfl⟩ : place' = place ∧ text' = text := by
        cases hread.symm.trans hread'
        exact ⟨rfl, rfl⟩
      refine Acc.intro _ fun inner hinner => ?_
      obtain ⟨path', statements', name, selection, found', textInner, opens', hmem, hfound', hinner⟩ :=
        hinner
      obtain rfl := opens.unique opens'
      obtain ⟨text'', hread'', -⟩ := opens'
      have hsame := read_eq_of_locate hread hread'' (found name selection hmem) hfound'
      exact ih name selection hmem (hsame.trans hinner)

end Flattens

/-- A place from which nothing goes on without end is on no cycle, and no cycle is below it. -/
lemma not_cyclic_of_acc {first : Location}
    (h : Acc (Function.swap (Includes tree places)) first) {place : Location}
    (hbelow : ReflTransGen (Includes tree places) first place) :
    ¬ TransGen (Includes tree places) place place := by
  induction h generalizing place with
  | intro first _ ih =>
      intro hcycle
      -- On a cycle through `first` itself, one step leads to a place from which the cycle is below.
      rcases ReflTransGen.cases_head hbelow with rfl | ⟨next, hstep, hnext⟩
      · obtain ⟨next, hstep, hback⟩ := TransGen.head'_iff.1 hcycle
        exact ih next hstep hback hcycle
      · exact ih next hstep hnext hcycle

lemma Flattens.not_cyclic {clauses : List Clause} (h : Flattens tree places path clauses) :
    ¬ Cyclic tree places path := by
  rintro ⟨first, text, place, hread, hbelow, hcycle⟩
  exact not_cyclic_of_acc (h.acc hread) hbelow hcycle

/-- A set of paths within which all inclusions are found, and each path can be read. -/
lemma complete_of_closed {P : Path → Prop} (hpath : P path)
    (hclosed : ∀ inner, P inner → tree.read inner = .ok .nothing ∨
      ∃ place statements, Opens tree inner place statements ∧
        ∀ name selection, .inclusion name selection ∈ statements →
          ∃ found, locate tree places (some inner.parent) name = .ok found ∧ P found) :
    Complete tree places path := by
  have hfollowed : ∀ opened inner, Followed tree places path opened inner → P inner := by
    intro opened inner h
    induction h with
    | start => exact hpath
    | inclusion _ opens _ mem hfound ih =>
        rcases hclosed _ ih with hnothing | ⟨place, statements, opens', heach⟩
        · obtain ⟨text, hread, -⟩ := opens
          cases hnothing.symm.trans hread
        · obtain ⟨-, rfl⟩ := opens.inj opens'
          obtain ⟨found, hfound', hP⟩ := heach _ _ mem
          cases hfound.symm.trans hfound'
          exact hP
  intro opened inner h
  rcases hclosed inner (hfollowed opened inner h) with
    hnothing | ⟨place, statements, ⟨text, hread, hstatements⟩, heach⟩
  · exact .inl hnothing
  · refine .inr ⟨place, text, hread, fun _ => ⟨statements, hstatements, ?_⟩⟩
    intro name selection hmem
    obtain ⟨found, hfound, -⟩ := heach name selection hmem
    exact ⟨found, hfound⟩

/-- Below a path that has a flattening all files are there. -/
theorem Flattens.complete {clauses : List Clause} (h : Flattens tree places path clauses) :
    Complete tree places path := by
  refine complete_of_closed (P := fun inner => ∃ clauses, Flattens tree places inner clauses)
    ⟨clauses, h⟩ ?_
  rintro inner ⟨clauses', hflat⟩
  cases hflat with
  | nothing empty => exact .inl empty
  | @file _ place statements target included opens found each =>
      exact .inr ⟨place, statements, opens, fun name selection hmem =>
        ⟨target name, found name selection hmem, included name, each name selection hmem⟩⟩

/-! ## Loading -/

section Expand

variable {base : Option Path} {read : Path → Except LoadError (List Clause)}
  {statements : List Statement}

/-- Where inclusions are replaced at all, each is found and replaced by what its file gives. -/
lemma expand_eq_ok {clauses : List Clause}
    (h : expand tree places base read statements = .ok clauses) :
    ∃ (target : String → Path) (included : String → List Clause),
      (∀ name selection, .inclusion name selection ∈ statements →
        locate tree places base name = .ok (target name) ∧
          read (target name) = .ok (included name)) ∧
      clauses = statements.flatMap (·.inlined included) := by
  -- Both functions are fixed beforehand, so that they serve all statements alike.
  let target : String → Path := fun name => (locate tree places base name).toOption.getD {}
  let included : String → List Clause := fun name => (read (target name)).toOption.getD []
  refine ⟨target, included, ?_⟩
  induction statements generalizing clauses with
  | nil =>
      cases h
      exact ⟨fun _ _ hmem => absurd hmem List.not_mem_nil, rfl⟩
  | cons statement rest ih =>
      cases statement with
      | clause c =>
          rw [expand] at h
          obtain ⟨more, hmore, h⟩ := bind_eq_ok h
          cases h
          obtain ⟨hall, rfl⟩ := ih hmore
          refine ⟨fun name selection hmem => ?_, rfl⟩
          cases hmem with
          | tail _ hmem => exact hall name selection hmem
      | inclusion name selection =>
          rw [expand] at h
          obtain ⟨found, hfound, h⟩ := bind_eq_ok h
          obtain ⟨clauses', hread, h⟩ := bind_eq_ok h
          obtain ⟨more, hmore, h⟩ := bind_eq_ok h
          cases h
          obtain ⟨hall, rfl⟩ := ih hmore
          have htarget : target name = found := by
            simp only [target, hfound, Except.toOption, Option.getD_some]
          have hincluded : included name = clauses' := by
            simp only [included, htarget, hread, Except.toOption, Option.getD_some]
          refine ⟨fun name' selection' hmem => ?_, ?_⟩
          · rcases List.mem_cons.1 hmem with heq | hmem
            · cases heq
              rw [htarget, hincluded]
              exact ⟨hfound, hread⟩
            · exact hall name' selection' hmem
          · cases selection <;>
              simp [select, Statement.inlined, hincluded]

/-- Where every inclusion is found, and either loaded or refused for the sake of a cycle, nothing else
can be refused. -/
lemma expand_cases {cycle : Prop}
    (heach : ∀ name selection, .inclusion name selection ∈ statements →
      ∃ found, locate tree places base name = .ok found ∧
        ((∃ clauses, read found = .ok clauses) ∨
          (∃ shown, read found = .error (.includeCycle shown)) ∧ cycle)) :
    (∃ clauses, expand tree places base read statements = .ok clauses) ∨
    (∃ shown, expand tree places base read statements = .error (.includeCycle shown)) ∧ cycle := by
  induction statements with
  | nil => exact .inl ⟨[], rfl⟩
  | cons statement rest ih =>
      specialize ih fun name selection hmem => heach name selection (.tail _ hmem)
      cases statement with
      | clause c =>
          rw [expand]
          rcases ih with ⟨more, hmore⟩ | ⟨⟨shown, hmore⟩, hcycle⟩
          · exact .inl ⟨c :: more, by rw [hmore]; rfl⟩
          · exact .inr ⟨⟨shown, by rw [hmore]; rfl⟩, hcycle⟩
      | inclusion name selection =>
          obtain ⟨found, hfound, hread⟩ := heach name selection List.mem_cons_self
          rw [expand, hfound]
          rcases hread with ⟨clauses, hread⟩ | ⟨⟨shown, hread⟩, hcycle⟩
          · rcases ih with ⟨more, hmore⟩ | ⟨⟨shown, hmore⟩, hcycle⟩
            · refine .inl ⟨select selection clauses ++ more, ?_⟩
              simp only [bind, Except.bind, hread, hmore, pure, Except.pure]
            · exact .inr ⟨⟨shown, by simp only [bind, Except.bind, hread, hmore]⟩, hcycle⟩
          · exact .inr ⟨⟨shown, by simp only [bind, Except.bind, hread]⟩, hcycle⟩

end Expand

lemma loadFile_of_nothing {opened : List Location} {inner : Path}
    (h : tree.read inner = .ok .nothing) : loadFile tree places opened inner = .ok [] := by
  rw [loadFile]
  split <;> simp_all

lemma loadFile_of_open {opened : List Location} {inner : Path} {place : Location} {text : String}
    (h : tree.read inner = .ok (.file place text)) (hopen : place ∈ opened) :
    loadFile tree places opened inner = .error (.includeCycle inner.render) := by
  rw [loadFile]
  split <;> simp_all

lemma loadFile_of_new {opened : List Location} {inner : Path} {place : Location} {text : String}
    {statements : List Statement} (h : tree.read inner = .ok (.file place text))
    (hnew : place ∉ opened) (hstatements : readStatements text = .ok statements) :
    loadFile tree places opened inner = expand tree places (some inner.parent)
      (loadFile tree places (place :: opened)) statements := by
  rw [loadFile]
  split <;> simp_all

/-- What is loaded is a flattening, whatever files are open. -/
theorem flattens_of_loadFile {opened : List Location} {inner : Path} {clauses : List Clause}
    (h : loadFile tree places opened inner = .ok clauses) : Flattens tree places inner clauses := by
  cases hread : tree.read inner with
  | error e =>
      rw [loadFile] at h
      split at h <;> simp_all
  | ok source =>
      cases source with
      | nothing =>
          rw [loadFile_of_nothing hread] at h
          cases h
          exact .nothing hread
      | file place text =>
          by_cases hopen : place ∈ opened
          · rw [loadFile_of_open hread hopen] at h
            cases h
          · cases hstatements : readStatements text with
            | error e =>
                rw [loadFile] at h
                split at h <;> simp_all
            | ok statements =>
                rw [loadFile_of_new hread hopen hstatements] at h
                have hdecrease := length_unopened_lt hread (by simpa using hopen)
                obtain ⟨target, included, heach, rfl⟩ := expand_eq_ok h
                exact .file target included ⟨text, hread, hstatements⟩
                  (fun name selection hmem => (heach name selection hmem).1)
                  (fun name selection hmem => flattens_of_loadFile (heach name selection hmem).2)
termination_by (unopened tree opened).length

/-- **What loading gives on the way through the inclusions**: clauses, or the complaint about a cycle,
and then there is one. -/
theorem loadFile_cases (hcomplete : Complete tree places path) {opened : List Location}
    {inner : Path} (hinner : Followed tree places path opened inner) :
    (∃ clauses, loadFile tree places opened inner = .ok clauses) ∨
    (∃ shown, loadFile tree places opened inner = .error (.includeCycle shown)) ∧
      Cyclic tree places path := by
  rcases hcomplete opened inner hinner with hnothing | ⟨place, text, hread, hnew⟩
  · exact .inl ⟨[], loadFile_of_nothing hnothing⟩
  · by_cases hopen : place ∈ opened
    · -- The file is open already: the way to it has gone round.
      obtain ⟨first, text₀, hfirst, -, habove⟩ := hinner.includes hread
      exact .inr ⟨⟨inner.render, loadFile_of_open hread hopen⟩,
        first, text₀, place, hfirst, habove place hopen⟩
    · obtain ⟨statements, hstatements, hfound⟩ := hnew hopen
      have hdecrease := length_unopened_lt hread (by simpa using hopen)
      rw [loadFile_of_new hread hopen hstatements]
      refine expand_cases fun name selection hmem => ?_
      -- Each inclusion is one step further on the way, with one more file open.
      obtain ⟨found, hlocate⟩ := hfound name selection hmem
      exact ⟨found, hlocate, loadFile_cases hcomplete
        (.inclusion hinner ⟨text, hread, hstatements⟩ hopen hmem hlocate)⟩
termination_by (unopened tree opened).length

/-- **Loading inlines inclusions.**  Files are opened inside each other at most as often as there are
files, so loading ends; what it gives is the flattening of the file, and it gives it whenever there is
one.  Where every file below the path is there and every search succeeds, loading is refused exactly
when the inclusions go round in a cycle, and otherwise gives the flattening. -/
theorem load_inlines_inclusions (tree : Tree) (places : Places) (path : Path) :
    (∀ opened inner, Followed tree places path opened inner →
      opened.length ≤ tree.files.length) ∧
    (∀ clauses, load tree places path = .ok clauses ↔ Flattens tree places path clauses) ∧
    (Complete tree places path →
      ((∃ shown, load tree places path = .error (.includeCycle shown)) ↔
        Cyclic tree places path) ∧
      (¬ Cyclic tree places path → ∃ clauses, load tree places path = .ok clauses)) := by
  have hcases : Complete tree places path → (∃ clauses, load tree places path = .ok clauses) ∨
      (∃ shown, load tree places path = .error (.includeCycle shown)) ∧ Cyclic tree places path :=
    fun hcomplete => loadFile_cases hcomplete .start
  refine ⟨fun opened inner h => h.length_le, fun clauses => ⟨flattens_of_loadFile, fun h => ?_⟩,
    fun hcomplete => ⟨⟨?_, ?_⟩, ?_⟩⟩
  · rcases hcases h.complete with ⟨clauses', hload⟩ | ⟨-, hcycle⟩
    · rw [hload, (flattens_of_loadFile hload).unique h]
    · exact absurd hcycle h.not_cyclic
  · rintro ⟨shown, hrefused⟩
    rcases hcases hcomplete with ⟨clauses, hload⟩ | ⟨-, hcycle⟩
    · cases hload.symm.trans hrefused
    · exact hcycle
  · intro hcycle
    rcases hcases hcomplete with ⟨clauses, hload⟩ | ⟨hrefused, -⟩
    · exact absurd hcycle (flattens_of_loadFile hload).not_cyclic
    · exact hrefused
  · intro hacyclic
    exact (hcases hcomplete).resolve_right fun h => hacyclic h.2

/-! ## A file on two ways, and two files in a ring -/

/-- A file that is included on two ways, the first time for one of its clauses only. -/
def diamond : Tree where
  files := [(["tmp", "work", "top.p"], "include('sub/right.p',[rule]). include('left.p')."),
    (["tmp", "work", "left.p"], "include('sub/facts.p')."),
    (["tmp", "work", "sub", "right.p"], "include('facts.p')."),
    (["tmp", "work", "sub", "facts.p"], "cnf(fact,axiom,p). cnf(rule,axiom,~p|q).")]

/-- The first clause of the file at the bottom. -/
def fact : Clause where
  literals := [⟨true, "p", []⟩]
  name := "fact"
  role := Role.assumption

/-- The second clause of the file at the bottom. -/
def rule : Clause where
  literals := [⟨false, "p", []⟩, ⟨true, "q", []⟩]
  name := "rule"
  role := Role.assumption

lemma load_diamond : load diamond {} (.ofText "top.p") = .ok [rule, fact, rule] := by
  decide +kernel

/-- Two files that include each other. -/
def ring : Tree where
  files := [(["tmp", "work", "one.p"], "cnf(fact,axiom,p). include('two.p')."),
    (["tmp", "work", "two.p"], "include('one.p').")]

/-- In the ring nothing is missing. -/
lemma complete_ring : Complete ring {} (.ofText "one.p") := by
  refine complete_of_closed (P := fun inner => inner = .ofText "one.p" ∨ inner = .ofText "two.p")
    (.inl rfl) ?_
  rintro inner (rfl | rfl)
  · refine .inr ⟨["tmp", "work", "one.p"], [.clause fact, .inclusion "two.p" none],
      ⟨"cnf(fact,axiom,p). include('two.p').", by decide +kernel, by decide +kernel⟩, ?_⟩
    intro name selection hmem
    simp only [List.mem_cons, reduceCtorEq, Statement.inclusion.injEq, List.not_mem_nil,
      or_false, false_or] at hmem
    obtain ⟨rfl, -⟩ := hmem
    exact ⟨.ofText "two.p", by decide +kernel, .inr rfl⟩
  · refine .inr ⟨["tmp", "work", "two.p"], [.inclusion "one.p" none],
      ⟨"include('one.p').", by decide +kernel, by decide +kernel⟩, ?_⟩
    intro name selection hmem
    simp only [List.mem_cons, Statement.inclusion.injEq, List.not_mem_nil, or_false] at hmem
    obtain ⟨rfl, -⟩ := hmem
    exact ⟨.ofText "one.p", by decide +kernel, .inl rfl⟩

theorem diamond_inlined_ring_refused :
    Complete diamond {} (.ofText "top.p") ∧ ¬ Cyclic diamond {} (.ofText "top.p") ∧
    Flattens diamond {} (.ofText "top.p") [rule, fact, rule] ∧
    Complete ring {} (.ofText "one.p") ∧ Cyclic ring {} (.ofText "one.p") ∧
    ∀ opened inner, Followed ring {} (.ofText "one.p") opened inner → opened.length ≤ 2 := by
  obtain ⟨-, hflattens, hdiamond⟩ := load_inlines_inclusions diamond {} (.ofText "top.p")
  obtain ⟨hbound, -, hring⟩ := load_inlines_inclusions ring {} (.ofText "one.p")
  have hcomplete := (flattens_of_loadFile load_diamond).complete
  refine ⟨hcomplete, fun hcycle => ?_, (hflattens _).1 load_diamond, complete_ring, ?_, hbound⟩
  · obtain ⟨shown, hrefused⟩ := (hdiamond hcomplete).1.2 hcycle
    cases load_diamond.symm.trans hrefused
  · exact (hring complete_ring).1.1 ⟨"one.p", by decide +kernel⟩

/-! ## A path that is too long -/

/-- A path that goes down and up many times before it comes to the file at the top. -/
def winding : Path where
  names := (List.replicate 584 ["sub", ".."]).flatten ++ ["top.p"]

/-- Going down and up again leads nowhere else. -/
lemma walk_winding (n : Nat) (names : List String) :
    diamond.walk ((List.replicate n ["sub", ".."]).flatten ++ names) (.directory diamond.here)
      = diamond.walk names (.directory diamond.here) := by
  induction n with
  | zero => rfl
  | succ n ih => exact ih

lemma read_winding : diamond.read winding = diamond.read (.ofText "top.p") := by
  have hfault : Tree.textFault? winding.render = none := by
    rw [Tree.textFault?, Tree.contains_render]
    decide +kernel
  have hwalk : diamond.walk winding.names (diamond.start winding.root)
      = diamond.walk ["top.p"] (.directory diamond.here) := walk_winding 584 ["top.p"]
  rw [Tree.read, Tree.find, hfault]
  simp only [hwalk]
  decide +kernel

/-- No name of the tree fits behind the path. -/
lemma isFile_winding : ∃ shown, diamond.isFile (winding.parent.append (.ofText "sub/right.p"))
    = .error ⟨.nameTooLong, shown⟩ := by
  have hfault : Tree.textFault? (winding.parent.append (.ofText "sub/right.p")).render
      = some .nameTooLong := by
    rw [Tree.textFault?, Tree.contains_render]
    decide +kernel
  exact ⟨_, by rw [Tree.isFile, Tree.find, hfault]⟩

/-- A path may be so long that the name of an included file does not fit behind it.  Then the file at
its end can be read, and has a flattening, but the search for the included file is refused. -/
theorem inclusion_lost_on_long_path :
    diamond.read winding = diamond.read (.ofText "top.p") ∧
    Flattens diamond {} (.ofText "top.p") [rule, fact, rule] ∧ ¬ Cyclic diamond {} winding ∧
    ∃ shown, load diamond {} winding = .error (.file ⟨.nameTooLong, shown⟩) := by
  have hflattens := flattens_of_loadFile load_diamond
  refine ⟨read_winding, hflattens, ?_, ?_⟩
  · rintro ⟨first, text, place, hread, hcycle⟩
    exact hflattens.not_cyclic ⟨first, text, place, read_winding ▸ hread, hcycle⟩
  · have hread : diamond.read winding = .ok (.file ["tmp", "work", "top.p"]
        "include('sub/right.p',[rule]). include('left.p').") := by
      rw [read_winding]
      decide +kernel
    have hstatements : readStatements "include('sub/right.p',[rule]). include('left.p')."
        = .ok [.inclusion "sub/right.p" (some ["rule"]), .inclusion "left.p" none] := by
      decide +kernel
    obtain ⟨shown, hlong⟩ := isFile_winding
    have hlocate : locate diamond {} (some winding.parent) "sub/right.p"
        = .error (.file ⟨.nameTooLong, shown⟩) := by
      show firstFile diamond _ (winding.parent.append (.ofText "sub/right.p") :: _) = _
      rw [firstFile, hlong]
    refine ⟨shown, ?_⟩
    rw [load, loadFile_of_new hread List.not_mem_nil hstatements, expand, hlocate]
    rfl

end Problem

end GivenClause
