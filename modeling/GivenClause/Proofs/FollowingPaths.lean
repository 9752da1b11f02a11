import Mathlib
import GivenClause.Problem.Load

/-!
# Where paths lead

Many paths lead to one file, since they may go up and down again on their way.  The directory that a
path to a file goes through last is nevertheless the directory of the file (`Tree.walk_parent`), because
there are no links.  Hence the file that an inclusion names depends on the including file only, and not
on the path by which that was opened (`read_eq_of_locate`).

A path that is too long is an exception: the lookup then fails, though another path to the same place
would do.  So the statement is about lookups that do not fail.
-/

namespace GivenClause

namespace Files

/-! ## Walking -/

namespace Tree

variable {tree : Tree}

lemma walk_append (tree : Tree) (names more : List String) (node : Node) :
    tree.walk (names ++ more) node = tree.walk names node >>= tree.walk more := by
  induction names generalizing node with
  | nil => rfl
  | cons name names ih =>
      rw [List.cons_append, walk, walk, bind_assoc]
      exact bind_congr fun next => ih next

lemma place_of_node? {place place' : Location} {content : String}
    (h : tree.node? place = some (.file place' content)) : place' = place := by
  rw [node?] at h
  split at h
  · cases h
    rfl
  · cases h
  · split_ifs at h
    cases h

/-- A file is entered from its own directory. -/
lemma directory_of_enter {name : String} {node : Node} {place : Location} {content : String}
    (h : tree.enter name node = .ok (.file place content)) : node = .directory place.dropLast := by
  cases node with
  | file => cases h
  | device => cases h
  | directory d =>
      rw [enter] at h
      split_ifs at h
      · cases h
      · cases h
      · split at h
        · rename_i next hnode
          cases h
          rw [place_of_node? hnode, List.dropLast_concat]
        · cases h

/-- **The last directory on the way to a file is the file's directory.** -/
theorem walk_parent {names : List String} {d place : Location} {content : String}
    (h : tree.walk names (.directory d) = .ok (.file place content)) :
    tree.walk names.dropLast (.directory d) = .ok (.directory place.dropLast) := by
  rcases List.eq_nil_or_concat names with rfl | ⟨init, last, rfl⟩
  · cases h
  · rw [List.concat_eq_append] at h ⊢
    rw [List.dropLast_concat]
    rw [walk_append] at h
    cases hinit : tree.walk init (.directory d) with
    | error fault =>
        rw [hinit] at h
        cases h
    | ok node =>
        rw [hinit] at h
        have henter : tree.enter last node = .ok (.file place content) := by
          cases hlast : tree.enter last node with
          | error fault =>
              simp [walk, bind, Except.bind, hlast] at h
          | ok next =>
              simpa [walk, bind, Except.bind, hlast] using h
        rw [directory_of_enter henter]

lemma walk_of_find {path : Path} {node : Node} (h : tree.find path = .ok node) :
    textFault? path.render = none ∧ tree.walk path.names (tree.start path.root) = .ok node := by
  rw [find] at h
  split at h
  · cases h
  · rename_i hfault
    exact ⟨hfault, h⟩

lemma find_of_read {path : Path} {place : Location} {text : String}
    (h : tree.read path = .ok (.file place text)) :
    ∃ content, tree.find path = .ok (.file place content) ∧
      text = String.ofList (normalizeLines content.toList) := by
  rw [read] at h
  split at h
  · rename_i place' content hfind
    cases h
    exact ⟨content, hfind, rfl⟩
  all_goals cases h

/-- A place holds one text, by whatever path it is read. -/
lemma text_eq_of_read {path path' : Path} {place : Location} {text text' : String}
    (h : tree.read path = .ok (.file place text)) (h' : tree.read path' = .ok (.file place text')) :
    text = text' := by
  obtain ⟨content, hfind, rfl⟩ := find_of_read h
  obtain ⟨content', hfind', rfl⟩ := find_of_read h'
  have hsame := (file?_of_find hfind).symm.trans (file?_of_find hfind')
  rw [Option.some.inj hsame]

lemma walk_parent_of_read {path : Path} {place : Location} {text : String}
    (h : tree.read path = .ok (.file place text)) :
    tree.walk path.parent.names (tree.start path.parent.root) = .ok (.directory place.dropLast) := by
  obtain ⟨content, hfind, -⟩ := find_of_read h
  have hwalk := (walk_of_find hfind).2
  obtain ⟨d, hstart⟩ : ∃ d, tree.start path.root = .directory d := by
    cases path.root <;> exact ⟨_, rfl⟩
  rw [hstart] at hwalk
  show tree.walk path.names.dropLast (tree.start path.root) = _
  rw [hstart]
  exact walk_parent hwalk

/-! ## Looking for files -/

/-- Whether a name on a path holds a NUL character, so that the path leads nowhere. -/
def hasNull (path : Path) : Bool := path.names.any (·.toList.contains '\x00')

lemma contains_join (names : List String) :
    (Text.join "/" names).toList.contains '\x00' = names.any (·.toList.contains '\x00') := by
  induction names with
  | nil => simp
  | cons name names ih =>
      cases names with
      | nil => simp
      | cons next names =>
          have hslash : "/".toList.contains '\x00' = false := by decide
          rw [Text.join_cons_cons, String.toList_append, String.toList_append, List.contains_append,
            List.contains_append, ih, hslash, Bool.or_false]
          rfl

lemma contains_render (path : Path) : path.render.toList.contains '\x00' = hasNull path := by
  rw [hasNull, ← contains_join, Path.render]
  split
  · split_ifs with hempty
    · rw [List.isEmpty_iff.1 hempty]
      decide
    · rfl
  · rw [String.toList_append, List.contains_append, Bool.or_eq_right_iff_imp]
    exact fun h => absurd h (by decide)
  · rw [String.toList_append, List.contains_append, Bool.or_eq_right_iff_imp]
    exact fun h => absurd h (by decide)

lemma isFile_eq_ok {path : Path} {answer : Bool} (h : tree.isFile path = .ok answer) :
    answer = true ↔ ∃ place content, tree.find path = .ok (.file place content) := by
  rw [isFile] at h
  split at h
  · rename_i place content hfind
    cases h
    exact ⟨fun _ => ⟨place, content, hfind⟩, fun _ => rfl⟩
  · cases h
  · rename_i hother _
    cases h
    exact ⟨fun h => (Bool.false_ne_true h).elim, fun ⟨place, content, hfind⟩ =>
      (hother place content hfind).elim⟩

/-- A path about which it can be said whether it leads to a file is either void or followed. -/
lemma find_of_isFile {path : Path} {answer : Bool} (h : tree.isFile path = .ok answer) :
    (hasNull path = true ∧ answer = false) ∨
      (hasNull path = false ∧
        tree.find path = tree.walk path.names (tree.start path.root)) := by
  rw [isFile, find, textFault?, contains_render] at h
  rw [find, textFault?, contains_render]
  cases hnull : hasNull path with
  | true =>
      rw [hnull] at h
      cases h
      exact .inl ⟨rfl, rfl⟩
  | false =>
      rw [hnull] at h
      simp only [Bool.false_eq_true, if_false] at h ⊢
      split_ifs at h with hlong
      rw [if_neg hlong]
      exact .inr ⟨trivial, rfl⟩

/-- Two paths that lead to one place are files or not alike, unless the question fails. -/
lemma isFile_congr {path path' : Path} {answer answer' : Bool}
    (hwalk : tree.walk path.names (tree.start path.root)
      = tree.walk path'.names (tree.start path'.root))
    (hnull : hasNull path = hasNull path') (h : tree.isFile path = .ok answer)
    (h' : tree.isFile path' = .ok answer') :
    answer = answer' ∧ (answer = true → tree.read path = tree.read path') := by
  rcases find_of_isFile h with ⟨hvoid, rfl⟩ | ⟨hsound, hfind⟩
  · rcases find_of_isFile h' with ⟨-, rfl⟩ | ⟨hsound', -⟩
    · exact ⟨rfl, fun h => by cases h⟩
    · rw [← hnull, hvoid] at hsound'
      cases hsound'
  · rcases find_of_isFile h' with ⟨hvoid', -⟩ | ⟨-, hfind'⟩
    · rw [← hnull, hsound] at hvoid'
      cases hvoid'
    · have hsame : tree.find path = tree.find path' := by rw [hfind, hfind', hwalk]
      refine ⟨?_, fun htrue => ?_⟩
      · rw [Bool.eq_iff_iff, isFile_eq_ok h, isFile_eq_ok h', hsame]
      · obtain ⟨place, content, hfile⟩ := (isFile_eq_ok h).1 htrue
        rw [read, read, ← hsame, hfile]

lemma hasNull_parent_of_read {path : Path} {place : Location} {text : String}
    (h : tree.read path = .ok (.file place text)) : hasNull path.parent = false := by
  obtain ⟨content, hfind, -⟩ := find_of_read h
  have hfault := (walk_of_find hfind).1
  have hpath : hasNull path = false := by
    rw [textFault?, contains_render] at hfault
    cases hnull : hasNull path with
    | false => rfl
    | true => rw [hnull] at hfault; cases hfault
  rw [hasNull, List.any_eq_false] at hpath ⊢
  exact fun name hname => hpath name (List.mem_of_mem_dropLast hname)

end Tree

end Files

namespace Problem

open Files Format

variable {tree : Tree} {places : Places}

/-- Exchanging a candidate for another path to the same place changes nothing about what is found,
unless the search fails. -/
lemma read_eq_of_firstFile {name : String} {front back : List Path} {path path' found found' : Path}
    (hsame : ∀ answer answer', tree.isFile path = .ok answer → tree.isFile path' = .ok answer' →
      answer = answer' ∧ (answer = true → tree.read path = tree.read path'))
    (h : firstFile tree name (front ++ path :: back) = .ok found)
    (h' : firstFile tree name (front ++ path' :: back) = .ok found') :
    tree.read found = tree.read found' := by
  induction front with
  | nil =>
      rw [List.nil_append, firstFile] at h h'
      cases hask : tree.isFile path with
      | error e => rw [hask] at h; cases h
      | ok answer =>
          cases hask' : tree.isFile path' with
          | error e => rw [hask'] at h'; cases h'
          | ok answer' =>
              obtain ⟨rfl, hread⟩ := hsame answer answer' hask hask'
              rw [hask] at h
              rw [hask'] at h'
              cases answer with
              | true =>
                  cases h
                  cases h'
                  exact hread rfl
              | false => rw [Except.ok.inj (h.symm.trans h')]
  | cons first front ih =>
      rw [List.cons_append, firstFile] at h h'
      cases hask : tree.isFile first with
      | error e => rw [hask] at h; cases h
      | ok answer =>
          rw [hask] at h h'
          cases answer with
          | true => rw [Except.ok.inj (h.symm.trans h')]
          | false => exact ih h h'

/-- A name is followed alike from any two paths to one file. -/
lemma walk_append_of_read (name : Path) {path path' : Path} {place : Location} {text text' : String}
    (h : tree.read path = .ok (.file place text)) (h' : tree.read path' = .ok (.file place text')) :
    let inner := path.parent.append name
    let inner' := path'.parent.append name
    tree.walk inner.names (tree.start inner.root) = tree.walk inner'.names (tree.start inner'.root)
      ∧ Tree.hasNull inner = Tree.hasNull inner' := by
  intro inner inner'
  by_cases hroot : name.root = .here
  · have hinner : inner = { path.parent with names := path.parent.names ++ name.names } :=
      if_pos hroot
    have hinner' : inner' = { path'.parent with names := path'.parent.names ++ name.names } :=
      if_pos hroot
    rw [hinner, hinner', Tree.walk_append, Tree.walk_append, Tree.walk_parent_of_read h,
      Tree.walk_parent_of_read h']
    refine ⟨rfl, ?_⟩
    have hparent := Tree.hasNull_parent_of_read h
    have hparent' := Tree.hasNull_parent_of_read h'
    rw [Tree.hasNull] at hparent hparent'
    rw [Tree.hasNull, Tree.hasNull, List.any_append, List.any_append, hparent, hparent']
  · have hinner : inner = name := if_neg hroot
    have hinner' : inner' = name := if_neg hroot
    rw [hinner, hinner']
    exact ⟨rfl, rfl⟩

/-- **The file that an inclusion names depends on the including file only**, not on the path by which
that was opened, as long as both searches succeed. -/
theorem read_eq_of_locate {path path' found found' : Path} {place : Location}
    {text text' name : String} (h : tree.read path = .ok (.file place text))
    (h' : tree.read path' = .ok (.file place text'))
    (hfound : locate tree places (some path.parent) name = .ok found)
    (hfound' : locate tree places (some path'.parent) name = .ok found') :
    tree.read found = tree.read found' := by
  have hshape : ∀ base : Path, candidates places (some base) name
      = ((places.chosen.bind Path.directory?).toList
          ++ (places.environment.bind Path.directory?).toList).map (·.append (Path.ofText name))
        ++ base.append (Path.ofText name) :: [Path.ofText name] := by
    intro base
    simp [candidates]
  rw [locate, hshape] at hfound hfound'
  obtain ⟨hwalk, hnull⟩ := walk_append_of_read (Path.ofText name) h h'
  exact read_eq_of_firstFile (fun _ _ => Tree.isFile_congr hwalk hnull) hfound hfound'

end Problem

end GivenClause
