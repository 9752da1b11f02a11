import GivenClause.Archive
import GivenClause.Filter

/-!
# Ancestry

All clauses that a clause was derived from, directly or through others.  The support links are
followed from the clause itself into the archive; a link to a name that was never recorded breaks
the derivation.
-/

namespace GivenClause

/-- A clause names a premise that was never recorded. -/
structure MissingPremise where
  conclusion : String
  premise : String
  deriving Repr, DecidableEq

/-- The wording of the error. -/
def MissingPremise.message (e : MissingPremise) : String :=
  e.conclusion ++ " is supported by " ++ e.premise ++ ", which was never processed"

namespace Archive

/-- The recorded clauses that are not among those found. -/
def unfound (archive : Archive) (found : List Clause) : List Clause :=
  archive.entries.filter fun c => !found.any fun d => d.name = c.name

/-- The premises of a clause that are not found yet, each once, in the order of the links. -/
def newPremises (archive : Archive) (conclusion : String) (found : List Clause) :
    List String → Except MissingPremise (List Clause)
  | [] => .ok []
  | premise :: rest =>
    if found.any fun d => d.name = premise then newPremises archive conclusion found rest
    else
      match archive.find? premise with
      | none => .error ⟨conclusion, premise⟩
      | some d => do
        let more ← newPremises archive conclusion (found ++ [d]) rest
        return d :: more

/-- Each premise found is one recorded clause fewer to find. -/
theorem length_unfound_newPremises {archive : Archive} {conclusion : String}
    {found new : List Clause} {support : List String}
    (h : newPremises archive conclusion found support = .ok new) :
    (archive.unfound (found ++ new)).length + new.length ≤ (archive.unfound found).length := by
  induction support generalizing found new with
  | nil =>
    simp only [newPremises, Except.ok.injEq] at h
    simp [← h]
  | cons premise rest ih =>
    simp only [newPremises] at h
    split at h
    · exact ih h
    · rename_i hfound
      split at h
      · cases h
      · rename_i d hd
        cases hmore : newPremises archive conclusion (found ++ [d]) rest with
        | error e => simp [hmore, bind, Except.bind] at h
        | ok more =>
          simp only [hmore, bind, Except.bind, pure, Except.pure, Except.ok.injEq] at h
          subst h
          have hname := name_of_find? hd
          have step : (archive.unfound (found ++ [d])).length < (archive.unfound found).length := by
            refine length_filter_lt (fun y _ hy => ?_) (find?_mem hd) ?_ ?_
            · simp only [List.any_append, Bool.not_or, Bool.and_eq_true] at hy
              exact hy.1
            · simpa [hname] using hfound
            · simp
          have := ih hmore
          simp only [List.append_assoc, List.cons_append, List.nil_append, List.length_cons] at this ⊢
          omega

/-- Follow the support links of the pending clauses, the one found last first. -/
def explore (archive : Archive) (found pending : List Clause) :
    Except MissingPremise (List Clause) :=
  match pending with
  | [] => .ok found
  | c :: rest =>
    match _new : archive.newPremises c.name found c.support with
    | .error e => .error e
    | .ok new => explore archive (found ++ new) (new.reverse ++ rest)
termination_by pending.length + (archive.unfound found).length
decreasing_by
  have := length_unfound_newPremises _new
  simp only [List.length_append, List.length_reverse, List.length_cons]
  omega

/-- A clause and all clauses it was derived from, in the order found.  The clause itself stands for
its name. -/
def ancestry (archive : Archive) (c : Clause) : Except MissingPremise (List Clause) :=
  archive.explore [c] [c]

end Archive

end GivenClause
