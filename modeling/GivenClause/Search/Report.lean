import GivenClause.Derivation
import GivenClause.Json
import GivenClause.Search.Run

/-!
# Reporting on a search

The statistics and the final clause sets as comment lines, the derivation of the contradiction, and
the whole report as a JSON document.
-/

namespace GivenClause.Search

/-- Why there is no derivation to show. -/
inductive ProofError where
  | noRefutation
  | derivation (e : DerivationError)
  deriving Repr, DecidableEq

/-- The wording of the error. -/
def ProofError.message : ProofError → String
  | .noRefutation => "no refutation to reconstruct"
  | .derivation e => e.message

/-- One step of the proof in a report. -/
structure ReportStep where
  name : String
  clause : String
  justification : String
  deriving Repr, DecidableEq

/-- All there is to say about a search. -/
structure Report where
  status : Status
  schedule : String
  settings : Settings
  counts : Counts
  elapsed : Seconds
  proof : List ReportStep
  deriving Repr, DecidableEq

namespace State

/-- The derivation of a clause, or of the contradiction if none is given.  An empty clause is no
other contradiction than the one that was found. -/
def derivation (s : State) (c : Option Clause := none) : Except ProofError Derivation :=
  match (c.filter fun c => !c.isEmpty).or s.witness with
  | none => .error .noRefutation
  | some c => (Derivation.ofWitness s.archive c).mapError .derivation

/-- The report on a search. -/
def report (s : State) : Except ProofError Report := do
  let proof ←
    match s.witness with
    | none => pure []
    | some _ => do
      let d ← s.derivation
      pure (d.steps.map fun c => ⟨c.name, c.render, c.justification⟩)
  return {
    status := s.status, schedule := s.unprocessed.schedule.name, settings := s.settings,
    counts := s.counts, elapsed := s.elapsed, proof }

/-- The statistics as comment lines. -/
def statistics (s : State) : List String := [
  "# Initial clauses    : " ++ toString s.counts.initial,
  "# Processed clauses  : " ++ toString s.counts.processed,
  "# Factors computed   : " ++ toString s.counts.factors,
  "# Resolvents computed: " ++ toString s.counts.resolvents,
  "# Tautologies deleted: " ++ toString s.counts.tautologies,
  "# Forward subsumed   : " ++ toString s.counts.forwardSubsumed,
  "# Backward subsumed  : " ++ toString s.counts.backwardSubsumed,
  "# Elapsed time       : " ++ s.elapsed.fixed 3 ++ "s"]

/-- The clause sets a search ended with, as comment lines. -/
def summary (s : State) : List String :=
  ["# Final state: " ++ s.status.name ++ " (" ++ s.status.verdict ++ ")",
    "# Processed (" ++ toString s.processed.length ++ "):"]
    ++ s.processed.map (fun c => "#   " ++ c.render)
    ++ ["# Unprocessed (" ++ toString s.unprocessed.size ++ "):"]
    ++ s.unprocessed.items.map (fun c => "#   " ++ c.render)

end State

namespace Report

/-- A count as a JSON number. -/
def count (n : Nat) : Json := .number (toString n)

/-- The report as a JSON document. -/
def toJson (r : Report) : Json :=
  .object [
    ("status", .string r.status.name),
    ("szs_status", .string r.status.verdict),
    ("evaluation", .string r.schedule),
    ("params", .object (Switch.all.map fun switch =>
      (switch.name, .bool (r.settings.isOn switch)))),
    ("statistics", .object [
      ("initial_clauses", count r.counts.initial),
      ("processed_clauses", count r.counts.processed),
      ("factors_computed", count r.counts.factors),
      ("resolvents_computed", count r.counts.resolvents),
      ("tautologies_deleted", count r.counts.tautologies),
      ("forward_subsumed", count r.counts.forwardSubsumed),
      ("backward_subsumed", count r.counts.backwardSubsumed),
      ("elapsed_seconds", .number (r.elapsed.shortest 6))]),
    ("proof", .array (r.proof.map fun step =>
      .object [
        ("name", .string step.name),
        ("clause", .string step.clause),
        ("justification", .string step.justification)]))]

/-- The text of the report. -/
def render (r : Report) : String := r.toJson.render

end Report

end GivenClause.Search
