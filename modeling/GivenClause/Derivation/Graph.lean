import GivenClause.Archive

/-!
# Derivation graphs

A derivation graph has clause names as nodes and an edge from each premise to each conclusion.
`Graph.order` lists the nodes so that premises come before conclusions: of the nodes whose premises
are all placed, the one of least rank comes next, and among equal ranks the least name.  If no
node is ready although some are left, the graph has a cycle.

**What is assumed.**  Such a graph is meant for the graph library networkx.  That networkx keeps nodes and
links in the order in which they came up, and that its lexicographical topological sort is `Graph.order`,
its error included, is not proved anywhere: the definitions stand for it.
-/

namespace GivenClause

/-- Names and premise links `(premise, conclusion)`, each without repetitions, in the order in which
they came up. -/
structure Graph where
  nodes : List String := []
  links : List (String × String) := []
  deriving Repr, DecidableEq

/-- The links of a graph run in a circle. -/
structure Cyclic where
  deriving Repr, DecidableEq

/-- The wording of the error. -/
def Cyclic.message (_ : Cyclic) : String :=
  "Graph contains a cycle or graph changed during iteration"

namespace Graph

/-! ## Building -/

/-- Add a node, unless it is there. -/
def addNode (g : Graph) (name : String) : Graph :=
  if name ∈ g.nodes then g else { g with nodes := g.nodes ++ [name] }

/-- Add a link and its ends, unless they are there. -/
def addLink (g : Graph) (premise conclusion : String) : Graph :=
  let g := (g.addNode premise).addNode conclusion
  if (premise, conclusion) ∈ g.links then g
  else { g with links := g.links ++ [(premise, conclusion)] }

/-- Add a clause with the links from its support. -/
def addClause (g : Graph) (c : Clause) : Graph :=
  c.support.foldl (fun g premise => g.addLink premise c.name) (g.addNode c.name)

/-- The graph of a list of clauses. -/
def ofClauses (clauses : List Clause) : Graph := clauses.foldl addClause {}

/-- The links by premise, in node order. -/
def groupedLinks (g : Graph) : List (String × String) :=
  g.nodes.flatMap fun name => g.links.filter fun (premise, _) => premise = name

/-! ## Ordering -/

/-- All premises of a node are among those placed. -/
def isReady (g : Graph) (placed : List String) (name : String) : Bool :=
  g.links.all fun (premise, conclusion) => conclusion ≠ name || placed.contains premise

/-- The order among nodes that are ready. -/
def precedes (rank : String → Nat) (a b : String) : Bool :=
  rank a < rank b || (rank a == rank b && decide (a < b))

/-- The first of the least names. -/
def least (rank : String → Nat) : List String → Option String
  | [] => none
  | a :: rest =>
    match least rank rest with
    | none => some a
    | some b => if precedes rank b a then some b else some a

theorem least_mem {rank : String → Nat} {names : List String} {a : String}
    (h : least rank names = some a) : a ∈ names := by
  induction names generalizing a with
  | nil => simp [least] at h
  | cons b rest ih =>
    simp only [least] at h
    split at h
    · simp_all
    · rename_i c hc
      split at h
      · exact List.mem_cons_of_mem _ (ih (by simpa using hc.trans h))
      · simp_all

/-- Place the nodes that are left, one after the other. -/
def place (g : Graph) (rank : String → Nat) (placed left : List String) :
    Except Cyclic (List String) :=
  match _next : least rank (left.filter (g.isReady placed)) with
  | some name => place g rank (placed ++ [name]) (left.erase name)
  | none => if left.isEmpty then .ok placed else .error {}
termination_by left.length
decreasing_by
  have hmem := (List.mem_filter.1 (least_mem _next)).1
  have := List.length_pos_of_mem hmem
  rw [List.length_erase_of_mem hmem]
  omega

/-- The nodes with premises before conclusions, the least ready node first. -/
def order (g : Graph) (rank : String → Nat) : Except Cyclic (List String) :=
  g.place rank [] g.nodes

end Graph

end GivenClause
