import GivenClause.Text.Layout

/-!
# First-order terms

A term is a variable or a function symbol applied to arguments; a symbol without arguments is a
constant.  Atoms are terms too (a predicate symbol over its arguments), so one set of operations
serves both.

* `Term.vars` lists the variable occurrences from left to right.
* `Term.bind` replaces every variable at once; `Term.replace` is the case of a single variable.
* `Term.weight` is the symbol count that the search uses to prefer light clauses.

Each operation comes in two halves, one for a term and one for an argument list, and the second
half is `List.map` or `List.flatMap` of the first (`bindList_eq_map` and its siblings).
-/

namespace GivenClause

/-- A variable, or a function symbol with its arguments. -/
inductive Term where
  | var (name : String)
  | app (fn : String) (args : List Term)
  deriving Repr, Inhabited

namespace Term

/-- **Induction on terms**: an application may assume the property for each of its arguments. -/
@[induction_eliminator]
theorem induction {P : Term → Prop} (var : ∀ x, P (.var x))
    (app : ∀ f args, (∀ t ∈ args, P t) → P (.app f args)) (t : Term) : P t := by
  refine @Term.rec P (fun ts => ∀ t ∈ ts, P t) var ?_ ?_ ?_ t
  · exact app
  · intro t ht
    cases ht
  · intro s ss hs hss t ht
    cases ht with
    | head => exact hs
    | tail _ h => exact hss t h

/-! ## Equality -/

mutual

/-- Terms are compared symbol by symbol. -/
def decEq : (s t : Term) → Decidable (s = t)
  | .var x, .var y =>
    if h : x = y then isTrue (congrArg Term.var h) else isFalse fun e => h (Term.var.inj e)
  | .var _, .app _ _ => isFalse nofun
  | .app _ _, .var _ => isFalse nofun
  | .app f ss, .app g ts =>
    if h : f = g then
      match decEqList ss ts with
      | isTrue h' => isTrue (by rw [h, h'])
      | isFalse h' => isFalse fun e => h' (Term.app.inj e).2
    else isFalse fun e => h (Term.app.inj e).1

/-- Argument lists are compared term by term. -/
def decEqList : (ss ts : List Term) → Decidable (ss = ts)
  | [], [] => isTrue rfl
  | [], _ :: _ => isFalse nofun
  | _ :: _, [] => isFalse nofun
  | s :: ss, t :: ts =>
    match decEq s t with
    | isTrue h =>
      match decEqList ss ts with
      | isTrue h' => isTrue (by rw [h, h'])
      | isFalse h' => isFalse fun e => h' (List.cons.inj e).2
    | isFalse h => isFalse fun e => h (List.cons.inj e).1

end

instance : DecidableEq Term := decEq

/-! ## Variables -/

mutual

/-- The variable occurrences of a term from left to right, repetitions kept. -/
def vars : Term → List String
  | .var x => [x]
  | .app _ args => varsList args

/-- The variable occurrences of an argument list. -/
def varsList : List Term → List String
  | [] => []
  | t :: ts => vars t ++ varsList ts

end

theorem varsList_eq_flatMap (ts : List Term) : varsList ts = ts.flatMap vars := by
  induction ts with
  | nil => rfl
  | cons t ts ih => simp [varsList, ih]

@[simp] theorem vars_var (x : String) : (Term.var x).vars = [x] := rfl

@[simp] theorem vars_app (f : String) (args : List Term) :
    (Term.app f args).vars = args.flatMap vars := by
  rw [vars, varsList_eq_flatMap]

/-- A term without variables. -/
def isGround (t : Term) : Bool := t.vars.isEmpty

/-- Whether the variable `x` occurs in a term. -/
def occurs (x : String) (t : Term) : Bool := t.vars.contains x

/-- A variable, as opposed to an application. -/
def isVariable : Term → Bool
  | .var _ => true
  | .app _ _ => false

/-- An application to at least one argument. -/
def isCompound : Term → Bool
  | .var _ => false
  | .app _ args => !args.isEmpty

/-- The number of arguments; a variable has no arity. -/
def arity? : Term → Option Nat
  | .var _ => none
  | .app _ args => some args.length

/-! ## Replacing variables -/

mutual

/-- Replace every variable `x` by `σ x`, all at once. -/
def bind (σ : String → Term) : Term → Term
  | .var x => σ x
  | .app f args => .app f (bindList σ args)

/-- Replace every variable in an argument list. -/
def bindList (σ : String → Term) : List Term → List Term
  | [] => []
  | t :: ts => bind σ t :: bindList σ ts

end

theorem bindList_eq_map (σ : String → Term) (ts : List Term) :
    bindList σ ts = ts.map (bind σ) := by
  induction ts with
  | nil => rfl
  | cons t ts ih => simp [bindList, ih]

@[simp] theorem bind_var (σ : String → Term) (x : String) : (Term.var x).bind σ = σ x := rfl

@[simp] theorem bind_app (σ : String → Term) (f : String) (args : List Term) :
    (Term.app f args).bind σ = .app f (args.map (bind σ)) := by
  rw [bind, bindList_eq_map]

/-- Only the variables that occur matter to `bind`. -/
theorem bind_congr {σ τ : String → Term} {t : Term} (h : ∀ x ∈ t.vars, σ x = τ x) :
    t.bind σ = t.bind τ := by
  induction t with
  | var x => exact h x (by simp)
  | app f args ih =>
    simp only [bind_app, Term.app.injEq, true_and]
    refine List.map_congr_left fun t ht => ih t ht fun x hx => h x ?_
    simp only [vars_app, List.mem_flatMap]
    exact ⟨t, ht, hx⟩

/-- Replacing every variable by itself changes nothing. -/
@[simp] theorem bind_pure (t : Term) : t.bind .var = t := by
  induction t with
  | var x => rfl
  | app f args ih =>
    simp only [bind_app, Term.app.injEq, true_and]
    exact (List.map_congr_left ih).trans (List.map_id' _)

/-- Two replacements in a row are one. -/
theorem bind_bind (σ τ : String → Term) (t : Term) :
    (t.bind σ).bind τ = t.bind fun x => (σ x).bind τ := by
  induction t with
  | var x => rfl
  | app f args ih =>
    simp only [bind_app, List.map_map, Term.app.injEq, true_and]
    exact List.map_congr_left ih

/-- The variables after a replacement are those of the replaced occurrences. -/
theorem vars_bind (σ : String → Term) (t : Term) :
    (t.bind σ).vars = t.vars.flatMap fun x => (σ x).vars := by
  induction t with
  | var x => simp
  | app f args ih =>
    simp only [bind_app, vars_app, List.flatMap_map, List.flatMap_assoc]
    induction args with
    | nil => rfl
    | cons t ts ihts =>
      rw [List.flatMap_cons, List.flatMap_cons, ih t (by simp)]
      rw [ihts fun s hs => ih s (List.mem_cons_of_mem t hs)]

/-- Replace the single variable `x` by `t`, and leave the others. -/
def replace (u : Term) (x : String) (t : Term) : Term :=
  u.bind fun y => if y = x then t else .var y

/-! ## Size and weight -/

mutual

/-- The number of symbols in a term. -/
def size : Term → Nat
  | .var _ => 1
  | .app _ args => sizeList args + 1

/-- The number of symbols in an argument list. -/
def sizeList : List Term → Nat
  | [] => 0
  | t :: ts => size t + sizeList ts

end

theorem size_pos (t : Term) : 0 < t.size := by
  cases t <;> simp [size]

mutual

/-- Symbol count with `perSymbol` for each function symbol and `perVariable` for each variable. -/
def weight (perSymbol perVariable : Int) : Term → Int
  | .var _ => perVariable
  | .app _ args => perSymbol + weightList perSymbol perVariable args

/-- The weights of an argument list, added up. -/
def weightList (perSymbol perVariable : Int) : List Term → Int
  | [] => 0
  | t :: ts => weight perSymbol perVariable t + weightList perSymbol perVariable ts

end

/-! ## Positions -/

/-- The subterm at a position, a path of argument indices counted from zero.  `none` if the path
leaves the term. -/
def subterm? : Term → List Int → Option Term
  | t, [] => some t
  | .var _, _ :: _ => none
  | .app _ args, i :: rest =>
    if i < 0 then none else
      match args[i.toNat]? with
      | some t => subterm? t rest
      | none => none

/-! ## Text -/

mutual

/-- A term in the clause format: `f(X,a)`, and a constant without brackets. -/
def render : Term → String
  | .var x => x
  | .app f [] => f
  | .app f (t :: ts) => f ++ "(" ++ Text.join "," (render t :: renderList ts) ++ ")"

/-- The texts of an argument list. -/
def renderList : List Term → List String
  | [] => []
  | t :: ts => render t :: renderList ts

end

theorem renderList_eq_map (ts : List Term) : renderList ts = ts.map render := by
  induction ts with
  | nil => rfl
  | cons t ts ih => simp [renderList, ih]

end Term

end GivenClause
