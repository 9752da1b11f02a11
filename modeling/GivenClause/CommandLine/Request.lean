import GivenClause.CommandLine.Option
import GivenClause.Problem.Sample
import GivenClause.Seconds.Reader

/-!
# Requests

What a command line asks for.  The words are taken from left to right: an option with the value it
needs, several short options written as one word, or the name of the problem file, of which there is
at most one.  What is left over is an error, and of several errors the first one counts.

Two dashes as the value of an option leave it blank.  Where a name or a number is needed, a blank is
accepted in its place, but it cannot be put to use.
-/

namespace GivenClause.CommandLine

open Problem Search

/-- The value of an option. -/
inductive Value (α : Type) where
  | blank
  | given (value : α)
  deriving Repr, DecidableEq

namespace Value

variable {α : Type}

/-- Read a value that may be left blank. -/
def read? (read : String → Option α) (text : String) : Option (Value α) :=
  if text = "--" then some .blank else (read text).map .given

/-- The value, unless it is left blank. -/
def toOption : Value α → Option α
  | .blank => none
  | .given value => some value

end Value

/-- What to do, as far as the command line says it. -/
structure Request where
  file : Option String := none
  sample : Option (Value Sample) := none
  switches : List Switch := []
  schedule : Value Schedule := .given .standard
  limit : Option (Value Seconds) := none
  includeDirectory : Option String := none
  compare : Bool := false
  dot : Option String := none
  save : Option String := none
  listSamples : Bool := false
  verbose : Bool := false
  quiet : Bool := false
  deriving Repr, DecidableEq

/-- Why a command line is refused. -/
inductive UsageError where
  | ambiguous (e : Ambiguous)
  /-- A value was attached to an option that takes none. -/
  | unwantedValue (flag : Flag) (value : String)
  | missingValue (flag : Flag)
  | notANumber (flag : Flag) (value : String)
  | invalidChoice (flag : Flag) (value : String) (choices : List String)
  /-- Two options exclude each other. -/
  | conflict (flag other : Flag)
  | leftOver (words : List String)
  | noProblem
  deriving Repr, DecidableEq

/-- A complaint about an option. -/
def about (flag : Flag) (complaint : String) : String :=
  "argument " ++ flag.label ++ ": " ++ complaint

/-- The wording of an error. -/
def UsageError.message : UsageError → String
  | .ambiguous e =>
    "ambiguous option: " ++ e.text ++ " could match " ++ Text.join ", " e.spellings
  | .unwantedValue flag value => about flag ("ignored explicit argument " ++ Text.quoted value)
  | .missingValue flag => about flag "expected one argument"
  | .notANumber flag value => about flag ("invalid float value: " ++ Text.quoted value)
  | .invalidChoice flag value choices =>
    about flag <|
      "invalid choice: " ++ Text.quoted value ++ " (choose from "
        ++ Text.join ", " (choices.map Text.quoted) ++ ")"
  | .conflict flag other => about flag ("not allowed with argument " ++ other.label)
  | .leftOver words => "unrecognized arguments: " ++ Text.join " " words
  | .noProblem => "give a problem file or --problem NAME"

/-- Why a command line asks for no search. -/
inductive Stop where
  /-- Help is wanted. -/
  | help
  | refused (e : UsageError)
  deriving Repr, DecidableEq

/-! ## Taking options -/

/-- A text as a value; a blank counts as none. -/
def textValue (value : String) : Option String := (Value.read? some value).bind Value.toOption

/-- Take an option.  An option that needs no value ignores the one given. -/
def Request.take (r : Request) (flag : Flag) (value : String) : Except Stop Request :=
  match flag with
  | .help => .error .help
  | .sample =>
    match Value.read? (fun name => (Sample.named name).toOption) value with
    | some sample => .ok { r with sample := some sample }
    | none => .error (.refused (.invalidChoice flag value Sample.names))
  | .switch switch => .ok { r with switches := r.switches ++ [switch] }
  | .schedule =>
    match Value.read? (fun name => (Schedule.named name).toOption) value with
    | some schedule => .ok { r with schedule }
    | none => .error (.refused (.invalidChoice flag value Schedule.names))
  | .timeLimit =>
    match Value.read? Seconds.ofText? value with
    | some limit => .ok { r with limit := some limit }
    | none => .error (.refused (.notANumber flag value))
  | .includeDirectory => .ok { r with includeDirectory := textValue value }
  | .compare => .ok { r with compare := true }
  | .dot => .ok { r with dot := textValue value }
  | .save => .ok { r with save := textValue value }
  | .listSamples => .ok { r with listSamples := true }
  | .verbose =>
    if r.quiet then .error (.refused (.conflict .verbose .quiet))
    else .ok { r with verbose := true }
  | .quiet =>
    if r.verbose then .error (.refused (.conflict .quiet .verbose))
    else .ok { r with quiet := true }

/-- Take several options, one after the other. -/
def Request.takeAll (r : Request) (options : List (Flag × String)) : Except Stop Request :=
  options.foldlM (fun r (flag, value) => r.take flag value) r

/-- The options that one word stands for, and the option that still needs the next word as its value.
A short option without a value may be followed by further short options in the same word. -/
structure Cluster where
  complete : List (Flag × String)
  waiting : Option Flag := none
  deriving Repr, DecidableEq

/-- An option that takes no value. -/
def bare (flag : Flag) : Flag × String := (flag, "")

/-- The options in a short option that takes no value and the characters behind it. -/
def clusterFrom (flag : Flag) : List Char → Except UsageError Cluster
  | [] => .ok { complete := [bare flag] }
  | c :: rest =>
    match Flag.ofSpelling? (String.ofList ['-', c]) with
    | none => .error (.unwantedValue flag (String.ofList (c :: rest)))
    | some next =>
      if next.takesValue then
        .ok (if rest.isEmpty then { complete := [bare flag], waiting := some next }
          else { complete := [bare flag, (next, String.ofList rest)] })
      else
        (clusterFrom next rest).map fun cluster =>
          { cluster with complete := bare flag :: cluster.complete }

/-- A short spelling has one dash. -/
def isShort (spelling : String) : Bool := spelling.toList.tail.head? ≠ some '-'

/-- The options that a word stands for. -/
def Use.cluster (use : Use) : Except UsageError Cluster :=
  match use.value with
  | none =>
    .ok (if use.flag.takesValue then { complete := [], waiting := some use.flag }
      else { complete := [bare use.flag] })
  | some value =>
    if use.flag.takesValue then .ok { complete := [(use.flag, value)] }
    else if isShort use.spelling && value ≠ "" then clusterFrom use.flag value.toList
    else .error (.unwantedValue use.flag value)

/-! ## Taking words -/

/-- A command line up to some word: the request so far, whether the place of the problem file is
taken, and the words that fit nowhere, the latest first. -/
structure Progress where
  request : Request := {}
  fileTaken : Bool := false
  leftOver : List String := []

namespace Progress

/-- Note a word that fits nowhere. -/
def skip (p : Progress) (text : String) : Progress := { p with leftOver := text :: p.leftOver }

/-- Take the name of the problem file, if there is one. -/
def takeFile (p : Progress) (file : Option String) : Progress :=
  { p with fileTaken := true, request := { p.request with file } }

/-- The request when all words are taken. -/
def finish (p : Progress) : Except Stop Request :=
  if p.leftOver.isEmpty then .ok p.request
  else .error (.refused (.leftOver p.leftOver.reverse))

/-- Take the words one after the other.  A divider next to the problem file goes with it. -/
def takeWords (p : Progress) : List Word → Except Stop Request
  | [] => p.finish
  | .unknown text :: rest => (p.skip text).takeWords rest
  | .option use :: rest =>
    match use.cluster with
    | .error e => .error (.refused e)
    | .ok { complete, waiting := none } => do
      let request ← p.request.takeAll complete
      takeWords { p with request } rest
    | .ok { complete, waiting := some flag } =>
      match rest with
      | .argument value :: rest => do
        let request ← p.request.takeAll (complete ++ [(flag, value)])
        takeWords { p with request } rest
      | _ => .error (.refused (.missingValue flag))
  | .argument text :: rest =>
    if p.fileTaken then (p.skip text).takeWords rest
    else
      match rest with
      | .divider :: rest => (p.takeFile (some text)).takeWords rest
      | rest => (p.takeFile (some text)).takeWords rest
  | .divider :: rest =>
    if p.fileTaken then (p.skip "--").takeWords rest
    else
      match rest with
      | .argument text :: rest => (p.takeFile (some text)).takeWords rest
      | rest => (p.takeFile none).takeWords rest
termination_by words => words.length

end Progress

/-- Read a command line. -/
def Request.ofWords (words : List String) : Except Stop Request :=
  match classifyAll words with
  | .error e => .error (.refused (.ambiguous e))
  | .ok words => Progress.takeWords {} words

end GivenClause.CommandLine
