import GivenClause.Search.State
import GivenClause.Text.Digit

/-!
# Options of the command line

An option has one or two spellings and may take a value.  `classify` decides what a word of the
command line is, before any word is taken:

* a word without a leading dash, a lone dash, a negative number, or a word with a blank in it is an
  argument;
* two dashes divide options from the arguments that follow;
* everything else is an option: spelled out, abbreviated so that only one option is meant, or with its
  value attached.
-/

namespace GivenClause.CommandLine

/-- The options. -/
inductive Flag where
  | help
  | sample
  | switch (s : Search.Switch)
  | schedule
  | timeLimit
  | includeDirectory
  | compare
  | dot
  | save
  | listSamples
  | verbose
  | quiet
  deriving Repr, DecidableEq

namespace Flag

/-- All options, in the order in which they are listed. -/
def all : List Flag :=
  [.help, .sample, .switch .deleteTautologies, .switch .forwardSubsumption,
    .switch .backwardSubsumption, .switch .occursCheck, .schedule, .timeLimit, .includeDirectory,
    .compare, .dot, .save, .listSamples, .verbose, .quiet]

/-- The spellings of an option. -/
def spellings : Flag → List String
  | .help => ["-h", "--help"]
  | .sample => ["--problem"]
  | .switch .deleteTautologies => ["-t", "--delete-tautologies"]
  | .switch .forwardSubsumption => ["-f", "--forward-subsumption"]
  | .switch .backwardSubsumption => ["-b", "--backward-subsumption"]
  | .switch .occursCheck => ["--occurs-check"]
  | .schedule => ["-H", "--heuristic"]
  | .timeLimit => ["--timeout"]
  | .includeDirectory => ["--include"]
  | .compare => ["--compare"]
  | .dot => ["--dot"]
  | .save => ["--save"]
  | .listSamples => ["--list-problems"]
  | .verbose => ["-v", "--verbose"]
  | .quiet => ["--quiet"]

/-- Whether an option takes a value. -/
def takesValue : Flag → Bool
  | .sample | .schedule | .timeLimit | .includeDirectory | .dot | .save => true
  | _ => false

/-- An option in a message. -/
def label (f : Flag) : String := Text.join "/" f.spellings

/-- The option of a spelling. -/
def ofSpelling? (spelling : String) : Option Flag :=
  all.find? fun f => f.spellings.contains spelling

end Flag

/-- An option as it was written: in which spelling, and with which value attached to it. -/
structure Use where
  flag : Flag
  spelling : String
  value : Option String := none
  deriving Repr, DecidableEq

/-- What a word of the command line is. -/
inductive Word where
  | argument (text : String)
  /-- The two dashes behind which every word is an argument. -/
  | divider
  | option (use : Use)
  /-- A word that looks like an option and is none. -/
  | unknown (text : String)
  deriving Repr, DecidableEq

/-- An abbreviation that stands for several options. -/
structure Ambiguous where
  text : String
  spellings : List String
  deriving Repr, DecidableEq

/-- A word before and behind its first equality sign. -/
def splitValue (text : List Char) : List Char × Option (List Char) :=
  match text.dropWhile (· ≠ '=') with
  | [] => (text, none)
  | _ :: value => (text.takeWhile (· ≠ '='), some value)

/-- A word before and behind its first equality sign, as texts. -/
def stemAndValue (text : String) : String × Option String :=
  let (stem, value) := splitValue text.toList
  (String.ofList stem, value.map String.ofList)

/-- The options whose long spelling begins with a word. -/
def completions (text : String) : List Use :=
  let (stem, value) := stemAndValue text
  Flag.all.flatMap fun flag =>
    (flag.spellings.filter fun spelling => stem.toList.isPrefixOf spelling.toList).map
      fun spelling => { flag, spelling, value }

/-- The options that a word abbreviates: a beginning of a long spelling, or a short spelling with more
characters behind it. -/
def abbreviations (text : String) : List Use :=
  match text.toList with
  | '-' :: '-' :: _ => completions text
  | '-' :: c :: rest =>
    let spelling := String.ofList ['-', c]
    match Flag.ofSpelling? spelling with
    | some flag => [{ flag, spelling, value := some (String.ofList rest) }]
    | none => []
  | _ => []

/-- The option that a word spells out, with or without a value behind an equality sign. -/
def spelledOut? (text : String) : Option Use :=
  match Flag.ofSpelling? text with
  | some flag => some { flag, spelling := text }
  | none =>
    match stemAndValue text with
    | (stem, some value) =>
      (Flag.ofSpelling? stem).map fun flag => { flag, spelling := stem, value := some value }
    | (_, none) => none

/-- A decimal digit of any script. -/
def isDecimal (c : Char) : Bool := (Text.digitValue? c).isSome

/-- One or more digits. -/
def isNatural (text : List Char) : Bool := !text.isEmpty && text.all isDecimal

/-- Without the line break at the end, if there is one. -/
def dropLineBreak (text : List Char) : List Char :=
  if text.getLast? = some '\n' then text.dropLast else text

/-- A negative decimal number, with or without a point. -/
def isNegativeNumber (text : String) : Bool :=
  match text.toList with
  | '-' :: rest =>
    let rest := dropLineBreak rest
    isNatural rest ||
      match rest.dropWhile isDecimal with
      | '.' :: places => isNatural places
      | _ => false
  | _ => false

/-- What a word in front of the divider is. -/
def classify (text : String) : Except Ambiguous Word :=
  if text.toList.head? ≠ some '-' then .ok (.argument text)
  else
    match spelledOut? text with
    | some use => .ok (.option use)
    | none =>
      if text = "-" then .ok (.argument text)
      else
        match abbreviations text with
        | [use] => .ok (.option use)
        | [] =>
          .ok <|
            if isNegativeNumber text || text.toList.contains ' ' then .argument text
            else .unknown text
        | uses => .error ⟨text, uses.map Use.spelling⟩

/-- What the words of a command line are. -/
def classifyAll : List String → Except Ambiguous (List Word)
  | [] => .ok []
  | text :: rest =>
    if text = "--" then .ok (.divider :: rest.map .argument)
    else do
      let word ← classify text
      let words ← classifyAll rest
      return word :: words

end GivenClause.CommandLine
