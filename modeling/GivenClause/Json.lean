import GivenClause.Text.Layout
import GivenClause.Text.Quoted

/-!
# JSON documents

The report of a search is written as a JSON document: objects keep the order of their fields,
nested values are indented by two blanks a level, and the text is pure ASCII, a character beyond
the basic plane being written as its two surrogates.
-/

namespace GivenClause

/-- A JSON value.  A number is given by its text, since the places it shows are the writer's
choice. -/
inductive Json where
  | bool (value : Bool)
  | number (text : String)
  | string (value : String)
  | array (items : List Json)
  | object (fields : List (String × Json))

namespace Json

/-- A `\u` escape of one code unit. -/
def unitEscape (n : Nat) : List Char := '\\' :: 'u' :: Text.hex 4 n

/-- A character inside a JSON string. -/
def escape (c : Char) : List Char :=
  if c = '"' then ['\\', '"']
  else if c = '\\' then ['\\', '\\']
  else if c = '\n' then ['\\', 'n']
  else if c = '\r' then ['\\', 'r']
  else if c = '\t' then ['\\', 't']
  else if c = '\x08' then ['\\', 'b']
  else if c = '\x0c' then ['\\', 'f']
  else if 0x20 ≤ c.toNat ∧ c.toNat < 0x7F then [c]
  else if c.toNat < 0x10000 then unitEscape c.toNat
  else
    let offset := c.toNat - 0x10000
    unitEscape (0xD800 + offset / 0x400) ++ unitEscape (0xDC00 + offset % 0x400)

/-- A JSON string literal. -/
def literal (text : String) : String :=
  String.ofList ('"' :: text.toList.flatMap escape ++ ['"'])

/-- A bracketed list of items, one to a line, or the bare brackets if there are none. -/
def block (depth : Nat) (openBracket closeBracket : String) : List String → String
  | [] => openBracket ++ closeBracket
  | items =>
    let lineBreak := "\n" ++ Text.blanks (2 * (depth + 1))
    openBracket ++ lineBreak ++ Text.join ("," ++ lineBreak) items
      ++ "\n" ++ Text.blanks (2 * depth) ++ closeBracket

mutual

/-- The text of a value at a nesting depth. -/
def renderAt (depth : Nat) : Json → String
  | .bool value => if value then "true" else "false"
  | .number text => text
  | .string value => literal value
  | .array items => block depth "[" "]" (renderItems (depth + 1) items)
  | .object fields => block depth "\x7b" "\x7d" (renderFields (depth + 1) fields)

/-- The texts of the items of an array. -/
def renderItems (depth : Nat) : List Json → List String
  | [] => []
  | item :: rest => renderAt depth item :: renderItems depth rest

/-- The texts of the fields of an object. -/
def renderFields (depth : Nat) : List (String × Json) → List String
  | [] => []
  | (key, value) :: rest => (literal key ++ ": " ++ renderAt depth value) :: renderFields depth rest

end

/-- The text of a document. -/
def render (document : Json) : String := renderAt 0 document

end Json

end GivenClause
