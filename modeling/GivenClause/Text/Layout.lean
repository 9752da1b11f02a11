/-!
# Laying out text

Joining pieces with a separator, and padding a piece to the width of its column.  Widths count
characters, so a column stays straight whatever alphabet its entries use.
-/

namespace GivenClause.Text

/-- The pieces one after another, with `separator` between neighbours. -/
def join (separator : String) : List String → String
  | [] => ""
  | [piece] => piece
  | piece :: next :: rest => piece ++ separator ++ join separator (next :: rest)

@[simp] theorem join_nil (separator : String) : join separator [] = "" := rfl

@[simp] theorem join_singleton (separator piece : String) : join separator [piece] = piece := rfl

@[simp] theorem join_cons_cons (separator piece next : String) (rest : List String) :
    join separator (piece :: next :: rest)
      = piece ++ separator ++ join separator (next :: rest) := rfl

/-- A run of blanks. -/
def blanks (n : Nat) : String := String.ofList (List.replicate n ' ')

/-- Pad on the right to at least `width` characters; longer text is left as it is. -/
def padRight (width : Nat) (text : String) : String := text ++ blanks (width - text.length)

/-- Pad on the left to at least `width` characters; longer text is left as it is. -/
def padLeft (width : Nat) (text : String) : String := blanks (width - text.length) ++ text

/-- The lines of a block, each closed by a line break. -/
def lines (block : List String) : String := block.foldr (fun line rest => line ++ "\n" ++ rest) ""

end GivenClause.Text
