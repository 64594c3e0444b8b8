/-!
# Lines

The text of a file is cut into lines at line ends of every kind: line feed, carriage return or
both, vertical tab, form feed, the separators U+001C to U+001E, next line, and the line and
paragraph separators. What follows the last line end is a line only if it is not empty.
-/

namespace SleighForge.Text

/-- Writes every carriage return, with a line feed after it or not, as one line feed. -/
def unifyLineEnds : List Char → List Char
  | [] => []
  | '\r' :: '\n' :: cs => '\n' :: unifyLineEnds cs
  | c :: cs => (if c = '\r' then '\n' else c) :: unifyLineEnds cs

/-- A character that ends a line, where carriage returns have been written as line feeds. -/
def isLineEnd (c : Char) : Bool :=
  c == '\n' || c == '\x0B' || c == '\x0C' || c == '\x1C' || c == '\x1D' || c == '\x1E'
    || c == '\u0085' || c == '\u2028' || c == '\u2029'

/-- The lines of a text, without their ends. -/
def splitLines : List Char → List (List Char)
  | [] => []
  | c :: cs =>
    if isLineEnd c then [] :: splitLines cs
    else
      match splitLines cs with
      | [] => [[c]]
      | line :: lines => (c :: line) :: lines

/-- The lines of the text of a file. -/
def lines (s : String) : List String :=
  (splitLines (unifyLineEnds s.toList)).map String.ofList

end SleighForge.Text
