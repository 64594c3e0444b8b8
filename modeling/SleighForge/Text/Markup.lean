/-!
# Markup text

Text and attribute values as XML writes them.
-/

namespace SleighForge.Text

/-- A character of text. -/
def escapedChar (c : Char) : String :=
  match c with
  | '&' => "&amp;"
  | '>' => "&gt;"
  | '<' => "&lt;"
  | c => String.singleton c

/-- Text with the characters of markup escaped. -/
def escapeText (s : String) : String :=
  String.join (s.toList.map escapedChar)

/-- A character of an attribute value between the quotes. Line ends and tabs are written as
references, so that a reader does not turn them into spaces. -/
def attributeChar (quote : Char) (c : Char) : String :=
  match c with
  | '\n' => "&#10;"
  | '\r' => "&#13;"
  | '\t' => "&#9;"
  | c => if c = '"' ∧ quote = '"' then "&quot;" else escapedChar c

/-- An attribute value in double quotes, or in single quotes if it holds double quotes only. -/
def quoteAttribute (s : String) : String :=
  let quote := if s.toList.contains '"' && !s.toList.contains '\'' then '\'' else '"'
  let inner := String.join (s.toList.map (attributeChar quote))
  String.singleton quote ++ inner ++ String.singleton quote

end SleighForge.Text
