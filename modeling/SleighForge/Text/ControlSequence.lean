/-!
# Control sequences of a terminal

An escape, an opening bracket, parameters and one letter tell a terminal to style text or to move
its cursor. Elsewhere they are noise, and a text is shown without them. Parameters are digits,
semicolons and question marks. What begins like a control sequence and goes on otherwise is text.
-/

namespace SleighForge.Text

/-- The character at the start of a control sequence. -/
def escape : Char := '\x1B'

/-- A character between the bracket and the letter. -/
def isParameter (c : Char) : Bool :=
  c.isDigit || c == ';' || c == '?'

/-- What follows a control sequence, read from the text after its escape. -/
def afterControl? : List Char → Option (List Char)
  | '[' :: cs =>
    match cs.dropWhile isParameter with
    | c :: rest => if c.isAlpha then some rest else none
    | [] => none
  | _ => none

/-- A control sequence is not empty. -/
theorem length_afterControl?_lt {cs rest : List Char} (h : afterControl? cs = some rest) :
    rest.length < cs.length := by
  unfold afterControl? at h
  split at h
  · next ds =>
    have hle := (List.dropWhile_suffix isParameter (l := ds)).length_le
    split at h
    · next c r hd =>
      split at h
      · cases h
        simp only [hd, List.length_cons] at hle ⊢
        omega
      · cases h
    · cases h
  · cases h

/-- The text without its control sequences. The search goes on behind each one, so that what its
removal brings together stays. -/
def dropControls : List Char → List Char
  | [] => []
  | c :: cs =>
    if c = escape then
      match _h : afterControl? cs with
      | some rest => dropControls rest
      | none => c :: dropControls cs
    else c :: dropControls cs
termination_by cs => cs.length
decreasing_by
  · have := length_afterControl?_lt _h
    simp only [List.length_cons]
    omega
  · simp
  · simp

/-- A text as it is shown where no terminal shows it. -/
def withoutControls (s : String) : String :=
  String.ofList (dropControls s.toList)

end SleighForge.Text
