import SleighForge.Text.CodePoints

/-!
# Blank characters

Blanks separate the words of an instruction list. The class holds the Unicode white space
characters and the four information separators U+001C to U+001F.

Lists of characters are trimmed at their ends, and cut into words at runs of blanks.
-/

namespace SleighForge.Text

/-- The code points of the blank characters. -/
def blankRanges : List CodeRange :=
  [(0x9, 0xD), (0x1C, 0x20), (0x85, 0x85), (0xA0, 0xA0), (0x1680, 0x1680), (0x2000, 0x200A),
   (0x2028, 0x2029), (0x202F, 0x202F), (0x205F, 0x205F), (0x3000, 0x3000)]

/-- A blank character. -/
def isBlank (c : Char) : Bool :=
  within blankRanges c.toNat

/-- Drops the characters of the class at the end of the list. -/
def trimEnd (p : Char → Bool) (cs : List Char) : List Char :=
  (cs.reverse.dropWhile p).reverse

/-- Drops the characters of the class at both ends of the list. -/
def trim (p : Char → Bool) (cs : List Char) : List Char :=
  trimEnd p (cs.dropWhile p)

/-- The text without the blanks at its two ends. -/
def strip (s : String) : String :=
  String.ofList (trim isBlank s.toList)

/-- The first word of a text and what follows the blanks after it. -/
def firstWord (cs : List Char) : List Char × List Char :=
  (cs.takeWhile (!isBlank ·), (cs.dropWhile (!isBlank ·)).dropWhile isBlank)

/-- What follows the first word is no longer than the whole. -/
theorem length_firstWord_snd_le (cs : List Char) : (firstWord cs).2.length ≤ cs.length :=
  Nat.le_trans (List.dropWhile_suffix _).length_le (List.dropWhile_suffix _).length_le

/-- The words of a text that begins with none of its blanks. -/
def wordsFrom : List Char → List (List Char)
  | [] => []
  | c :: cs =>
    (c :: (firstWord cs).1) :: wordsFrom (firstWord cs).2
termination_by cs => cs.length
decreasing_by
  have := length_firstWord_snd_le cs
  simp only [List.length_cons]
  omega

/-- The maximal runs of characters that are not blank, in order. -/
def words (s : String) : List String :=
  (wordsFrom (s.toList.dropWhile isBlank)).map String.ofList

end SleighForge.Text
