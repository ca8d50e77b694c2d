import Mathlib.Data.List.Basic

/-!
# Lines and words of a text

Library `Base`. Texts are lists of Unicode scalar values. Lines end in a newline, with an
optional carriage return before it; words are the maximal runs without white space.
-/

namespace Vidarax.Base

/-- The Unicode property `White_Space`; `char::is_whitespace`. -/
def isWhitespace (c : Char) : Bool :=
  let n := c.toNat
  9 ≤ n ∧ n ≤ 13 ∨ n = 0x20 ∨ n = 0x85 ∨ n = 0xA0 ∨ n = 0x1680 ∨ 0x2000 ≤ n ∧ n ≤ 0x200A ∨
    n = 0x2028 ∨ n = 0x2029 ∨ n = 0x202F ∨ n = 0x205F ∨ n = 0x3000

/-- A line without the carriage return of its line ending. -/
def dropReturn (line : List Char) : List Char :=
  if line.getLast? = some '\r' then line.dropLast else line

/-- Lines of a text whose current line so far is `line`, reversed. -/
def linesFrom (line : List Char) : List Char → List (List Char)
  | [] => if line = [] then [] else [line.reverse]
  | c :: text =>
    if c = '\n' then dropReturn line.reverse :: linesFrom [] text else linesFrom (c :: line) text

/-- `str::lines`. -/
def lines (text : List Char) : List (List Char) := linesFrom [] text

/-- `str::trim`. -/
def trim (text : List Char) : List Char :=
  ((text.dropWhile isWhitespace).reverse.dropWhile isWhitespace).reverse

/-- Words of a text whose current word so far is `word`, reversed. -/
def wordsFrom (word : List Char) : List Char → List (List Char)
  | [] => if word = [] then [] else [word.reverse]
  | c :: text =>
    if isWhitespace c then
      if word = [] then wordsFrom [] text else word.reverse :: wordsFrom [] text
    else wordsFrom (c :: word) text

/-- `str::split_whitespace`. -/
def splitWhitespace (text : List Char) : List (List Char) := wordsFrom [] text

/-- `str::strip_suffix`. -/
def stripSuffix (suffix text : List Char) : Option (List Char) :=
  if suffix <:+ text then some (text.take (text.length - suffix.length)) else none

end Vidarax.Base
