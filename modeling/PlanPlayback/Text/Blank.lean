/-!
# Blank characters, words and lines

The readers of this library agree on one notion of blank space: the characters with the
Unicode property `White_Space`.  This file holds

* `isBlank`, the property itself;
* `trimStart`, `trimEnd` and `trim`, which drop blank space at the ends of a text;
* `words`, the maximal runs of other characters;
* `lines`, the lines of a text, each without its line end.

A line ends at a line feed, and one carriage return just before the line feed belongs to the
line end.  A line feed at the very end of a text opens no further line.
-/

namespace PlanPlayback.Text

/-- The characters with the Unicode property `White_Space`. -/
def isBlank (c : Char) : Bool :=
  let n := c.toNat
  (9 ≤ n && n ≤ 13) || n == 0x20 || n == 0x85 || n == 0xA0 || n == 0x1680 ||
    (0x2000 ≤ n && n ≤ 0x200A) || n == 0x2028 || n == 0x2029 || n == 0x202F || n == 0x205F ||
    n == 0x3000

/-- A text without the blank space it begins with. -/
def trimStart (text : List Char) : List Char :=
  text.dropWhile isBlank

/-- A text without the blank space it ends with. -/
def trimEnd (text : List Char) : List Char :=
  (text.reverse.dropWhile isBlank).reverse

/-- A text without the blank space at its two ends. -/
def trim (text : List Char) : List Char :=
  trimEnd (trimStart text)

/-- The maximal runs of characters that are not blank, in order. -/
def words : List Char → List (List Char)
  | [] => []
  | c :: rest =>
      if isBlank c then words rest
      else
        match rest with
        | [] => [[c]]
        | next :: _ =>
            if isBlank next then [c] :: words rest
            else
              match words rest with
              | [] => [[c]]
              | word :: others => (c :: word) :: others

/-- The lines of a text, each without its line feed and one carriage return before it. -/
def lines : List Char → List (List Char)
  | [] => []
  | '\n' :: rest => [] :: lines rest
  | '\r' :: '\n' :: rest => [] :: lines rest
  | c :: rest =>
      match lines rest with
      | [] => [[c]]
      | line :: others => (c :: line) :: others

/-- The lines of a string. -/
def linesOf (text : String) : List String :=
  (lines text.toList).map String.ofList

/-- A string without the blank space at its two ends. -/
def trimmed (text : String) : String :=
  String.ofList (trim text.toList)

/-! ## Prefixes and substrings -/

/-- What follows `start` in `text`, if `text` begins with it. -/
def afterPrefix? : List Char → List Char → Option (List Char)
  | [], text => some text
  | _ :: _, [] => none
  | a :: start, c :: text => if a == c then afterPrefix? start text else none

/-- Whether `part` stands somewhere in `text`. -/
def hasPart (part : List Char) : List Char → Bool
  | [] => part.isEmpty
  | c :: rest => part.isPrefixOf (c :: rest) || hasPart part rest

/-- Whether `part` stands somewhere in `text`. -/
def contains (text part : String) : Bool :=
  hasPart part.toList text.toList

/-! ## Small laws -/

theorem words_cons_of_isBlank {c : Char} (hc : isBlank c = true) (rest : List Char) :
    words (c :: rest) = words rest := by
  simp [words, hc]

end PlanPlayback.Text
