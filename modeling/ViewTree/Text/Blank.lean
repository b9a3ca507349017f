import ViewTree.Text.Ranges
/-!
# Blank characters

White space is the Unicode property of that name: twenty-five characters, among them the
no-break space and the ideographic space, but not the zero-width space.
-/

namespace ViewTree.Text

/-- The code points with the property `White_Space`. -/
def blankRanges : Ranges :=
  [(0x9, 0xd), (0x20, 0x20), (0x85, 0x85), (0xa0, 0xa0), (0x1680, 0x1680), (0x2000, 0x200a),
    (0x2028, 0x2029), (0x202f, 0x202f), (0x205f, 0x205f), (0x3000, 0x3000)]

/-- White space. -/
def isBlank (c : Char) : Bool :=
  blankRanges.has c

/-- Every character is white space; the empty text is blank. -/
def allBlank (s : String) : Bool :=
  s.toList.all isBlank

/-- The characters from the first that is not blank. -/
def dropBlank (cs : List Char) : List Char :=
  cs.dropWhile isBlank

/-- The characters up to the last that is not blank. -/
def dropBlankEnd (cs : List Char) : List Char :=
  (dropBlank cs.reverse).reverse

/-- The characters without blanks at either end. -/
def trimChars (cs : List Char) : List Char :=
  dropBlankEnd (dropBlank cs)

/-- The text without blanks at either end. -/
def trim (s : String) : String :=
  String.ofList (trimChars s.toList)

/-- The maximal runs of characters that are not blank. -/
def wordsFrom : List Char → List Char → List (List Char)
  | [], [] => []
  | word, [] => [word.reverse]
  | word, c :: rest =>
    if isBlank c then
      match word with
      | [] => wordsFrom [] rest
      | _ => word.reverse :: wordsFrom [] rest
    else wordsFrom (c :: word) rest

/-- The words of a text, split at runs of white space. -/
def words (s : String) : List String :=
  (wordsFrom [] s.toList).map String.ofList

theorem dropBlank_length_le (cs : List Char) : (dropBlank cs).length ≤ cs.length := by
  unfold dropBlank
  exact (List.dropWhile_sublist isBlank).length_le

end ViewTree.Text
