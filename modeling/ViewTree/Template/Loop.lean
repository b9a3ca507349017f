import ViewTree.Text.Blank
import ViewTree.Text.Search
/-!
# Loop expressions

`item in source`, or `(item, key, index) of source`: the names that a loop introduces and the
expression it goes over.
-/

namespace ViewTree.Template

/-- The parts of a loop expression. -/
structure LoopExpr where
  source : String
  item : String
  key : Option String
  index : Option String
deriving DecidableEq

namespace LoopExpr

/-- The text after `in` or `of` and the blanks behind it, where it stands at the front. -/
def afterWord? : List Char → Option (List Char)
  | 'i' :: 'n' :: c :: rest => if Text.isBlank c then some rest else none
  | 'o' :: 'f' :: c :: rest => if Text.isBlank c then some rest else none
  | _ => none

/-- The texts on the two sides of the first `in` or `of` with blanks around it. -/
def sides? : List Char → Option (List Char × List Char)
  | [] => none
  | c :: cs =>
    let found := if Text.isBlank c then afterWord? (Text.dropBlank cs) else none
    match found with
    | some right => some ([], right)
    | none => (sides? cs).map fun p => (c :: p.1, p.2)

/-- The text without one opening and one closing parenthesis around it. -/
def dropParens (cs : List Char) : List Char :=
  let cs := match cs with
    | '(' :: rest => rest
    | _ => cs
  match cs.getLast? with
  | some ')' => cs.dropLast
  | _ => cs

/-- One or two names with a comma between them and no bracket, up to the end of the text. -/
def names? (cs : List Char) : Option (List Char × Option (List Char)) :=
  if cs.any fun c => c == '\x7d' || c == ']' then none
  else
    match Text.splitOnChar ',' cs with
    | [key] => some (key, none)
    | [key, index] => some (key, some index)
    | _ => none

/-- The item's name and the names behind it, from the first comma that only names follow. -/
def splitNames : List Char → List Char × Option (List Char × Option (List Char))
  | [] => ([], none)
  | c :: cs =>
    match if c = ',' then names? cs else none with
    | some names => ([], some names)
    | none =>
      let (before, names) := splitNames cs
      (c :: before, names)

/-- A text without blanks around it. -/
def trimmed (cs : List Char) : String :=
  String.ofList (Text.trimChars cs)

/-- The parts of a loop expression; it needs an item and a source. -/
def parse? (expr : String) : Option LoopExpr := do
  let (left, right) ← sides? (Text.dropBlank expr.toList)
  let (item, names) := splitNames (dropParens (Text.trimChars left))
  let parts : LoopExpr :=
    ⟨trimmed right, trimmed item, names.map fun n => trimmed n.1,
      (names.bind (·.2)).map trimmed⟩
  if parts.source = "" || parts.item = "" then none else some parts

end LoopExpr

end ViewTree.Template
