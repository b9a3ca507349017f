import ViewTree.Text.Blank
/-!
# Splitting call arguments

Arguments are separated by the commas that stand outside quotes and brackets. A quote ends at
the next quote of its kind; a backslash does not protect it.
-/

namespace ViewTree.Expr

/-- Where the scan of an argument list stands: inside a quote, or at a bracket depth. -/
structure ArgumentScan where
  quote : Option Char
  depth : Int

/-- The state after a character. -/
def ArgumentScan.next (s : ArgumentScan) (c : Char) : ArgumentScan :=
  match s.quote with
  | some q => if c = q then { s with quote := none } else s
  | none =>
    if c = '\'' || c = '"' then { s with quote := some c }
    else if c = '(' || c = '[' then { s with depth := s.depth + 1 }
    else if c = ')' || c = ']' then { s with depth := s.depth - 1 }
    else s

/-- A comma in this state separates two arguments. -/
def ArgumentScan.atTop (s : ArgumentScan) : Bool :=
  s.quote.isNone && s.depth == 0

/-- The arguments of the text that is left; the first continues the current one. -/
def splitFrom (s : ArgumentScan) : List Char → List (List Char)
  | [] => [[]]
  | c :: cs =>
    if c = ',' && s.atTop then [] :: splitFrom s cs
    else
      match splitFrom (s.next c) cs with
      | [] => [[c]]
      | arg :: args => (c :: arg) :: args

/-- The arguments of a call, blanks kept; a blank text has none. -/
def splitArguments (args : String) : List String :=
  if Text.allBlank args then []
  else (splitFrom ⟨none, 0⟩ args.toList).map String.ofList

end ViewTree.Expr
