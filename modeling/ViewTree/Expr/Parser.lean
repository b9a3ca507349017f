import ViewTree.Expr.Basic
import ViewTree.Name
import ViewTree.Text.Blank
import ViewTree.Text.Search
/-!
# Reading expressions

The reader takes a part of the expression from the front of a text and gives back the rest. An
error remembers the text from the place it points at, which `parse` turns into a byte offset.
-/

namespace ViewTree.Expr

/-- An error together with the text from the place it points at. -/
inductive ReadError where
  | unexpected (ch : Char) (from? : List Char)
  | unterminatedString
  | unexpectedEnd

/-- The error at the front of a text: its first character, or its end. -/
def ReadError.at : List Char → ReadError
  | [] => unexpectedEnd
  | c :: cs => unexpected c (c :: cs)

/-- A part of the expression and the text after it. -/
abbrev Read (α : Type) := Except ReadError (α × List Char)

/-- The body of a string up to its closing quote. A backslash stands for the character after it,
with `n` and `t` for a line break and a tab. -/
def readString (quote : Char) : List Char → Read (List Char)
  | [] => .error .unterminatedString
  | '\\' :: [] => .error .unterminatedString
  | '\\' :: c :: rest =>
    (readString quote rest).map fun p =>
      ((if c = 'n' then '\n' else if c = 't' then '\t' else c) :: p.1, p.2)
  | c :: rest =>
    if c = quote then .ok ([], rest)
    else (readString quote rest).map fun p => (c :: p.1, p.2)

/-- The characters of an identifier and what follows. -/
def takeIdent (cs : List Char) : List Char × List Char :=
  (cs.takeWhile Name.isIdentChar, cs.dropWhile Name.isIdentChar)

/-- The whole number that decimal digits write. -/
def digitsValue (ds : List Char) : Nat :=
  ds.foldl (fun n c => n * 10 + (c.toNat - 48)) 0

/-- What stands between brackets: a quoted key or an index of at most sixty-four bits. -/
def readSubscript (cs : List Char) : Read Segment :=
  match cs with
  | [] => .error .unexpectedEnd
  | c :: rest =>
    if c = '"' || c = '\'' then
      (readString c rest).map fun p => (.key (String.ofList p.1), p.2)
    else if c.isDigit then
      let n := digitsValue (cs.takeWhile Char.isDigit)
      if n < Number.unsignedEnd then .ok (.index n, cs.dropWhile Char.isDigit)
      else .error (.unexpected c cs)
    else .error (.at cs)

/-- One segment at the front of the text; none when the path ends here. -/
def readSegment? (cs : List Char) : Except ReadError (Option (Segment × List Char)) :=
  match cs with
  | '.' :: rest =>
    match rest with
    | [] => .error .unexpectedEnd
    | c :: _ =>
      if Name.isIdentStart c then
        let (name, rest) := takeIdent rest
        .ok (some (.key (String.ofList name), rest))
      else .error (.at rest)
  | '[' :: rest => do
    let (segment, rest) ← readSubscript (Text.dropBlank rest)
    match Text.dropBlank rest with
    | ']' :: rest => .ok (some (segment, rest))
    | _ => .error .unexpectedEnd
  | _ => .ok none

/-- The segments of a path; `fuel` bounds their number. -/
def readSegments : Nat → List Char → Read (List Segment)
  | 0, cs => .ok ([], cs)
  | fuel + 1, cs =>
    match readSegment? cs with
    | .error e => .error e
    | .ok none => .ok ([], cs)
    | .ok (some (segment, rest)) =>
      (readSegments fuel rest).map fun p => (segment :: p.1, p.2)

/-- The number that a sign, digits and points write: whole if it fits sixty-four bits, else the
nearest double. One point at most, and a digit at least. -/
def numberOf? (negative : Bool) (body : List Char) : Option Number :=
  let whole := body.takeWhile Char.isDigit
  match body.dropWhile Char.isDigit with
  | [] =>
    if whole.isEmpty then none
    else
      let n := digitsValue whole
      if negative then
        if n ≤ Number.signedEnd then some (.int (-(n : Int))) else doubleOf? whole []
      else if n < Number.signedEnd then some (.int n)
      else doubleOf? whole []
  | _ :: places =>
    if places.all Char.isDigit && !(whole.isEmpty && places.isEmpty) then doubleOf? whole places
    else none
where
  /-- The double nearest to the digits before and after the point. -/
  doubleOf? (whole places : List Char) : Option Number :=
    (Double.ofDecimal? negative (digitsValue (whole ++ places)) places.length).map .double

/-- A number literal. -/
def readNumber (cs : List Char) : Read Expr :=
  let (negative, rest) :=
    match cs with
    | '-' :: rest => (true, rest)
    | _ => (false, cs)
  let isBody := fun c : Char => c.isDigit || c == '.'
  match numberOf? negative (rest.takeWhile isBody) with
  | some n => .ok (.literal (.number n), rest.dropWhile isBody)
  | none => .error (.unexpected '-' cs)

/-- The words that are literals and not names. -/
def keyword? (name : String) : Option Value :=
  if name = "true" then some (.bool true)
  else if name = "false" then some (.bool false)
  else if name = "null" || name = "undefined" then some .null
  else none

/-- A literal or a path. -/
def readPrimary (cs : List Char) : Read Expr :=
  match cs with
  | [] => .error .unexpectedEnd
  | c :: rest =>
    if c = '"' || c = '\'' then
      (readString c rest).map fun p => (.literal (.string (String.ofList p.1)), p.2)
    else if c.isDigit || c = '-' then readNumber cs
    else if Name.isIdentStart c then
      let (name, rest) := takeIdent cs
      let name := String.ofList name
      match keyword? name with
      | some v => .ok (.literal v, rest)
      | none => (readSegments (rest.length + 1) rest).map fun p => (.path name p.1, p.2)
    else .error (.at cs)

/-- The number of negations at the front and the text after them, blanks skipped. -/
def readNegations : List Char → Nat × List Char
  | [] => (0, [])
  | c :: cs =>
    if Text.isBlank c then readNegations cs
    else if c = '!' then
      let (n, rest) := readNegations cs
      (n + 1, rest)
    else (0, c :: cs)

/-- The expression negated a number of times. -/
def negate : Nat → Expr → Expr
  | 0, e => e
  | n + 1, e => .not (negate n e)

/-- Negations and what they apply to. -/
def readUnary (cs : List Char) : Read Expr :=
  let (n, rest) := readNegations cs
  (readPrimary rest).map fun p => (negate n p.1, p.2)

/-- The expression that takes up the whole text, blanks around it aside. -/
def readAll (cs : List Char) : Except ReadError Expr := do
  let (e, rest) ← readUnary cs
  match Text.dropBlank rest with
  | [] => .ok e
  | rest => .error (.at rest)

/-- The error with its place as a byte offset into the text. -/
def ReadError.locate (cs : List Char) : ReadError → ExprError
  | unexpected ch rest => .unexpected ch (Text.byteLength cs - Text.byteLength rest)
  | unterminatedString => .unterminatedString
  | unexpectedEnd => .unexpectedEnd

/-- The expression that a text writes. -/
def parse (src : String) : Except ExprError Expr :=
  let cs := src.toList
  if (Text.dropBlank cs).isEmpty then .error .empty
  else (readAll cs).mapError (ReadError.locate cs)

end ViewTree.Expr
