import ViewTree.Template.Syntax
import ViewTree.Text.Search
/-!
# Texts with expressions

A text is split at the delimiters of interpolated expressions, and its character entities are
decoded.
-/

namespace ViewTree.Template

/-- A text node, unless there is no text. -/
def textNode (cs : List Char) : List Node :=
  if cs.isEmpty then [] else [.text (String.ofList cs)]

/-- The first complete interpolation: the text before it, its expression, and the text after. -/
def interpolation? (opening closing cs : List Char) :
    Option (List Char × List Char × List Char) := do
  let (before, rest) ← Text.splitAt? opening cs
  let (expr, after) ← Text.splitAt? closing rest
  some (before, expr, after)

/-- The parts of a text; `fuel` bounds the number of interpolations. -/
def interpolate (opening closing : List Char) : Nat → List Char → List Node
  | 0, cs => textNode cs
  | fuel + 1, cs =>
    match interpolation? opening closing cs with
    | some (before, expr, after) =>
      textNode before ++ .interpolation (String.ofList (Text.trimChars expr)) ::
        interpolate opening closing fuel after
    | none => textNode cs

/-- The texts and expressions of a text, or none when it holds no complete interpolation. -/
def splitInterpolations (text opening closing : String) : Option (List Node) :=
  let opening := opening.toList
  let closing := closing.toList
  let cs := text.toList
  if opening.isEmpty || closing.isEmpty then none
  else if (interpolation? opening closing cs).isSome then
    some (interpolate opening closing cs.length cs)
  else none

/-- The character of a code point that there is. -/
def charOf? (code : Nat) : Option Char :=
  if h : code.isValidChar then some (Char.ofNatAux code h) else none

/-- The number that digits write in a base. -/
def digitsIn (base : Nat) (ds : List Char) : Nat :=
  ds.foldl (fun n c =>
    n * base +
      (if c.isDigit then c.toNat - 48 else c.toLower.toNat - 87)) 0

/-- A hexadecimal digit. -/
def isHexDigit (c : Char) : Bool :=
  c.isDigit || ('a' ≤ c.toLower && c.toLower ≤ 'f')

/-- The characters that have names. -/
def namedChar? (name : String) : Option Char :=
  match name with
  | "lt" => some '<'
  | "gt" => some '>'
  | "amp" => some '&'
  | "quot" => some '"'
  | "apos" => some '\''
  | "nbsp" => some (Char.ofNat 0xa0)
  | _ => none

/-- The text after a semicolon that ends an entity. -/
def afterSemicolon? : List Char → Option (List Char)
  | ';' :: rest => some rest
  | _ => none

/-- What an entity stands for and the text after it; `cs` is the text after the ampersand. An
entity that stands for nothing is not one. -/
def entity? (cs : List Char) : Option (Char × List Char) :=
  let read := fun (p : Char → Bool) (cs : List Char) (value : List Char → Option Char) =>
    let ds := cs.takeWhile p
    if ds.isEmpty then none
    else do
      let rest ← afterSemicolon? (cs.dropWhile p)
      let c ← value ds
      some (c, rest)
  match cs with
  | '#' :: 'x' :: cs => read isHexDigit cs fun ds => charOf? (digitsIn 16 ds)
  | '#' :: 'X' :: cs => read isHexDigit cs fun ds => charOf? (digitsIn 16 ds)
  | '#' :: cs => read Char.isDigit cs fun ds => charOf? (digitsIn 10 ds)
  | cs => read Char.isAlpha cs fun ds => namedChar? (String.ofList ds)

/-- The text with its entities decoded; `fuel` bounds the characters read. -/
def decodeChars : Nat → List Char → List Char
  | 0, cs => cs
  | _, [] => []
  | fuel + 1, c :: cs =>
    if c = '&' then
      match entity? cs with
      | some (d, rest) => d :: decodeChars fuel rest
      | none => c :: decodeChars fuel cs
    else c :: decodeChars fuel cs

/-- The text with its entities decoded, once from the left. -/
def decodeText (text : String) : String :=
  let cs := text.toList
  String.ofList (decodeChars cs.length cs)

end ViewTree.Template
