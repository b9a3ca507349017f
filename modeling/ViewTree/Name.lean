import ViewTree.Dict
import ViewTree.Platform
/-!
# Spellings of a name

A component, filter or directive may be written with dashes (`my-button`), with humps
(`myButton`) or with a capital (`MyButton`). An asset is looked up under the spelling asked for,
then with humps, then with a capital.
-/

namespace ViewTree.Name

/-- Drops every dash and writes the character after it in upper case. -/
def camelizeFrom : Bool → List Char → List Char
  | _, [] => []
  | upper, c :: cs =>
    if c = '-' then camelizeFrom true cs
    else (if upper then Text.upperChar c else [c]) ++ camelizeFrom false cs

/-- The spelling with humps: `my-button` becomes `myButton`. -/
def camelize (s : String) : String :=
  String.ofList (camelizeFrom false s.toList)

/-- The first character in upper case. -/
def capitalizeChars : List Char → List Char
  | [] => []
  | c :: cs => Text.upperChar c ++ cs

/-- The spelling with a capital: `myButton` becomes `MyButton`. -/
def capitalize (s : String) : String :=
  String.ofList (capitalizeChars s.toList)

/-- A dash before every ASCII capital and the capital in lower case. -/
def hyphenateTail (cs : List Char) : List Char :=
  cs.flatMap fun c => if c.isUpper then ['-', c.toLower] else [c]

/-- As `hyphenateTail`, but the first character takes no dash. -/
def hyphenateChars : List Char → List Char
  | [] => []
  | c :: cs => c.toLower :: hyphenateTail cs

/-- The spelling with dashes: `myButton` becomes `my-button`. -/
def hyphenate (s : String) : String :=
  String.ofList (hyphenateChars s.toList)

/-- Drops dashes and underscores and writes the first character and those after them in upper
case. -/
def classifyFrom : Bool → List Char → List Char
  | _, [] => []
  | upper, c :: cs =>
    if c = '-' || c = '_' then classifyFrom true cs
    else (if upper then Text.upperChar c else [c]) ++ classifyFrom false cs

/-- The name of a component in diagnostics: `todo_item` becomes `TodoItem`. -/
def classify (s : String) : String :=
  String.ofList (classifyFrom true s.toList)

/-- The asset registered under one of the three spellings of `id`, with the spelling that hit. -/
def resolveSpelling? {α : Type} (assets : Dict α) (id : String) : Option (String × α) :=
  let humps := camelize id
  let capital := capitalize humps
  match assets.get? id, assets.get? humps, assets.get? capital with
  | some a, _, _ => some (id, a)
  | none, some a, _ => some (humps, a)
  | none, none, some a => some (capital, a)
  | none, none, none => none

/-- The asset registered under one of the three spellings of `id`. -/
def resolveAsset {α : Type} (assets : Dict α) (id : String) : Option α :=
  (resolveSpelling? assets id).map (·.2)

/-- Why a name cannot be registered for a component. -/
inductive Invalid where
  | malformed
  | builtIn
deriving DecidableEq

/-- The text of the warning about a name. -/
def Invalid.message (name : String) : Invalid → String
  | malformed =>
    s!"Invalid component name: \"{name}\". Component names should conform to valid custom " ++
      "element name in html5 specification."
  | builtIn => s!"Do not use built-in or reserved HTML elements as component id: {name}"

/-- A character after the first of a component's name. -/
def isNamePart (c : Char) : Bool :=
  c.isAlphanum || c == '-' || c == '.' || c == '_' || c.toNat ≥ 0x80

/-- An ASCII letter and then letters, digits, `-`, `.`, `_` and any character beyond ASCII. -/
def wellFormed (name : String) : Bool :=
  match name.toList with
  | [] => false
  | c :: cs => c.isAlpha && cs.all isNamePart

/-- What is wrong with a component's name, if anything. A name with a character beyond ASCII is
none of the built-in ones in any case, so the ASCII lower case decides. -/
def invalid? (name : String) : Option Invalid :=
  if !wellFormed name then some .malformed
  else
    let lower := Text.asciiLower name
    if lower == "slot" || lower == "component" || Platform.isReservedTag name then some .builtIn
    else none

/-- Names that begin with `$` or `_` belong to the instance itself. -/
def isReserved (key : String) : Bool :=
  match key.toList with
  | c :: _ => c == '$' || c == '_'
  | [] => false

/-- Attributes of a placeholder that cannot be props. -/
def isReservedAttribute (key : String) : Bool :=
  ["key", "ref", "slot", "slot-scope", "is"].contains key

/-- A letter, `_` or `$`, within ASCII. -/
def isIdentStart (c : Char) : Bool :=
  c.isAlpha || c == '_' || c == '$'

/-- A letter, digit, `_` or `$`, within ASCII. -/
def isIdentChar (c : Char) : Bool :=
  c.isAlphanum || c == '_' || c == '$'

/-- An identifier. -/
def isIdentifier (s : String) : Bool :=
  match s.toList with
  | [] => false
  | c :: cs => isIdentStart c && cs.all isIdentChar

end ViewTree.Name
