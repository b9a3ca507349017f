import ViewTree.Text.Blank
import ViewTree.Text.Search
import ViewTree.Text.Word
/-!
# The pieces of markup

Each function looks at the front of a text for one piece of markup and gives what it holds and
the text after it.
-/

namespace ViewTree.Markup

/-- The characters up to the first that does not satisfy `p`, and the rest. -/
def spanWhile (p : Char → Bool) (cs : List Char) : List Char × List Char :=
  (cs.takeWhile p, cs.dropWhile p)

/-- A character that begins a name. -/
def isNameStart (c : Char) : Bool :=
  c.isAlpha || c == '_'

/-- A character inside a name. -/
def isNamePart (c : Char) : Bool :=
  Text.isWord c || c == '-' || c == '.'

/-- A name without a colon. -/
def localName? : List Char → Option (List Char × List Char)
  | [] => none
  | c :: cs =>
    if isNameStart c then
      let (part, rest) := spanWhile isNamePart cs
      some (c :: part, rest)
    else none

/-- A tag name: a name, or two with a colon between them. -/
def tagName? (cs : List Char) : Option (List Char × List Char) :=
  match localName? cs with
  | none => none
  | some (space, ':' :: rest) =>
    match localName? rest with
    | some (name, rest) => some (space ++ ':' :: name, rest)
    | none => some (space, ':' :: rest)
  | some (name, rest) => some (name, rest)

/-- The text after the first `>`. -/
def afterAngle? (cs : List Char) : Option (List Char) :=
  match cs.dropWhile (· != '>') with
  | [] => none
  | _ :: rest => some rest

/-- An end tag, with anything between its name and its `>`. -/
def endTag? : List Char → Option (String × List Char)
  | '<' :: '/' :: cs => do
    let (name, rest) ← tagName? cs
    let rest ← afterAngle? rest
    some (String.ofList name, rest)
  | _ => none

/-- The beginning of a start tag, up to its name. -/
def startTagOpen? : List Char → Option (List Char × List Char)
  | '<' :: cs => tagName? cs
  | _ => none

/-- The end of a start tag, and whether a slash closes it. -/
def startTagClose? (cs : List Char) : Option (Bool × List Char) :=
  match Text.dropBlank cs with
  | '/' :: '>' :: rest => some (true, rest)
  | '>' :: rest => some (false, rest)
  | _ => none

/-- A character of an attribute's name. -/
def isAttrNameChar (c : Char) : Bool :=
  !(Text.isBlank c || ['"', '\'', '<', '>', '/', '='].contains c)

/-- A character of an attribute value without quotes. -/
def isBareValueChar (c : Char) : Bool :=
  !(Text.isBlank c || ['"', '\'', '=', '<', '>', '\x60'].contains c)

/-- A value up to a closing quote; further quotes right behind it are skipped. -/
def quotedValue? (quote : Char) (cs : List Char) : Option (List Char × List Char) :=
  match spanWhile (· != quote) cs with
  | (_, []) => none
  | (value, rest) => some (value, rest.dropWhile (· == quote))

/-- An attribute value, with or without quotes. -/
def attrValue? : List Char → Option (List Char × List Char)
  | [] => none
  | c :: cs =>
    if c = '"' || c = '\'' then quotedValue? c cs
    else
      match spanWhile isBareValueChar (c :: cs) with
      | ([], _) => none
      | (value, rest) => some (value, rest)

/-- What stands behind an attribute's name: an equals sign and a value, or nothing, which is the
empty value. -/
def attrTail (cs : List Char) : List Char × List Char :=
  match Text.dropBlank cs with
  | '=' :: rest => (attrValue? (Text.dropBlank rest)).getD ([], cs)
  | _ => ([], cs)

/-- An attribute without blanks in front of it: its name, its value and the rest. -/
def attribute? (cs : List Char) : Option (List Char × List Char × List Char) :=
  match spanWhile isAttrNameChar cs with
  | ([], _) => none
  | (name, rest) =>
    let (value, rest) := attrTail rest
    some (name, value, rest)

/-- A document type declaration. -/
def doctype? (cs : List Char) : Option (List Char) := do
  let rest ← Text.stripStartNoCase? "<!doctype ".toList cs
  match rest with
  | '>' :: _ => none
  | _ => afterAngle? rest

/-- A comment: its text and the rest. Two short forms close right away. -/
def comment? : List Char → Option (List Char × List Char)
  | '<' :: '!' :: '-' :: '-' :: cs =>
    match cs with
    | '>' :: rest => some ([], rest)
    | '-' :: '>' :: rest => some ([], rest)
    | _ => Text.splitAt? ['-', '-', '>'] cs
  | _ => none

/-- A conditional section: the rest after its end. -/
def conditional? (cs : List Char) : Option (List Char) :=
  if Text.startsWith ['<', '!', '['] cs then (Text.splitAt? [']', '>'] cs).map (·.2) else none

/-- Markup begins here: a tag, a comment or a conditional section. -/
def opensMarkup (cs : List Char) : Bool :=
  (endTag? cs).isSome || (startTagOpen? cs).isSome ||
    Text.startsWith ['<', '!', '-', '-'] cs || Text.startsWith ['<', '!', '['] cs

/-- The text up to the next markup. A `<` that begins none belongs to the text if another `<`
follows, and ends it otherwise. -/
def textRun : List Char → List Char × List Char
  | [] => ([], [])
  | c :: cs =>
    if c != '<' || (!opensMarkup (c :: cs) && cs.contains '<') then
      let (text, rest) := textRun cs
      (c :: text, rest)
    else ([], c :: cs)

/-- The two characters are the same letter, in any case. The long s is an s. -/
def sameLetter (lower c : Char) : Bool :=
  lower == c.toLower || (lower == 's' && c == 'ſ')

/-- The text after the end tag of a raw text element, if it stands here. `tag` is in lower
case. -/
def rawEnd? (tag cs : List Char) : Option (List Char) :=
  match cs with
  | '<' :: '/' :: cs => (stripLetters? tag cs).bind afterAngle?
  | _ => none
where
  /-- The text after the letters of the tag. -/
  stripLetters? : List Char → List Char → Option (List Char)
    | [], cs => some cs
    | _ :: _, [] => none
    | l :: ls, c :: cs => if sameLetter l c then stripLetters? ls cs else none

/-- The content of a raw text element, the text from its end tag, and the text after that. -/
def rawText? (tag : List Char) : List Char → Option (List Char × List Char × List Char)
  | [] => none
  | c :: cs =>
    match rawEnd? tag (c :: cs) with
    | some rest => some ([], c :: cs, rest)
    | none => (rawText? tag cs).map fun p => (c :: p.1, p.2)

end ViewTree.Markup
