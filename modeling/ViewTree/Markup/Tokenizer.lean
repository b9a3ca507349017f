import ViewTree.Markup.Entity
import ViewTree.Markup.Event
import ViewTree.Markup.Scan
import ViewTree.Platform
/-!
# Reading markup

The reader goes over a text once and knows which elements are open. It recovers from malformed
markup the way browsers do: what was left open is closed, a stray end tag is dropped, and stray
ends of `br` and `p` make an element. Offsets count the bytes in front of what is left to read.
-/

namespace ViewTree.Markup

/-- How markup is read. -/
structure Dialect where
  expectHtml : Bool
  isUnary : String → Bool
  canBeLeftOpen : String → Bool
  keepComments : Bool
  decodeNewlines : Bool
  decodeHrefNewlines : Bool

/-- Markup without any rules of its own. -/
def Dialect.plain : Dialect :=
  ⟨false, fun _ => false, fun _ => false, false, false, false⟩

/-- An element that is open, and where its start tag stands. -/
structure OpenElement where
  tag : String
  span : Span

/-- The elements that are open, the innermost first, and the tag of the innermost. -/
structure OpenElements where
  stack : List OpenElement
  last : Option String

namespace OpenElements

/-- Nothing is open. -/
def none : OpenElements :=
  ⟨[], .none⟩

/-- One more element is open. -/
def push (o : OpenElements) (e : OpenElement) : OpenElements :=
  ⟨e :: o.stack, some e.tag⟩

/-- What is open with the given elements on the stack. -/
def ofStack (stack : List OpenElement) : OpenElements :=
  ⟨stack, stack.head?.map (·.tag)⟩

/-- The end of an element that had none. -/
def implied (span : Span) (e : OpenElement) : List Event :=
  [.warning (.unclosed e.tag e.span), .stop e.tag span]

/-- Closes everything that is open. -/
def closeAll (o : OpenElements) (span : Span) : List Event × OpenElements :=
  (o.stack.flatMap (implied span), none)

/-- An end tag without an element to close. -/
def strayEnd (tag : String) (span : Span) : List Event :=
  if Text.asciiLower tag = "br" then [.start tag [] true span]
  else if Text.asciiLower tag = "p" then [.start tag [] false span, .stop tag span]
  else []

/-- Closes the nearest element of a tag in any ASCII case, and first what is open inside it. -/
def close (o : OpenElements) (tag : String) (span : Span) : List Event × OpenElements :=
  let differs := fun e : OpenElement => Text.asciiLower e.tag != Text.asciiLower tag
  match o.stack.dropWhile differs with
  | [] => (strayEnd tag span, o)
  | e :: below =>
    ((o.stack.takeWhile differs).flatMap (implied span) ++ [.stop e.tag span], ofStack below)

end OpenElements

/-- What a step found, the elements open after it, and the text left to read. -/
structure Progress where
  events : List Event
  opened : OpenElements
  rest : List Char

/-- A start tag as it is written. Attributes keep their entities. -/
structure StartTag where
  tag : String
  attrs : List Attribute
  slash : Bool
  rest : List Char

section

variable (total : Nat)

/-- The byte offset of what is left of a text of `total` bytes. -/
def offset (rest : List Char) : Nat :=
  total - Text.byteLength rest

/-- The bytes between two texts that are left to read. -/
def between (before after : List Char) : Span :=
  ⟨offset total before, offset total after⟩

/-- The attributes up to the end of a start tag; `fuel` bounds their number. -/
def readAttributes : Nat → List Char → Option (List Attribute × Bool × List Char)
  | 0, _ => none
  | fuel + 1, cs =>
    match startTagClose? cs with
    | some (slash, rest) => some ([], slash, rest)
    | none => do
      let cs := Text.dropBlank cs
      let (name, value, rest) ← attribute? cs
      let a : Attribute := ⟨String.ofList name, String.ofList value, between total cs rest⟩
      let (attrs, slash, rest) ← readAttributes fuel rest
      some (a :: attrs, slash, rest)

/-- A start tag. -/
def startTag? (cs : List Char) : Option StartTag := do
  let (name, rest) ← startTagOpen? cs
  let (attrs, slash, rest) ← readAttributes total (rest.length + 1) rest
  some ⟨String.ofList name, attrs, slash, rest⟩

/-- Elements that a start tag closes before it opens its own: a paragraph that cannot hold it,
and one of the same kind that may be left open. -/
def closeImplied (d : Dialect) (o : OpenElements) (tag : String) (place : Nat) :
    List Event × OpenElements :=
  if d.expectHtml then
    let (first, o) :=
      if o.last == some "p" && Platform.isNonPhrasing tag then o.close "p" ⟨place, place⟩
      else ([], o)
    let (second, o) :=
      if d.canBeLeftOpen tag && o.last == some tag then o.close tag ⟨place, place⟩ else ([], o)
    (first ++ second, o)
  else ([], o)

/-- The attribute with its entities decoded as the dialect says. -/
def Dialect.decode (d : Dialect) (tag : String) (a : Attribute) : Attribute :=
  let newlines :=
    if tag = "a" && a.name = "href" then d.decodeHrefNewlines else d.decodeNewlines
  { a with value := decodeValue newlines a.value }

/-- A line feed right behind the start tag of these elements is not part of their content. -/
def dropFirstNewline (tag : String) : List Char → List Char
  | '\n' :: cs => if tag = "pre" || tag = "textarea" then cs else '\n' :: cs
  | cs => cs

/-- Opens the element of a start tag. -/
def openTag (d : Dialect) (o : OpenElements) (cs : List Char) (t : StartTag) : Progress :=
  let (closed, o) := closeImplied d o t.tag (offset total t.rest)
  let unary := d.isUnary t.tag || t.slash
  let span := between total cs t.rest
  { events := closed ++ [.start t.tag (t.attrs.map (d.decode t.tag)) unary span]
    opened := if unary then o else o.push ⟨t.tag, span⟩
    rest := dropFirstNewline t.tag t.rest }

/-- The text up to the next markup. -/
def textStep (o : OpenElements) (cs : List Char) : Progress :=
  match textRun cs with
  | ([], rest) => ⟨[], o, rest⟩
  | (text, rest) => ⟨[.text (String.ofList text) (between total cs rest)], o, rest⟩

/-- One piece of markup or text. Nothing is read when the markup here never ends. -/
def markupStep (d : Dialect) (o : OpenElements) (cs : List Char) : Progress :=
  match comment? cs, conditional? cs, doctype? cs, endTag? cs, startTag? total cs with
  | some (text, rest), _, _, _, _ =>
    let found := Event.comment (String.ofList text) (between total cs rest)
    ⟨if d.keepComments then [found] else [], o, rest⟩
  | none, some rest, _, _, _ => ⟨[], o, rest⟩
  | none, none, some rest, _, _ => ⟨[], o, rest⟩
  | none, none, none, some (tag, rest), _ =>
    let (events, o) := o.close tag (between total cs rest)
    ⟨events, o, rest⟩
  | none, none, none, none, some t => openTag total d o cs t
  | none, none, none, none, none => textStep total o cs

/-- The content of a raw text element and its end tag. Without an end tag the element is closed
where it stands, and nothing is read. -/
def rawStep (o : OpenElements) (tag : String) (cs : List Char) : Progress :=
  let tag := Text.asciiLower tag
  match rawText? tag.toList cs with
  | some (content, fromEnd, rest) =>
    let text := if tag = "textarea" then dropFirstNewline tag content else content
    let found := Event.text (String.ofList text) (between total cs fromEnd)
    let (closed, o) := o.close tag (between total fromEnd rest)
    ⟨(if text.isEmpty then [] else [found]) ++ closed, o, rest⟩
  | none =>
    let (closed, o) := o.close tag (between total cs cs)
    ⟨closed, o, cs⟩

/-- The next step. -/
def step (d : Dialect) (o : OpenElements) (cs : List Char) : Progress :=
  match o.last.filter Platform.isRawText with
  | some tag => rawStep total o tag cs
  | none => markupStep total d o cs

/-- The rest of the text where no step goes on: it is taken as it stands. -/
def tail (o : OpenElements) (rest : List Char) : List Event :=
  let text := String.ofList rest
  .text text (between total rest []) ::
    (if o.stack.isEmpty then []
    else [.warning (.malformedTail text (offset total rest))]) ++
    (o.closeAll (between total [] [])).1

/-- The events of what is left of a text. -/
def events (d : Dialect) (o : OpenElements) (cs : List Char) : List Event :=
  match cs with
  | [] => (o.closeAll (between total [] [])).1
  | c :: cs =>
    let p := step total d o (c :: cs)
    if _ : p.rest.length < (c :: cs).length then p.events ++ events d p.opened p.rest
    else p.events ++ tail total p.opened p.rest
termination_by cs.length
decreasing_by assumption

end

/-- The events of a text. -/
def tokenize (d : Dialect) (html : String) : List Event :=
  let cs := html.toList
  events (Text.byteLength cs) d .none cs

end ViewTree.Markup
