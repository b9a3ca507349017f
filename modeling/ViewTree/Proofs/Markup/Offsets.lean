import ViewTree.Proofs.Markup.Remainders
import ViewTree.Proofs.Markup.Slices
/-!
# Reading at byte offsets

The reader once more, with a place in the whole text where the other one has the rest of it. Here
every slice and every index may be out of range and every loop may go on for too long: the result is
`none` then. Inside, a second `none` says that there is no such piece at the place.
-/

namespace ViewTree.Markup

open Text (byteLength dropBytes? slice? indexOf? startsWith sub?)

/-- A place in a text, and what is open there. -/
structure Cursor where
  index : Nat
  opened : OpenElements

/-- What has been found, and where reading goes on. -/
abbrev Found := List Event × Cursor

/-! ## Closing -/

/-- The ends of the open elements from the one below a position out to `pos`. Positions count from
the outermost. The last element has an end tag of its own unless all are closed. -/
def unwind (frames : List OpenElement) (pos : Nat) (all : Bool) (span : Span) :
    Nat → Option (List Event)
  | 0 => some []
  | i + 1 =>
    if i < pos then some []
    else do
      let e ← frames[i]?
      let outer ← unwind frames pos all span i
      some ((if all || pos < i then OpenElements.implied span e else [.stop e.tag span]) ++ outer)

/-- Closes everything from a position on. -/
def closeFrom (o : OpenElements) (pos : Nat) (all : Bool) (span : Span) :
    Option (List Event × OpenElements) := do
  let frames := o.stack.reverse
  let ends ← unwind frames pos all span frames.length
  some (ends, .ofStack (frames.take pos).reverse)

/-- Closes the nearest element of a tag. -/
def closeAt (o : OpenElements) (tag : String) (span : Span) : Option (List Event × OpenElements) :=
  match o.stack.findIdx? fun e => Text.asciiLower e.tag == Text.asciiLower tag with
  | some inner => closeFrom o (o.stack.length - 1 - inner) false span
  | none => some (OpenElements.strayEnd tag span, o)

/-- Closes the nearest element of a tag where a start tag does so. -/
def closeIf (closes : Bool) (o : OpenElements) (tag : String) (place : Nat) :
    Option (List Event × OpenElements) :=
  if closes then closeAt o tag ⟨place, place⟩ else some ([], o)

/-- Closes what a start tag closes before it opens its own element. -/
def closeImpliedAt (d : Dialect) (o : OpenElements) (tag : String) (place : Nat) :
    Option (List Event × OpenElements) :=
  if d.expectHtml then do
    let (first, o) ← closeIf (o.last == some "p" && Platform.isNonPhrasing tag) o "p" place
    let (second, o) ← closeIf (d.canBeLeftOpen tag && o.last == some tag) o tag place
    some (first ++ second, o)
  else some ([], o)

section

variable (html : List Char) (d : Dialect) (fuel : Nat)

/-! ## Markup -/

/-- Where the end of the comment that opens a text begins. -/
def commentClose (rest : List Char) : Option (Option Nat) := do
  let body ← dropBytes? 4 rest
  if startsWith ['>'] body then some (some 2)
  else if startsWith ['-', '>'] body then some (some 3)
  else some ((indexOf? ['-', '-', '>'] body).map (· + 4))

/-- A comment. The two short forms have no text, for their end begins in front of it. -/
def commentAt (c : Cursor) (rest : List Char) : Option (Option Found) :=
  if startsWith ['<', '!', '-', '-'] rest then do
    let stop? ← commentClose rest
    some (stop?.map fun stop =>
      let text := (slice? 4 stop rest).getD []
      let found := Event.comment (String.ofList text) ⟨c.index, c.index + stop + 3⟩
      (if d.keepComments then [found] else [], ⟨c.index + (stop + 3), c.opened⟩))
  else some none

/-- A conditional section. -/
def conditionalAt (c : Cursor) (rest : List Char) : Option Found :=
  if startsWith ['<', '!', '['] rest then
    (indexOf? [']', '>'] rest).map fun stop => ([], ⟨c.index + (stop + 2), c.opened⟩)
  else none

/-- A document type declaration. -/
def doctypeAt (c : Cursor) (rest : List Char) : Option Found :=
  (doctype? rest).map fun behind => ([], ⟨c.index + taken rest behind, c.opened⟩)

/-- An end tag. -/
def endTagAt (c : Cursor) (rest : List Char) : Option (Option Found) :=
  match endTag? rest with
  | none => some none
  | some (tag, behind) => do
    let index := c.index + taken rest behind
    let (events, o) ← closeAt c.opened tag ⟨c.index, index⟩
    some (some (events, ⟨index, o⟩))

/-- The attributes of a start tag from a place on, and the place behind the tag. -/
def attributesAt : Nat → Nat → Option (Option (List Attribute × Bool × Nat))
  | 0, _ => none
  | fuel + 1, pos => do
    let rest ← dropBytes? pos html
    match startTagClose? rest with
    | some (slash, behind) => some (some ([], slash, pos + taken rest behind))
    | none =>
      match attribute? (Text.dropBlank rest) with
      | none => some none
      | some (name, value, behind) => do
        let full ← slice? pos (pos + taken rest behind) html
        let blanks ← sub? (byteLength full) (byteLength (Text.dropBlank full))
        let span : Span := ⟨pos + blanks, pos + byteLength full⟩
        let more ← attributesAt fuel (pos + byteLength full)
        some (more.map fun (attrs, slash, stop) =>
          (⟨String.ofList name, String.ofList value, span⟩ :: attrs, slash, stop))

/-- Opens the element of a start tag that ends at a place, and goes on behind it. -/
def openTagAt (c : Cursor) (tag : String) (attrs : List Attribute) (slash : Bool) (stop : Nat) :
    Option Found := do
  let index := c.index + (← sub? stop c.index)
  let (closed, o) ← closeImpliedAt d c.opened tag index
  let unary := d.isUnary tag || slash
  let span : Span := ⟨c.index, stop⟩
  let behind ← dropBytes? index html
  let newline := (tag = "pre" || tag = "textarea") && startsWith ['\n'] behind
  some (closed ++ [.start tag (attrs.map (d.decode tag)) unary span],
    ⟨if newline then index + 1 else index, if unary then o else o.push ⟨tag, span⟩⟩)

/-- A start tag. -/
def startTagAt (c : Cursor) (rest : List Char) : Option (Option Found) :=
  match startTagOpen? rest with
  | none => some none
  | some (name, behind) => do
    match ← attributesAt html fuel (c.index + taken rest behind) with
    | none => some none
    | some (attrs, slash, stop) => do
      let found ← openTagAt html d c (String.ofList name) attrs slash stop
      some (some found)

/-! ## Text -/

/-- Where the text ends that goes on with a `<` at `stop`; `rest` begins there. -/
def textEnd : Nat → Nat → List Char → Option Nat
  | 0, _, _ => none
  | fuel + 1, stop, rest =>
    if opensMarkup rest then some stop
    else do
      let behind ← dropBytes? 1 rest
      match indexOf? ['<'] behind with
      | none => some stop
      | some next => do
        let rest ← dropBytes? (next + 1) rest
        textEnd fuel (stop + (next + 1)) rest

/-- The text from a place up to the next markup. -/
def textFrom (index : Nat) (rest : List Char) : Option (List Char) :=
  match indexOf? ['<'] rest with
  | none => some rest
  | some angle => do
    let behind ← dropBytes? angle rest
    let stop ← textEnd fuel angle behind
    slice? index (index + stop) html

/-- A text, if there is any in front of the next markup. -/
def textAt (c : Cursor) (rest : List Char) : Option Found := do
  let text ← textFrom html fuel c.index rest
  if text.isEmpty then some ([], c)
  else
    let index := c.index + byteLength text
    some ([.text (String.ofList text) ⟨c.index, index⟩], ⟨index, c.opened⟩)

/-- One piece of markup or text. -/
def markupAt (c : Cursor) : Option Found := do
  let rest ← dropBytes? c.index html
  if indexOf? ['<'] rest = some 0 then
    match ← commentAt d c rest, conditionalAt c rest, doctypeAt c rest with
    | some found, _, _ => some found
    | none, some found, _ => some found
    | none, none, some found => some found
    | none, none, none =>
      match ← endTagAt c rest with
      | some found => some found
      | none =>
        match ← startTagAt html d fuel c rest with
        | some found => some found
        | none => textAt html fuel c rest
  else textAt html fuel c rest

/-- The content of a raw text element and its end tag. -/
def rawAt (c : Cursor) (tag : String) : Option Found := do
  let rest ← dropBytes? c.index html
  let tag := Text.asciiLower tag
  match rawText? tag.toList rest with
  | some (content, fromEnd, behind) => do
    let text := if tag = "textarea" then dropFirstNewline tag content else content
    let found := Event.text (String.ofList text) ⟨c.index, c.index + byteLength content⟩
    let index := c.index + taken rest behind
    let start ← sub? index (taken fromEnd behind)
    let (closed, o) ← closeAt c.opened tag ⟨start, index⟩
    some ((if text.isEmpty then [] else [found]) ++ closed, ⟨index, o⟩)
  | none => do
    let (closed, o) ← closeAt c.opened tag ⟨c.index, c.index⟩
    some (closed, ⟨c.index, o⟩)

/-! ## Rounds -/

/-- One piece of raw text, markup or text. -/
def stepAt (c : Cursor) : Option Found :=
  match c.opened.last.filter Platform.isRawText with
  | some tag => rawAt html c tag
  | none => markupAt html d fuel c

/-- A round of the reader: where it began and ended, what it found, and whether it had to take the
rest as it stands. -/
structure Round where
  start : Nat
  stop : Nat
  events : List Event
  stuck : Bool

/-- The rest of a text, taken as it stands. -/
def restEvents (c : Cursor) (rest : List Char) : List Event :=
  let text := String.ofList rest
  .text text ⟨c.index, byteLength html⟩ ::
    if c.opened.stack.isEmpty then [] else [.warning (.malformedTail text c.index)]

/-- All rounds from a place on, and where they end. A round that does not get on takes the rest as
it stands and is the last. -/
def roundsAt : Nat → Cursor → Option (List Round × Cursor)
  | 0, _ => none
  | rounds + 1, c =>
    if c.index < byteLength html then do
      let (events, next) ← stepAt html d fuel c
      if next.index = c.index then do
        let rest ← dropBytes? next.index html
        let round : Round :=
          ⟨c.index, byteLength html, events ++ restEvents html next rest, true⟩
        some ([round], ⟨byteLength html, next.opened⟩)
      else do
        let (more, last) ← roundsAt rounds next
        some (⟨c.index, next.index, events, false⟩ :: more, last)
    else some ([], c)

end

/-- Everything that a text is read in: the rounds, what is closed at the end, and the place where
that is. -/
structure Reading where
  rounds : List Round
  closing : List Event
  index : Nat

/-- Reads a text, with at most `fuel` rounds of each loop. -/
def reading? (d : Dialect) (html : String) (fuel : Nat) : Option Reading := do
  let (rounds, last) ← roundsAt html.toList d fuel fuel ⟨0, .none⟩
  let (closing, _) ← closeFrom last.opened 0 true ⟨last.index, last.index⟩
  some ⟨rounds, closing, last.index⟩

/-- The events of a text in their order. -/
def Reading.events (r : Reading) : List Event :=
  r.rounds.flatMap (·.events) ++ r.closing

end ViewTree.Markup
