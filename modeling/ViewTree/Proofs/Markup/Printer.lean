import ViewTree.Markup.Tokenizer
/-!
# Printed markup

Markup as a tree of elements, texts and comments, how it is written, and the events that stand for
it. A tree is well formed when what is written of each node cannot run into its neighbours: names
are names, a text holds no `<` and has no text next to it, a comment does not end early.
-/

namespace ViewTree.Markup

/-- A piece of markup. A closed element is written with a slash and has neither content nor end
tag. -/
inductive Tree where
  | element (tag : String) (attrs : List (String × String)) (content : List Tree)
  | closed (tag : String) (attrs : List (String × String))
  | text (t : String)
  | comment (t : String)

/-! ## What may be written -/

/-- A name without a colon. -/
def IsLocalName : List Char → Prop
  | [] => False
  | c :: part => isNameStart c ∧ ∀ x ∈ part, isNamePart x

/-- A name, or two with a colon between them. -/
def IsTagName (cs : List Char) : Prop :=
  IsLocalName cs ∨ ∃ space name, IsLocalName space ∧ IsLocalName name ∧ cs = space ++ ':' :: name

/-- A tag whose content is read as markup from its first character on. -/
structure IsElementTag (tag : String) : Prop where
  name : IsTagName tag.toList
  not_pre : tag ≠ "pre"
  not_raw : Text.asciiLower tag ∉ ["script", "style", "textarea"]

/-- An attribute's name. -/
def IsAttrName (name : String) : Prop :=
  name.toList ≠ [] ∧ ∀ c ∈ name.toList, isAttrNameChar c

/-- A text that ends where markup begins. -/
def IsPlainText (t : String) : Prop :=
  t.toList ≠ [] ∧ '<' ∉ t.toList

/-- A text that a comment may hold. -/
structure IsCommentText (t : String) : Prop where
  no_end : ¬ ['-', '-', '>'] <:+: t.toList
  no_angle : ¬ ['>'] <+: t.toList
  no_dash_angle : ¬ ['-', '>'] <+: t.toList

namespace Tree

/-- The node is a text. -/
def isText : Tree → Bool
  | text _ => true
  | _ => false

mutual

/-- Everything in the tree can be written so that it reads back. -/
def WellFormed : Tree → Prop
  | element tag attrs content =>
    IsElementTag tag ∧ (∀ a ∈ attrs, IsAttrName a.1) ∧ WellFormedAll content
  | closed tag attrs => IsElementTag tag ∧ ∀ a ∈ attrs, IsAttrName a.1
  | text t => IsPlainText t
  | comment t => IsCommentText t

/-- Well-formed trees without two texts next to each other. -/
def WellFormedAll : List Tree → Prop
  | [] => True
  | t :: ts => t.WellFormed ∧ (t.isText → ∀ u ∈ ts.head?, u.isText = false) ∧ WellFormedAll ts

end

end Tree

/-! ## Writing -/

/-- A character of an attribute value, by name where it could be taken for markup. -/
def escapeChar : Char → List Char
  | '&' => ['&', 'a', 'm', 'p', ';']
  | '<' => ['&', 'l', 't', ';']
  | '>' => ['&', 'g', 't', ';']
  | '"' => ['&', 'q', 'u', 'o', 't', ';']
  | c => [c]

/-- An attribute value as it is written between quotes. -/
def escape (value : List Char) : List Char :=
  value.flatMap escapeChar

/-- An attribute behind a blank. -/
def printAttr (a : String × String) : List Char :=
  ' ' :: (a.1.toList ++ '=' :: '"' :: (escape a.2.toList ++ ['"']))

/-- A start tag up to its end. -/
def printOpening (tag : String) (attrs : List (String × String)) : List Char :=
  '<' :: (tag.toList ++ attrs.flatMap printAttr)

/-- An end tag. -/
def printEnd (tag : String) : List Char :=
  '<' :: '/' :: (tag.toList ++ ['>'])

namespace Tree

mutual

/-- The text of a tree. -/
def print : Tree → List Char
  | element tag attrs content =>
    printOpening tag attrs ++ '>' :: (printAll content ++ printEnd tag)
  | closed tag attrs => printOpening tag attrs ++ ['/', '>']
  | text t => t.toList
  | comment t => '<' :: '!' :: '-' :: '-' :: (t.toList ++ ['-', '-', '>'])

/-- The text of trees one after the other. -/
def printAll : List Tree → List Char
  | [] => []
  | t :: ts => print t ++ printAll ts

end

end Tree

/-! ## Events -/

/-- The beginning of every text, where events stand that have no place. -/
def Span.nowhere : Span :=
  ⟨0, 0⟩

/-- The attribute without its place. -/
def Attribute.unplaced (a : Attribute) : Attribute :=
  { a with span := .nowhere }

/-- The event without its place. Warnings are not touched. -/
def Event.unplaced : Event → Event
  | .start tag attrs unary _ => .start tag (attrs.map Attribute.unplaced) unary .nowhere
  | .stop tag _ => .stop tag .nowhere
  | .text t _ => .text t .nowhere
  | .comment t _ => .comment t .nowhere
  | .warning w => .warning w

namespace Tree

/-- The start of an element, with its attributes as they are meant. -/
def startEvent (tag : String) (attrs : List (String × String)) (unary : Bool) : Event :=
  .start tag (attrs.map fun a => ⟨a.1, a.2, .nowhere⟩) unary .nowhere

mutual

/-- The events that a tree stands for. -/
def events : Tree → List Event
  | element tag attrs content =>
    startEvent tag attrs false :: (eventsAll content ++ [.stop tag .nowhere])
  | closed tag attrs => [startEvent tag attrs true]
  | text t => [.text t .nowhere]
  | comment t => [.comment t .nowhere]

/-- The events that trees stand for, one after the other. -/
def eventsAll : List Tree → List Event
  | [] => []
  | t :: ts => events t ++ eventsAll ts

end

end Tree

end ViewTree.Markup
