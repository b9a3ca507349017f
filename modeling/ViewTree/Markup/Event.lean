/-!
# The events of a template's markup

Markup is read as a stream of start tags, end tags, texts and comments, each with the bytes it
stands on. Repairs of malformed markup appear as events of their own, with a warning where an
element was left open.
-/

namespace ViewTree.Markup

/-- A part of a text, as the byte offsets of its two ends. -/
structure Span where
  start : Nat
  stop : Nat
deriving DecidableEq

/-- An attribute as it is written, with the entities of its value decoded. -/
structure Attribute where
  name : String
  value : String
  span : Span
deriving DecidableEq

/-- What is wrong with the markup. -/
inductive Warning where
  | unclosed (tag : String) (span : Span)
  | malformedTail (rest : String) (start : Nat)
deriving DecidableEq

namespace Warning

/-- The text of the warning. -/
def message : Warning → String
  | unclosed tag _ => "tag <" ++ tag ++ "> has no matching end tag."
  | malformedTail rest _ => "Mal-formatted tag at end of template: \"" ++ rest ++ "\""

/-- The byte offset that the warning points at. -/
def start : Warning → Nat
  | unclosed _ span => span.start
  | malformedTail _ start => start

end Warning

/-- Something found in the markup. A unary start tag has no end tag. -/
inductive Event where
  | start (tag : String) (attrs : List Attribute) (unary : Bool) (span : Span)
  | stop (tag : String) (span : Span)
  | text (t : String) (span : Span)
  | comment (t : String) (span : Span)
  | warning (w : Warning)
deriving DecidableEq

end ViewTree.Markup
