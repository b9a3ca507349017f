import ViewTree.Markup.Event
import ViewTree.Value.Basic
/-!
# Events as values

The form in which the events of a text are handed out. Texts, comments and warnings are given
with or without the place they stand at.
-/

namespace ViewTree.Markup

/-- The ends of a span as fields. -/
def Span.fields (span : Span) : List (String × Value) :=
  [("start", .nat span.start), ("end", .nat span.stop)]

/-- An attribute. -/
def Attribute.describe (a : Attribute) : Value :=
  .object ([("name", .string a.name), ("value", .string a.value)] ++ a.span.fields)

namespace Event

/-- An event; `places` asks for the places of texts, comments and warnings too. -/
def describe (places : Bool) : Event → Value
  | start tag attrs unary span =>
    .object
      ([("event", .string "start"), ("tag", .string tag),
          ("attrs", .array (attrs.map Attribute.describe)), ("unary", .bool unary)] ++
        span.fields)
  | stop tag span =>
    .object ([("event", .string "end"), ("tag", .string tag)] ++ span.fields)
  | text t span =>
    .object ([("event", .string "chars"), ("text", .string t)] ++
      if places then span.fields else [])
  | comment t span =>
    .object ([("event", .string "comment"), ("text", .string t)] ++
      if places then span.fields else [])
  | warning w =>
    .object ([("event", .string "warn"), ("message", .string w.message)] ++
      if places then [("start", .nat w.start)] else [])

/-- The text of a warning. -/
def warning? : Event → Option String
  | warning w => some w.message
  | _ => none

/-- Events in order. -/
def describeList (places : Bool) (events : List Event) : Value :=
  .array (events.map (describe places))

end Event

end ViewTree.Markup
