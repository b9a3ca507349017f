import ViewTree.Template.Syntax
import ViewTree.Text.Case
import ViewTree.Text.Search
/-!
# Kinds of attributes

`:x` and `v-bind:x` bind, `@x` and `v-on:x` listen, `#name` fills a slot, `v-name:arg.modifier`
is a directive, and anything else is plain. Directive names have one spelling, with dashes.
-/

namespace ViewTree.Template

/-- Capitals become a dash and the small letter, and underscores become dashes. -/
def dashed (cs : List Char) : List Char :=
  cs.flatMap fun c =>
    if c = '_' then ['-'] else if c.isUpper then ['-', c.toLower] else [c]

/-- Runs of dashes become one dash; `after` says that a dash stands in front. -/
def collapseDashes (after : Bool) : List Char → List Char
  | [] => []
  | c :: cs =>
    if c = '-' then
      if after then collapseDashes true cs else c :: collapseDashes true cs
    else c :: collapseDashes false cs

/-- The characters without dashes at either end. -/
def trimDashes (cs : List Char) : List Char :=
  ((cs.dropWhile (· == '-')).reverse.dropWhile (· == '-')).reverse

/-- The one spelling of a directive's name. -/
def normalizeName (name : String) : String :=
  String.ofList (trimDashes (collapseDashes false (dashed name.toList)))

namespace Attribute

/-- A value, where the empty text is none. -/
def value? (value : String) : Option String :=
  if value = "" then none else some value

/-- A plain attribute. -/
def ofPlain (name value : String) (span : Option Markup.Span) : Attribute :=
  ⟨name, value? value, .plain, none, [], name, span⟩

/-- The attribute has a kind of its own by the way it begins. -/
def isDynamic (rawName : String) : Bool :=
  match rawName.toList with
  | 'v' :: '-' :: _ => true
  | c :: _ => c == ':' || c == '@' || c == '#'
  | [] => false

/-- The directive's name in its one spelling; `elseif` is the same as `else-if`. -/
def directiveName (name : String) : String :=
  let normal := normalizeName name
  if normal = "elseif" then "else-if" else normal

/-- The kind, name and argument that a name without modifiers stands for. -/
def classifyBase (base : List Char) : AttrKind × String × Option String :=
  let afterOne := fun (short : List Char) (long : String) =>
    (Text.stripStart? short base).orElse fun _ => Text.stripStart? long.toList base
  match afterOne [':'] "v-bind:", afterOne ['@'] "v-on:", Text.stripStart? ['#'] base with
  | some name, _, _ => (.bind, String.ofList name, none)
  | none, some name, _ => (.on, String.ofList name, none)
  | none, none, some name => (.directive, "slot", some (String.ofList name))
  | none, none, none =>
    let name := base.drop 2
    match Text.splitAt? [':'] name with
    | some (name, arg) =>
      (.directive, directiveName (String.ofList name), some (String.ofList arg))
    | none => (.directive, directiveName (String.ofList name), none)

/-- The attribute that a name and a value stand for. -/
def classify (rawName value : String) (span : Option Markup.Span) : Attribute :=
  if isDynamic rawName then
    match Text.splitOnChar '.' rawName.toList with
    | [] => ofPlain rawName value span
    | base :: modifiers =>
      let (kind, name, arg) := classifyBase base
      ⟨name, value? value, kind, arg, modifiers.map String.ofList, rawName, span⟩
  else ofPlain rawName value span

end Attribute

end ViewTree.Template
