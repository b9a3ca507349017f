import ViewTree.Markup.Tokenizer
import ViewTree.Template.Code
import ViewTree.Template.Syntax
/-!
# Settings of the compiler

What the platform's tags mean, how markup is read, which directives are compiled away, and the
extensions that take attributes out of elements. Settings of one call are laid over those of the
compiler.
-/

namespace ViewTree.Template

/-- What a compiled directive adds to the code of the data bag, and whether the directive is also
attached to the node. -/
structure DirectiveCode where
  data : Code
  needsRuntime : Bool

/-- How a directive is compiled. -/
abbrev DirectiveRule := Element → Attribute → DirectiveCode

/-- A part of the compiler for certain attributes: `transform` takes them out of an element that
is closed, and `data` gives the code for what it took. Keys of its extras that do not keep an
element from being static are `staticKeys`. -/
structure Extension where
  staticKeys : List String
  transform : Element → Element
  data : Element → Code

/-- The settings of a compiler. `staticKeys` is a list with commas. With a custom receiver,
diagnostics are handed over instead of collected. -/
structure Settings where
  expectHtml : Bool
  extensions : List Extension
  directives : Dict DirectiveRule
  isPreTag : String → Bool
  isUnaryTag : String → Bool
  mustUseProp : String → Option String → String → Bool
  canBeLeftOpen : String → Bool
  isReservedTag : String → Bool
  tagNamespace : String → Option String
  staticKeys : String
  customReceiver : Bool
  decodeNewlines : Bool
  decodeHrefNewlines : Bool
  sourceRange : Bool
  comments : Bool
  delimiters : Option (String × String)

/-- Settings of one call; what is missing stays as it is. -/
structure Overrides where
  extensions : List Extension
  directives : Dict DirectiveRule
  expectHtml : Option Bool
  isPreTag : Option (String → Bool)
  isUnaryTag : Option (String → Bool)
  mustUseProp : Option (String → Option String → String → Bool)
  canBeLeftOpen : Option (String → Bool)
  isReservedTag : Option (String → Bool)
  tagNamespace : Option (String → Option String)
  staticKeys : Option String
  customReceiver : Bool
  decodeNewlines : Option Bool
  decodeHrefNewlines : Option Bool
  sourceRange : Option Bool
  comments : Option Bool
  delimiters : Option (String × String)

/-- Nothing is overridden. -/
def Overrides.none : Overrides where
  extensions := []
  directives := []
  expectHtml := .none
  isPreTag := .none
  isUnaryTag := .none
  mustUseProp := .none
  canBeLeftOpen := .none
  isReservedTag := .none
  tagNamespace := .none
  staticKeys := .none
  customReceiver := false
  decodeNewlines := .none
  decodeHrefNewlines := .none
  sourceRange := .none
  comments := .none
  delimiters := .none

namespace Settings

/-- The settings with those of a call over them. Extensions are added behind the others, and
directives replace those of their name. -/
def override (s : Settings) (o : Overrides) : Settings where
  expectHtml := o.expectHtml.getD s.expectHtml
  extensions := s.extensions ++ o.extensions
  directives := s.directives.overlay o.directives
  isPreTag := o.isPreTag.getD s.isPreTag
  isUnaryTag := o.isUnaryTag.getD s.isUnaryTag
  mustUseProp := o.mustUseProp.getD s.mustUseProp
  canBeLeftOpen := o.canBeLeftOpen.getD s.canBeLeftOpen
  isReservedTag := o.isReservedTag.getD s.isReservedTag
  tagNamespace := o.tagNamespace.getD s.tagNamespace
  staticKeys := o.staticKeys.getD s.staticKeys
  customReceiver := o.customReceiver || s.customReceiver
  decodeNewlines := o.decodeNewlines.getD s.decodeNewlines
  decodeHrefNewlines := o.decodeHrefNewlines.getD s.decodeHrefNewlines
  sourceRange := o.sourceRange.getD s.sourceRange
  comments := o.comments.getD s.comments
  delimiters := o.delimiters <|> s.delimiters

/-- How the markup of a template is read. -/
def dialect (s : Settings) : Markup.Dialect where
  expectHtml := s.expectHtml
  isUnary := s.isUnaryTag
  canBeLeftOpen := s.canBeLeftOpen
  keepComments := s.comments
  decodeNewlines := s.decodeNewlines
  decodeHrefNewlines := s.decodeHrefNewlines

/-- The delimiters of interpolated expressions. -/
def delimiterPair (s : Settings) : String × String :=
  s.delimiters.getD ("\x7b\x7b", "\x7d\x7d")

/-- A key of the extras does not keep an element from being static. -/
def isStaticKey (s : Settings) (key : String) : Bool :=
  ((Text.splitOnChar ',' s.staticKeys.toList).map String.ofList).contains key

end Settings

end ViewTree.Template
