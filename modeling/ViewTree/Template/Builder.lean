import ViewTree.Template.Attribute
import ViewTree.Template.Defaults
import ViewTree.Template.Interpolation
/-!
# Building the tree

The builder follows the events of the markup with a stack of open elements. What cannot stand in
a template is left out of the tree and reported; blanks between elements shrink to one space.
-/

namespace ViewTree.Template

/-- What is wrong with a template. -/
inductive TemplateError where
  | textOnly
  | noRoot
  | textOutsideRoot (text : String)
  | multipleRoots
  | multiNodeRoot (tag : String)
  | loopOnRoot
  | elseWithoutIf (raw tag : String)
  | textBetweenBranches (text : String)
  | sideEffectTag (tag : String)
  | duplicateAttribute (name : String)
  | interpolationInAttribute (raw : String)
  | markup (w : Markup.Warning)
deriving DecidableEq

/-- The text of the error. -/
def TemplateError.message : TemplateError → String
  | textOnly => "Component template requires a root element, rather than just text."
  | noRoot => "Component template requires a root element."
  | textOutsideRoot text => "text \"" ++ text ++ "\" outside root element will be ignored."
  | multipleRoots =>
    "Component template should contain exactly one root element. " ++
      "If you are using v-if on multiple elements, use v-else-if to chain them instead."
  | multiNodeRoot tag =>
    "Cannot use <" ++ tag ++
      "> as component root element because it may contain multiple nodes."
  | loopOnRoot =>
    "Cannot use v-for on stateful component root element because it renders multiple elements."
  | elseWithoutIf raw tag =>
    raw ++ " used on element <" ++ tag ++ "> without corresponding v-if."
  | textBetweenBranches text =>
    "text \"" ++ text ++ "\" between v-if and v-else(-if) will be ignored."
  | sideEffectTag tag =>
    "Templates should only be responsible for mapping the state to the UI. " ++
      "Avoid placing tags with side-effects in your templates, such as <" ++ tag ++
      ">, as they will not be parsed."
  | duplicateAttribute name => "duplicate attribute: " ++ name
  | interpolationInAttribute raw =>
    raw ++ ": Interpolation inside attributes has been removed. " ++
      "Use v-bind or the colon shorthand instead."
  | markup w => w.message

/-- An element that is open. A dropped one is left out of the tree when it is closed; `opensPre`
tells that everything inside is to be taken as it stands. -/
structure OpenNode where
  element : Element
  dropped : Bool
  opensPre : Bool

/-- The state of the builder. The innermost open element comes first, and so does the latest
report. -/
structure Builder where
  stack : List OpenNode
  roots : List Node
  preDepth : Nat
  inPre : Bool
  toldMultipleRoots : Bool
  toldTextOnly : Bool
  reports : List TemplateError

namespace Builder

/-- Nothing is built yet. -/
def start : Builder :=
  ⟨[], [], 0, false, false, false, []⟩

/-- Reports an error. -/
def report (b : Builder) (e : TemplateError) : Builder :=
  { b with reports := e :: b.reports }

/-- Reports errors in order. -/
def reportAll (b : Builder) (es : List TemplateError) : Builder :=
  es.foldl report b

/-- What has to go before a further branch of a condition can join the element in front of it:
the nodes back to the nearest element, which come latest first. -/
def dropToElement : List Node → List TemplateError × List Node
  | [] => ([], [])
  | .element e :: rest => ([], .element e :: rest)
  | .comment _ :: rest => dropToElement rest
  | .text t :: rest => between t (dropToElement rest)
  | .interpolation t :: rest => between t (dropToElement rest)
where
  /-- A text in between is reported unless it is blank. -/
  between (t : String) (p : List TemplateError × List Node) : List TemplateError × List Node :=
    (if Text.allBlank t then p.1 else .textBetweenBranches (Text.trim t) :: p.1, p.2)

/-- The latest of the nodes is a condition that a further branch can join. -/
def canJoin : List Node → Bool
  | .element e :: _ => e.hasDirective "if" || e.hasDirective "else-if"
  | _ => false

/-- The branch directive of an element as it is written. -/
def branchText (e : Element) : String :=
  (((e.directive? "else-if") <|> (e.directive? "else")).map Attribute.raw).getD ""

/-- The siblings with an element behind them. A further branch without a condition in front of it
is left out. -/
def attach (siblings : List Node) (e : Element) : List TemplateError × List Node :=
  if e.isBranch then
    let (errors, kept) := dropToElement siblings.reverse
    if canJoin kept then (errors, (.element e :: kept).reverse)
    else (errors ++ [.elseWithoutIf (branchText e) e.tag], kept.reverse)
  else ([], siblings ++ [.element e])

/-- The children without a single space at their end. -/
def dropTrailingSpace (children : List Node) : List Node :=
  match children.getLast? with
  | some (.text " ") => children.dropLast
  | _ => children

/-- An element that ends at `stop`, as it goes into the tree. -/
def finish (s : Settings) (preDepth : Nat) (e : Element) (stop : Nat) : Element :=
  let e :=
    { e with
      children := if preDepth = 0 then dropTrailingSpace e.children else e.children
      span := e.span.map fun span => ⟨span.start, stop⟩ }
  s.extensions.foldl (fun e x => x.transform e) e

/-- Puts a closed element among the children of the innermost open one, or among the roots. -/
def place (b : Builder) (e : Element) : Builder :=
  match b.stack with
  | [] =>
    let (errors, roots) := attach b.roots e
    { b with roots := roots }.reportAll errors
  | parent :: rest =>
    let (errors, children) := attach parent.element.children e
    let parent := { parent with element := { parent.element with children := children } }
    { b with stack := parent :: rest }.reportAll errors

/-- Closes an element that is off the stack already. -/
def close (s : Settings) (b : Builder) (o : OpenNode) (stop : Nat) : Builder :=
  let e := finish s b.preDepth o.element stop
  let b :=
    { b with
      preDepth := if s.isPreTag o.element.tag then b.preDepth - 1 else b.preDepth
      inPre := b.inPre && !o.opensPre }
  if o.dropped then b else b.place e

/-- Elements that have effects of their own: styles, and scripts that a browser would run. -/
def isForbidden (e : Element) : Bool :=
  e.tag == "style" ||
    (e.tag == "script" &&
      (match e.plainAttr? "type" with
      | some a => a.valueText == "text/javascript"
      | none => true))

/-- The attribute that a written one stands for, and what is wrong with it. -/
def readAttribute (s : Settings) (inPre : Bool) (a : Markup.Attribute) :
    Attribute × List TemplateError :=
  let span := if s.sourceRange then some a.span else none
  if inPre then (.ofPlain a.name a.value span, [])
  else
    let attr := Attribute.classify a.name a.value span
    let (opening, closing) := s.delimiterPair
    if attr.kind == .plain && (splitInterpolations a.value opening closing).isSome then
      (attr, [.interpolationInAttribute attr.raw])
    else (attr, [])

/-- The attributes of an element, and what is wrong with them, where `seen` are the names of those
in front. -/
def readAttributes (s : Settings) (inPre : Bool) :
    List String → List Markup.Attribute → List Attribute × List TemplateError
  | _, [] => ([], [])
  | seen, a :: rest =>
    let (attr, errors) := readAttribute s inPre a
    let (attrs, more) := readAttributes s inPre (a.name :: seen) rest
    (attr :: attrs,
      (if seen.contains a.name then [.duplicateAttribute a.name] else []) ++ errors ++ more)

/-- What is wrong with an element as the root. -/
def rootErrors (e : Element) : List TemplateError :=
  (if e.tag == "slot" || e.tag == "template" then [.multiNodeRoot e.tag] else []) ++
    (if e.hasDirective "for" then [.loopOnRoot] else [])

/-- Whether an element that begins outside of all others is to be dropped; a further root is,
unless it is a branch. -/
def checkRoot (b : Builder) (e : Element) : Builder × Bool :=
  if b.roots.isEmpty || e.isBranch then (b.reportAll (rootErrors e), false)
  else if b.toldMultipleRoots then (b, true)
  else ({ b with toldMultipleRoots := true }.report .multipleRoots, true)

/-- A start tag. -/
def onStart (s : Settings) (b : Builder) (tag : String) (attrs : List Markup.Attribute)
    (unary : Bool) (span : Markup.Span) : Builder :=
  let ns := (b.stack.head?.bind (·.element.ns)) <|> s.tagNamespace tag
  let opensPre := !b.inPre && attrs.any (·.name == "v-pre")
  let inPre := b.inPre || opensPre
  let (attributes, errors) := readAttributes s inPre [] attrs
  let e : Element :=
    { Element.new tag with
      attrs := attributes
      selfClosing := unary
      ns
      span := if s.sourceRange then some span else none }
  let b := { b with inPre := inPre }.reportAll errors
  let forbidden := isForbidden e
  let b := if forbidden then b.report (.sideEffectTag tag) else b
  let b := { b with preDepth := if s.isPreTag tag then b.preDepth + 1 else b.preDepth }
  let (b, dropped) :=
    if b.stack.isEmpty && !forbidden then b.checkRoot e else (b, forbidden)
  let o : OpenNode := ⟨e, dropped, opensPre⟩
  if unary then close s b o span.stop else { b with stack := o :: b.stack }

/-- An end tag. -/
def onStop (s : Settings) (b : Builder) (stop : Nat) : Builder :=
  match b.stack with
  | [] => b
  | o :: rest => close s { b with stack := rest } o stop

/-- The text that a parent takes from a piece of markup: blanks between elements are one space,
and blanks at the front are nothing. -/
def shownText? (preDepth : Nat) (parent : Element) (text : String) : Option String :=
  if preDepth > 0 || !Text.allBlank text then
    some (if parent.tag == "script" || parent.tag == "style" then text else decodeText text)
  else if parent.children.isEmpty then none
  else some " "

/-- The nodes that a shown text adds behind the children. -/
def textNodes (s : Settings) (inPre : Bool) (children : List Node) (text : String) : List Node :=
  let (opening, closing) := s.delimiterPair
  let parts := if inPre || text == " " then none else splitInterpolations text opening closing
  match parts with
  | some parts => parts
  | none =>
    match text, children.getLast? with
    | " ", some (.text " ") => []
    | _, _ => [.text text]

/-- A text outside of all elements. -/
def outerText (template : String) (b : Builder) (text : String) : Builder :=
  if text == template then { b with toldTextOnly := true }.report .textOnly
  else if Text.allBlank text then b
  else b.report (.textOutsideRoot (Text.trim text))

/-- A text. -/
def onText (s : Settings) (template : String) (b : Builder) (text : String) : Builder :=
  match b.stack with
  | [] => outerText template b text
  | parent :: rest =>
    match shownText? b.preDepth parent.element text with
    | none => b
    | some shown =>
      let children := parent.element.children
      let added := children ++ textNodes s b.inPre children shown
      let parent := { parent with element := { parent.element with children := added } }
      { b with stack := parent :: rest }

/-- A comment; outside of all elements it is dropped. -/
def onComment (b : Builder) (text : String) : Builder :=
  match b.stack with
  | [] => b
  | parent :: rest =>
    let children := parent.element.children ++ [.comment text]
    let parent := { parent with element := { parent.element with children := children } }
    { b with stack := parent :: rest }

/-- The builder after one event. -/
def step (s : Settings) (template : String) (b : Builder) : Markup.Event → Builder
  | .start tag attrs unary span => onStart s b tag attrs unary span
  | .stop _ span => onStop s b span.stop
  | .text t _ => onText s template b t
  | .comment t _ => b.onComment t
  | .warning w => b.report (.markup w)

end Builder

/-- The roots of a template, and what is wrong with it in the order it was found. The first root
is the component's; others are further branches of its condition. -/
def parseWith (s : Settings) (template : String) : List Node × List TemplateError :=
  let b := (Markup.tokenize s.dialect template).foldl (Builder.step s template) .start
  let b :=
    if b.roots.isEmpty && !Text.allBlank template && !b.toldTextOnly then b.report .noRoot else b
  (b.roots, b.reports.reverse)

/-- The roots of a template and its diagnostics. -/
def parse (s : Settings) (template : String) : List Node × List Diagnostic :=
  let (roots, errors) := parseWith s template
  (roots, errors.map fun e => .error e.message)

/-- The roots of a template without errors under the settings of the platform, blanks around it
aside; otherwise the texts of its errors, each on a line. -/
def parseStrict (template : String) : Except String (List Node) :=
  let (roots, errors) := parseWith .base (Text.trim template)
  if errors.isEmpty then .ok roots
  else .error ("\n".intercalate (errors.map (·.message)))

end ViewTree.Template
