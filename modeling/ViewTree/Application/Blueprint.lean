import ViewTree.Instance.Render
/-!
# Blueprints

A blueprint describes what a render function builds: nodes with their bags and children, texts
of expressions, loops, conditions and slots. A studio says what it is built with: an instance's
own expressions, components and slots, or a bare context without an instance.
-/

namespace ViewTree

/-- The tag of a blueprint node. -/
inductive TagSpec where
  | html (tag : String)
  | named (definition : String)
  | inline (c : InlineComponent)
  | dynamic (v : Value)
  | dynamicExpr (source : String)

/-- The handler of an event: a template handler, or the application's listener of a label. -/
inductive HandlerSpec where
  | source (handler : String)
  | labelled (label : String)

/-- The data bag of a blueprint node; its parts are set in the order of the fields. -/
structure BagSpec where
  key : Option Value
  keyExpr : Option String
  is : Option TagSpec
  slot : Option String
  reference : Option String
  attrs : Dict Value
  bound : Dict String
  domProps : Dict Value
  staticClass : Option String
  classBinding : Option Value
  classExpr : Option String
  staticStyle : Option String
  styleBinding : Option Value
  on : Dict (List HandlerSpec)
  nativeOn : Dict (List HandlerSpec)
  directives : List DirectiveUse
  scopedSlots : Dict ScopedSlot
  observed : Bool

mutual

/-- A child. -/
inductive ChildSpec where
  | empty
  | text (t : String)
  | number (n : Number)
  | list (items : List ChildSpec)
  | value (v : Value)
  | slotContent (s : ScopedSlot)
  | call (r : CallSpec)
  | expr (source : String)
  | each (source : String) (names : List String) (body : ChildSpec)
  | choice (condition : String) (yes no : ChildSpec)
  | slot (name : String) (fallback : List ChildSpec)
  | node (v : VNode)

/-- A call of the element factory, or of a static tree. -/
inductive CallSpec where
  | static (index : Nat)
  | compiled (tag : Option TagSpec) (bag : BagSpec) (children : List ChildSpec)
      (mode : Normalization)
  | written (tag : Option TagSpec) (arg : ArgSpec) (children : Option (List ChildSpec))
      (mode : Normalization) (always : Bool)

/-- What stands in the place of the bag in a hand-written call. -/
inductive ArgSpec where
  | bag (b : BagSpec)
  | children (cs : List ChildSpec)
  | primitive (v : Value)
  | none

end

/-- What a blueprint is built with. -/
structure Studio (m : Type → Type) where
  resolve : Scope → String → m Value
  component : String → m (Option ComponentRef)
  listener : Scope → String → m Listener
  staticTree : Nat → m Rendered
  renderSlot : String → List Child → m Child
  compiled : Option TagRef → DataBag VNode → List Child → Normalization → m Rendered
  written : Option TagRef → DataArg → Option (List Child) → Normalization → Bool → m Rendered

namespace Studio

variable {m : Type → Type} [Monad m] (s : Studio m)

/-- The tag; a name that no definition has is no tag. -/
def tag (scope : Scope) : Option TagSpec → m (Option TagRef)
  | none => pure none
  | some (.html t) => pure (some (.html t))
  | some (.named definition) => do pure ((← s.component definition).map .component)
  | some (.inline c) => pure (some (.component (.inline c)))
  | some (.dynamic v) => pure (some (.dynamic v))
  | some (.dynamicExpr source) => do pure (some (.dynamic (← s.resolve scope source)))

/-- The listener of a handler. -/
def handler (scope : Scope) : HandlerSpec → m Listener
  | .source h => s.listener scope h
  | .labelled label => pure (.labelled label)

/-- The listeners of several handlers. -/
def handlers (scope : Scope) : List HandlerSpec → m (List Listener)
  | [] => pure []
  | h :: hs => do
    let listener ← s.handler scope h
    pure (listener :: (← handlers scope hs))

/-- The listeners of every event; an event without handlers has no entry. -/
def listeners (scope : Scope) : Dict (List HandlerSpec) → m (Dict (List Listener))
  | [] => pure []
  | (_, []) :: rest => listeners scope rest
  | (event, h :: hs) :: rest => do
    let own ← s.handlers scope (h :: hs)
    pure ((event, own) :: (← listeners scope rest))

/-- The value of an optional expression. -/
def optional (scope : Scope) : Option String → m (Option Value)
  | none => pure none
  | some source => do pure (some (← s.resolve scope source))

/-- Adds attributes whose values are expressions. -/
def bindAttrs (scope : Scope) (attrs : Dict Value) : Dict String → m (Dict Value)
  | [] => pure attrs
  | (name, source) :: rest => do
    let v ← s.resolve scope source
    bindAttrs scope (attrs.insert name v) rest

/-- The data bag; a later part replaces an earlier one. -/
def bag (scope : Scope) (b : BagSpec) : m (DataBag VNode) := do
  let keyValue ← s.optional scope b.keyExpr
  let is ← s.tag scope b.is
  let attrs ← s.bindAttrs scope b.attrs b.bound
  let classValue ← s.optional scope b.classExpr
  let on ← s.listeners scope b.on
  let nativeOn ← s.listeners scope b.nativeOn
  pure
    { key := keyValue <|> b.key
      is
      slot := b.slot
      reference := b.reference
      attrs
      domProps := b.domProps
      staticClass := b.staticClass
      classBinding := classValue <|> b.classBinding
      staticStyle := b.staticStyle
      styleBinding := b.styleBinding
      on
      nativeOn
      directives := b.directives
      scopedSlots := b.scopedSlots
      observed := b.observed }

/-- The scope of one turn of a loop: item, key and index under as many names as there are. -/
def loopScope (scope : Scope) (names : List String) (item key : Value) (index : Nat) : Scope :=
  (names.zip [item, key, .nat index]).foldl (fun s e => s.bind e.1 e.2) scope

/-- The children of a loop's turns in order. -/
def turns (body : Scope → m Child) (scope : Scope) (names : List String) :
    Nat → List (Value × Value) → m (List Child)
  | _, [] => pure []
  | index, (item, key) :: rest => do
    let c ← body (loopScope scope names item key index)
    pure (c :: (← turns body scope names (index + 1) rest))

mutual

/-- Builds a child in a scope. -/
def child : ChildSpec → Scope → m Child
  | .empty, _ => pure .empty
  | .text t, _ => pure (.text t)
  | .number n, _ => pure (.ofNumber n)
  | .list items, scope => do pure (.list (← childList items scope))
  | .value v, _ => pure (.ofValue v)
  | .slotContent slot, _ => pure (.slot slot)
  | .call r, scope => do pure (← call r scope).toChild
  | .expr source, scope => do pure (.text (← s.resolve scope source).display)
  | .each source names body, scope => do
    let v ← s.resolve scope source
    pure (.list (← turns (child body) scope names 0 (loopItems v)))
  | .choice condition yes no, scope => do
    if (← s.resolve scope condition).isTruthy then child yes scope else child no scope
  | .slot name fallback, scope => do
    let fallback ← childList fallback scope
    s.renderSlot name fallback
  | .node v, _ => pure (.node v)

/-- Builds children in order. -/
def childList : List ChildSpec → Scope → m (List Child)
  | [], _ => pure []
  | c :: cs, scope => do
    let c ← child c scope
    pure (c :: (← childList cs scope))

/-- Builds the children of a call that may have none. -/
def optionalChildren : Option (List ChildSpec) → Scope → m (Option (List Child))
  | none, _ => pure none
  | some cs, scope => do pure (some (← childList cs scope))

/-- Builds what stands in the place of the bag. -/
def arg : ArgSpec → Scope → m DataArg
  | .bag b, scope => do pure (.data (← s.bag scope b))
  | .children cs, scope => do pure (.children (← childList cs scope))
  | .primitive v, _ => pure (.primitive v)
  | .none, _ => pure .none

/-- Performs a call in a scope. -/
def call : CallSpec → Scope → m Rendered
  | .static index, _ => s.staticTree index
  | .compiled tag bag children mode, scope => do
    let tag ← s.tag scope tag
    let bag ← s.bag scope bag
    let children ← childList children scope
    s.compiled tag bag children mode
  | .written tag data children mode always, scope => do
    let tag ← s.tag scope tag
    let data ← arg data scope
    let children ← optionalChildren children scope
    s.written tag data children mode always

end

end Studio

namespace Application

variable (app : Application)

/-- An instance as the studio of its render functions. -/
def studio (vm : Uid) : Studio Run where
  resolve := app.resolveIn vm
  component name := do pure (((← get).definitionNames.get? name).map .definition)
  listener := listenerFor vm
  staticTree := app.staticTree vm
  renderSlot := renderSlot vm
  compiled tag bag children mode :=
    app.compiledElement vm (tag.getD (.html "")) bag children mode
  written tag arg children _ _ := app.writtenElement vm tag arg children

end Application

end ViewTree
