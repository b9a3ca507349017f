import ViewTree.Proofs.Template.BagCalls
/-!
# The call of an attribute

Attribute by attribute, `Attribute.call` says which call on the data bag is to be generated for it.
The call carries the name or the value of the attribute (`Attribute.carriedBy_call`), and it can be
read from the source (`Attribute.fits_call`).
-/

namespace ViewTree.Template

/-! ## Calls of attributes -/

/-- The call that shows an expression as a property of the element. -/
def displayCall (property : String) (a : Attribute) : BagCall :=
  .of "dom_prop" [[.literal property],
    Code.call "Value::from" [.fixed "vm.to_display(&" :: Code.binding a.valueText ++ [.fixed ")"]]]

/-- What is told of a directive that is attached to the node, from its name on. -/
def directiveFields (a : Attribute) : Code :=
  Code.owned a.name ++ .fixed ", value: " :: Code.optional (a.value.map Code.binding) ++
    .fixed ", expression: " :: Code.optional (a.value.map Code.owned) ++
    .fixed ", arg: " :: Code.optional (a.arg.map Code.owned) ++
    .fixed ", modifiers: " :: Code.list (a.modifiers.map Code.owned)

/-- The call that attaches a directive to the node. -/
def directiveCall (a : Attribute) : BagCall :=
  ⟨"directive", Token.marks "VNodeDirective \x7b name: " ++ Code.tokens (directiveFields a) ++
    Token.marks " \x7d"⟩

/-- The methods of a data bag that are called for attributes. -/
def bagMethods : List String :=
  ["key", "reference", "slot", "set", "bind", "dom_prop", "on", "native_on", "directive"]

namespace Attribute

/-- The attribute is to have a call in the data of its element: all do but directives that shape the
tree or leave nothing behind, and what names the tag of a dynamic component. -/
def hasCall (e : Element) (a : Attribute) : Bool :=
  match a.kind with
  | .plain => !(e.tag == "component" && a.name == "is")
  | .bind => !(e.tag == "component" && a.name == "is")
  | .on => true
  | .directive => !structuralDirectives.contains a.name && a.name != "cloak"

/-- A bound reference or a bound slot. -/
def isLost (a : Attribute) : Bool :=
  a.kind == .bind && (a.name == "ref" || a.name == "slot")

/-- The call that an attribute becomes. -/
def call (e : Element) (a : Attribute) : BagCall :=
  let name : Code := [.literal a.name]
  match a.kind with
  | .plain =>
    if a.name = "key" then .of "key" [Code.call "Value::from" [[.literal a.valueText]]]
    else if a.name = "ref" then .of "reference" [[.literal a.valueText]]
    else if a.name = "slot" then .of "slot" [[.literal a.valueText]]
    else .of "set" [name, [.literal a.valueText]]
  | .bind =>
    if a.name = "key" then .of "key" [Code.binding a.valueText]
    else
      let type := (e.plainAttr? "type").map Attribute.valueText
      let isProp := a.hasModifier "prop" || Settings.base.mustUseProp e.tag type a.name
      .of (if isProp then "dom_prop" else "bind") [name, Code.binding a.valueText]
  | .on =>
    .of (if a.hasModifier "native" then "native_on" else "on") [name, [.listener a.valueText]]
  | .directive =>
    if a.name = "text" then displayCall "textContent" a
    else if a.name = "html" then displayCall "innerHTML" a
    else directiveCall a

/-- The call is one on a data bag that carries the name or the value of the attribute. -/
def CarriedBy (a : Attribute) (c : BagCall) : Prop :=
  c.method ∈ bagMethods ∧
    ∃ s ∈ [a.name, a.valueText, Text.trim a.valueText], .quoted (Token.escape s) ∈ c.args

end Attribute

/-- The call for an entry of the extras, if it is there. -/
def extraCalls (e : Element) (key method : String) (arg : String → Code) : List BagCall :=
  match e.extras.get? key with
  | some v => [.of method [arg v]]
  | none => []

/-- The calls of what the extensions of the platform took. -/
def extensionCalls (e : Element) : List BagCall :=
  extraCalls e "staticClass" "static_class" (fun v => [.literal v]) ++
    extraCalls e "classBinding" "class" Code.binding ++
    extraCalls e "staticStyle" "static_style" (fun v => [.literal v]) ++
    extraCalls e "styleBinding" "style" Code.binding

/-! ## Single calls -/

section

variable (e : Element) (a : Attribute)

theorem tokens_displayDirective {property : String} (h : property ∈ ["textContent", "innerHTML"]) :
    Code.tokens (displayDirective property e a).data = (displayCall property a).written := by
  have hfront : (Piece.fixed (".dom_prop(\"" ++ property ++
        "\", Value::from(vm.to_display(&")).tokens =
      Token.marks ".dom_prop(" ++ .quoted (Token.escape property) ::
        Token.marks ", Value::from(vm.to_display(&" := by
    obtain rfl | rfl : property = "textContent" ∨ property = "innerHTML" := by simpa using h
    · decide +kernel
    · decide +kernel
  have hback : (Piece.fixed ")))").tokens = Token.marks ")))" := tokens_fixed (by decide)
  have hinner : (Piece.fixed "Value::from(").tokens = Token.marks "Value::from(" :=
    tokens_fixed (by decide)
  have hshow : (Piece.fixed "vm.to_display(&").tokens = Token.marks "vm.to_display(&" :=
    tokens_fixed (by decide)
  have hclose : (Piece.fixed ")").tokens = Token.marks ")" := tokens_fixed (by decide)
  have hcomma : (Piece.fixed ", ").tokens = Token.marks ", " := tokens_fixed (by decide)
  simp only [displayDirective, displayCall, BagCall.of, BagCall.written, Code.commas, Code.call,
    Code.tokens_append, Code.tokens_cons, Code.tokens_nil, hfront, hback, hshow, hclose, hcomma,
    List.append_assoc, List.cons_append, List.nil_append, (Piece.ends_literal property).2]
  have : (Piece.fixed ("Value::from" ++ "(")).tokens = Token.marks "Value::from(" := hinner
  rw [this]
  simp [Token.marks]

theorem tokens_runtimeDirective :
    Code.tokens (runtimeDirective a) = (directiveCall a).written := by
  have hcode : runtimeDirective a =
      .fixed ".directive(VNodeDirective \x7b name: " :: directiveFields a ++ [.fixed " \x7d)"] := by
    simp only [runtimeDirective, directiveFields, List.append_assoc, List.cons_append]
  have hfront : (Piece.fixed ".directive(VNodeDirective \x7b name: ").tokens =
      .mark '.' :: Token.marks "directive" ++
        .mark '(' :: Token.marks "VNodeDirective \x7b name: " :=
    tokens_fixed (by decide)
  have hback : (Piece.fixed " \x7d)").tokens = Token.marks " \x7d" ++ [.mark ')'] :=
    tokens_fixed (by decide)
  rw [hcode, Code.tokens_append, Code.tokens_cons, Code.tokens_cons, hfront, hback, directiveCall,
    BagCall.written]
  simp only [Code.tokens_nil, List.append_assoc, List.cons_append, List.append_nil]

theorem balanced_directiveFields : Code.Balanced (directiveFields a) := by
  have hvalue : Code.Balanced (Code.optional (a.value.map Code.binding)) :=
    Code.balanced_optional (by simp [Code.balanced_binding])
  have howned (o : Option String) : Code.Balanced (Code.optional (o.map Code.owned)) :=
    Code.balanced_optional (by simp [Code.balanced_owned])
  have hmodifiers : Code.Balanced (Code.list (a.modifiers.map Code.owned)) :=
    Code.balanced_list (by simp [Code.balanced_owned])
  have hfield {text : String} (h : ⟨text, [], []⟩ ∈ phrases) {code : Code}
      (hcode : Code.Balanced code) : Code.Balanced (.fixed text :: code) :=
    Code.Leads.cons h hcode
  exact ((((Code.balanced_owned a.name).append (hfield (by decide) hvalue)).append
    (hfield (by decide) (howned a.value))).append (hfield (by decide) (howned a.arg))).append
    (hfield (by decide) hmodifiers)

theorem fits_directiveCall : (directiveCall a).Fits := by
  have hfront : Token.nest [] (Token.marks "VNodeDirective \x7b name: ") = some ['\x7d'] := by
    decide +kernel
  have hfields : Token.nest ['\x7d'] (Code.tokens (directiveFields a)) = some ['\x7d'] :=
    Token.nest_frame (balanced_directiveFields a).brackets ['\x7d']
  have hback : Token.nest ['\x7d'] (Token.marks " \x7d") = some [] := by
    decide +kernel
  have hmethod : "directive".toList.all Token.isNameChar := by decide
  refine ⟨hmethod, ?_⟩
  rw [directiveCall, Token.nest_append, Token.nest_append, hfront, Option.bind_some, hfields,
    Option.bind_some, hback]

theorem fits_displayCall {property : String} : (displayCall property a).Fits := by
  refine BagCall.fits_of (by decide) fun arg harg => ?_
  obtain rfl | rfl : arg = [.literal property] ∨ arg = Code.call "Value::from"
      [.fixed "vm.to_display(&" :: Code.binding a.valueText ++ [.fixed ")"]] := by
    simpa using harg
  · exact Code.balanced_literal property
  · exact Code.balanced_call_one (by decide)
      ((Code.Leads.cons (by decide) ((Code.balanced_binding _).frame [')'])).append
        (Code.leads_phrase (by decide)))

theorem Attribute.fits_call : (a.call e).Fits := by
  have hliteral (s : String) : Code.Balanced [.literal s] := Code.balanced_literal s
  unfold Attribute.call
  cases a.kind with
  | plain =>
    dsimp only
    split
    · refine BagCall.fits_of (by decide) (List.forall_mem_singleton.2 ?_)
      exact Code.balanced_call_one (by decide) (hliteral _)
    · split
      · exact BagCall.fits_of (by decide) (by simp [hliteral])
      · split
        · exact BagCall.fits_of (by decide) (by simp [hliteral])
        · exact BagCall.fits_of (by decide) (by simp [hliteral])
  | bind =>
    dsimp only
    split
    · exact BagCall.fits_of (by decide) (by simp [Code.balanced_binding])
    · refine BagCall.fits_of ?_ (by simp [hliteral, Code.balanced_binding])
      split
      · decide
      · decide
  | on =>
    refine BagCall.fits_of ?_ (by simp [hliteral, Code.balanced_listener])
    split
    · decide
    · decide
  | directive =>
    dsimp only
    split
    · exact fits_displayCall a
    · split
      · exact fits_displayCall a
      · exact fits_directiveCall a

theorem literal_mem_tokens {s : String} {code : Code} (h : .literal s ∈ code) :
    .quoted (Token.escape s) ∈ code.tokens := by
  refine List.mem_flatMap.2 ⟨_, h, ?_⟩
  rw [(Piece.ends_literal s).2]
  exact List.mem_singleton_self _

theorem read_mem_tokens {s : String} {code : Code} (h : .read s ∈ code) :
    .quoted (Token.escape s) ∈ code.tokens := by
  refine List.mem_flatMap.2 ⟨_, h, ?_⟩
  rw [(Piece.ends_read s).2]
  simp

/-- An attribute that has a call has one that carries its name or its value. -/
theorem Attribute.carriedBy_call : a.CarriedBy (a.call e) := by
  have hname {method : String} (hmethod : method ∈ bagMethods) {args : List Code}
      (hargs : .literal a.name ∈ Code.commas args) : a.CarriedBy (.of method args) :=
    ⟨hmethod, a.name, by simp, literal_mem_tokens hargs⟩
  have hvalue {method : String} (hmethod : method ∈ bagMethods) {args : List Code}
      (hargs : .literal a.valueText ∈ Code.commas args) : a.CarriedBy (.of method args) :=
    ⟨hmethod, a.valueText, by simp, literal_mem_tokens hargs⟩
  have hread {method : String} (hmethod : method ∈ bagMethods) {args : List Code}
      (hargs : .read (Text.trim a.valueText) ∈ Code.commas args) : a.CarriedBy (.of method args) :=
    ⟨hmethod, Text.trim a.valueText, by simp, read_mem_tokens hargs⟩
  have hdisplay (property : String) : a.CarriedBy (displayCall property a) :=
    hread (by decide) (by simp [Code.commas, Code.call, Code.binding])
  unfold Attribute.call
  cases a.kind with
  | plain =>
    dsimp only
    split
    · exact hvalue (by decide) (by simp [Code.commas, Code.call])
    · split
      · exact hvalue (by decide) (by simp [Code.commas])
      · split
        · exact hvalue (by decide) (by simp [Code.commas])
        · exact hname (by decide) (by simp [Code.commas])
  | bind =>
    dsimp only
    split
    · exact hread (by decide) (by simp [Code.commas, Code.binding])
    · refine hname ?_ (by simp [Code.commas])
      split
      · decide
      · decide
  | on =>
    refine hname ?_ (by simp [Code.commas])
    split
    · decide
    · decide
  | directive =>
    dsimp only
    split
    · exact hdisplay _
    · split
      · exact hdisplay _
      · have hmethod : "directive" ∈ bagMethods := by decide
        refine ⟨hmethod, a.name, by simp, ?_⟩
        have hmem : .quoted (Token.escape a.name) ∈ Code.tokens (directiveFields a) :=
          literal_mem_tokens (by simp [directiveFields, Code.owned])
        exact List.mem_append_left _ (List.mem_append_right _ hmem)

end

end ViewTree.Template
