import ViewTree.Template.Settings
/-!
# Settings for the web platform

Classes and styles are taken out of elements by extensions, and three directives are compiled
away.
-/

namespace ViewTree.Template

/-- The element with the first attribute of a kind and name moved to its extras. -/
def lift (kind : AttrKind) (name key : String) (f : String → String) (e : Element) : Element :=
  match e.takeAttr? kind name with
  | some (a, e) => { e with extras := e.extras.insert key (f a.valueText) }
  | none => e

/-- The code for an entry of the extras, if it is there. -/
def extraCode (e : Element) (key method : String) (arg : String → Code) : Code :=
  match e.extras.get? key with
  | some v => .fixed ("." ++ method ++ "(") :: arg v ++ [.fixed ")"]
  | none => []

/-- The words of a class attribute with single spaces between them. -/
def normalizeClass (text : String) : String :=
  " ".intercalate (Text.words text)

/-- One declaration of a style without idle blanks; without a colon or a name it is none. -/
def styleDeclaration? (decl : List Char) : Option String := do
  let (prop, value) ← Text.splitAt? [':'] decl
  let prop := Text.trimChars prop
  if prop.isEmpty then none
  else some (String.ofList (prop ++ ':' :: Text.trimChars value))

/-- The declarations of a style without idle blanks. -/
def normalizeStyle (text : String) : String :=
  ";".intercalate ((Text.splitOnChar ';' text.toList).filterMap styleDeclaration?)

/-- Takes `class` and `:class`. -/
def classExtension : Extension where
  staticKeys := ["staticClass"]
  transform e :=
    lift .bind "class" "classBinding" Text.trim
      (lift .plain "class" "staticClass" normalizeClass e)
  data e :=
    extraCode e "staticClass" "static_class" (fun v => [.literal v]) ++
      extraCode e "classBinding" "class" Code.binding

/-- Takes `style` and `:style`. -/
def styleExtension : Extension where
  staticKeys := ["staticStyle"]
  transform e :=
    lift .bind "style" "styleBinding" Text.trim
      (lift .plain "style" "staticStyle" normalizeStyle e)
  data e :=
    extraCode e "staticStyle" "static_style" (fun v => [.literal v]) ++
      extraCode e "styleBinding" "style" Code.binding

/-- A directive that shows its expression as a property of the element. -/
def displayDirective (property : String) : DirectiveRule := fun _ a =>
  { data :=
      .fixed (".dom_prop(\"" ++ property ++ "\", Value::from(vm.to_display(&") ::
        Code.binding a.valueText ++ [.fixed ")))"]
    needsRuntime := false }

/-- A directive that leaves nothing behind. -/
def cloakDirective : DirectiveRule := fun _ _ =>
  ⟨[], false⟩

/-- The static keys of extensions as a list with commas. -/
def staticKeysOf (extensions : List Extension) : String :=
  ",".intercalate (extensions.flatMap (·.staticKeys))

/-- The settings for the web platform. -/
def Settings.base : Settings where
  expectHtml := true
  extensions := [classExtension, styleExtension]
  directives :=
    Dict.ofList
      [("text", displayDirective "textContent"), ("html", displayDirective "innerHTML"),
        ("cloak", cloakDirective)]
  isPreTag := Platform.isPreTag
  isUnaryTag := Platform.isUnaryTag
  mustUseProp := Platform.mustUseProp
  canBeLeftOpen := Platform.canBeLeftOpen
  isReservedTag := Platform.isReservedTag
  tagNamespace := Platform.tagNamespace
  staticKeys := staticKeysOf [classExtension, styleExtension]
  customReceiver := false
  decodeNewlines := false
  decodeHrefNewlines := false
  sourceRange := false
  comments := false
  delimiters := none

/-- Three directives have rules on the platform. -/
theorem get?_base_directives {name : String} {rule : DirectiveRule}
    (h : Settings.base.directives.get? name = some rule) :
    name = "text" ∧ rule = displayDirective "textContent" ∨
      name = "html" ∧ rule = displayDirective "innerHTML" ∨
      name = "cloak" ∧ rule = cloakDirective := by
  simp only [Settings.base, Dict.ofList, List.foldl_cons, List.foldl_nil, Dict.get?_insert,
    Dict.get?_nil] at h
  split at h
  · exact .inr (.inr ⟨(‹"cloak" = name›).symm, (Option.some.inj h).symm⟩)
  · split at h
    · exact .inr (.inl ⟨(‹"html" = name›).symm, (Option.some.inj h).symm⟩)
    · split at h
      · exact .inl ⟨(‹"text" = name›).symm, (Option.some.inj h).symm⟩
      · cases h

theorem get?_base_directives_eq_none {name : String}
    (h : Settings.base.directives.get? name = none) :
    name ≠ "text" ∧ name ≠ "html" ∧ name ≠ "cloak" := by
  refine ⟨?_, ?_, ?_⟩ <;> rintro rfl <;> exact absurd h (by simp [Settings.base, Dict.ofList])

end ViewTree.Template
