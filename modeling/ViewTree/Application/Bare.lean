import ViewTree.Application.Reader
/-!
# Building without an instance

The element factory needs only a context: an id, the components that are registered, and a place
for its remarks. Blueprints can be built with such a context alone; expressions have no value
then, and there are no slots and no static trees.
-/

namespace ViewTree

/-- What the element factory had to say, the latest first: the warnings, and the values it marked
as read. -/
structure Remarks where
  warnings : List String
  reads : List Value

/-- Building that takes remarks. -/
abbrev Building := StateM Remarks

/-- Builds and gives the remarks in the order they were made. -/
def Building.finish {α : Type} (b : Building α) : α × Remarks :=
  let (a, r) := b.run ⟨[], []⟩
  (a, ⟨r.warnings.reverse, r.reads.reverse⟩)

/-- The inline component that a reference is. -/
def ComponentRef.inline? : ComponentRef → Option InlineComponent
  | definition _ => none
  | inline c => some c

/-- A context of inline components. -/
def bareContext (id : Uid) (ns : Option String) (components : Dict InlineComponent) :
    RenderContext Building where
  id
  placeholderNs := ns
  resolveComponent tag := (Name.resolveAsset components tag).map .inline
  componentName ctor := pure (ctor.inline?.bind (·.name))
  propNames ctor := pure ((ctor.inline?.map (·.props)).getD [])
  isFunctional ctor := pure (ctor.inline?.bind (·.functional)).isSome
  renderFunctional ctor call :=
    pure ((ctor.inline?.bind (·.functional)).bind (·.render call))
  markRead v := modify fun r => { r with reads := v :: r.reads }
  warn message := modify fun r => { r with warnings := message :: r.warnings }

/-- A context as the studio of render calls. -/
def bareStudio (ctx : RenderContext Building) (components : Dict InlineComponent) :
    Studio Building where
  resolve _ _ := pure .null
  component name := pure ((components.get? name).map .inline)
  listener _ _ := pure .silent
  staticTree _ := pure .empty
  renderSlot _ _ := pure .empty
  compiled tag bag children mode := createElement ctx tag (.data bag) (some children) mode false
  written tag arg children mode always := createElement ctx tag arg children mode always

end ViewTree
