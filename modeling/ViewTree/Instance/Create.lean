import ViewTree.Component.Ownership
import ViewTree.Instance.Lifecycle
/-!
# Creating the component behind a placeholder

The definition is looked up by the number that the placeholder carries, and may be gone.
-/

namespace ViewTree

namespace Application

variable (app : Application)

/-- Creates the component behind a placeholder that an instance rendered. -/
def createChild (vm : Uid) (node : Placeholder VNode) : Run (Option Uid) := do
  if (← get).definitionLives node.ctor.cid then
    some <$> app.newChild node.ctor.cid vm ⟨node, none, none⟩
  else
    Run.warn s!"Unknown component definition: {node.tag}" (some vm)
    pure none

end Application

end ViewTree
