import ViewTree.World
/-!
# Which definitions live

A definition lives as long as something refers to it: a name of the application, an instance, or
another living definition, be it as the parent or as a registered component. Definitions that
refer to each other in a circle keep each other alive.
-/

namespace ViewTree

namespace ComponentOptions

mutual

/-- The definitions that options refer to. -/
def references : ComponentOptions → List Cid
  | { components, extending, mixins, .. } =>
    components.values ++ referencesOpt extending ++ referencesAll mixins

/-- The definitions that an optional layer refers to. -/
def referencesOpt : Option ComponentOptions → List Cid
  | none => []
  | some layer => references layer

/-- The definitions that layers refer to. -/
def referencesAll : List ComponentOptions → List Cid
  | [] => []
  | layer :: layers => references layer ++ referencesAll layers

end

end ComponentOptions

/-- The definition that a component reference stands for. -/
def ComponentRef.references : ComponentRef → List Cid
  | definition cid => [cid]
  | inline _ => []

namespace VNode

mutual

/-- The definitions whose placeholders stand in a tree. -/
def references : VNode → List Cid
  | element _ _ children _ _ => referencesAll children
  | component ⟨_, ctor, _, _, _, _, _, children, _⟩ => ctor.references ++ referencesAll children
  | text _ => []
  | comment _ => []

/-- The definitions whose placeholders stand in several trees. -/
def referencesAll : List VNode → List Cid
  | [] => []
  | v :: vs => references v ++ referencesAll vs

end

end VNode

/-- The definitions that a definition refers to. -/
def Definition.references (d : Definition) : List Cid :=
  d.parent.toList ++ d.options.references ++ d.extendOptions.references ++
    d.sealedOptions.references ++ ComponentOptions.referencesOpt d.superOptions

/-- The definitions that an instance refers to. -/
def Instance.references (vm : Instance) : List Cid :=
  vm.definition :: vm.options.references ++ VNode.referencesAll vm.vnode.toList ++
    VNode.referencesAll (vm.parentNode.toList.map .component) ++
    VNode.referencesAll (vm.staticTrees.flatMap fun tree => (tree.map Rendered.nodes).getD [])

namespace World

/-- The definitions that names and living instances refer to. -/
def definitionRoots (w : World) : List Cid :=
  w.definitionNames.values ++
    (List.range w.instances.length).flatMap fun uid =>
      if w.alive uid then ((w.instance? uid).map (·.references)).getD [] else []

/-- Drops the definitions that nothing left refers to, a number of times. -/
def dropUnreferenced (w : World) (roots : List Cid) : Nat → List Cid → List Cid
  | 0, left => left
  | n + 1, left =>
    let referenced :=
      roots ++ left.flatMap fun cid => ((w.definition? cid).map (·.references)).getD []
    dropUnreferenced w roots n (left.filter referenced.contains)

/-- The definitions that live. -/
def liveDefinitions (w : World) : List Cid :=
  dropUnreferenced w w.definitionRoots w.definitions.length (List.range w.definitions.length)

/-- The definition of a number lives. -/
def definitionLives (w : World) (cid : Cid) : Bool :=
  w.liveDefinitions.contains cid

end World

end ViewTree
