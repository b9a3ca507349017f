import ViewTree.Component.Options
import ViewTree.VNode.Describe
/-!
# Options as values

The form in which the options of a component are handed out. Callbacks show by the name they are
registered under, and hooks by the identifier of their callback.
-/

namespace ViewTree

/-- A default: null without one, the value itself, or that a factory makes it. -/
def DefaultValue.describe? : Option DefaultValue → Value
  | none => .null
  | some (.value v) => .record [("value", v)]
  | some (.factory _) => .string "factory"

/-- The declaration of a prop. -/
def PropOptions.describe (p : PropOptions) : Value :=
  .record
    [("types", .strings (p.types.map PropType.name)), ("required", .bool p.required),
      ("default", DefaultValue.describe? p.default), ("validator", .bool p.validator.isSome)]

/-- The declaration of an injected value. -/
def InjectOptions.describe (i : InjectOptions) : Value :=
  .record [("from", .string i.source), ("default", DefaultValue.describe? i.default)]

namespace ComponentOptions

/-- The options field by field, where `label` gives the identifiers of hooks. -/
def describe (label : CallbackId → Option String) (o : ComponentOptions) : Value :=
  .record
    [("name", .optString o.name),
      ("el", .optString o.el),
      ("props_data", match o.propsData with
        | some props => .object props
        | none => .null),
      ("data", .bool o.data.isSome),
      ("props", .object (o.props.mapValues PropOptions.describe)),
      ("methods", .strings o.methods.keys),
      ("computed", .strings o.computed.keys),
      ("watch", .object (o.watch.mapValues fun ws => .array (ws.map fun w => .bool w.immediate))),
      ("hooks", .record (o.hooks.map fun e =>
        (e.1.name, .array (e.2.map fun id => .optString (label id))))),
      ("error_captured", .nat o.errorCaptured.length),
      ("components", .object (o.components.mapValues Value.nat)),
      ("directives", .strings o.directives.keys),
      ("filters", .strings o.filters.keys),
      ("provide", .bool o.provide.isSome),
      ("inject", .object (o.inject.mapValues InjectOptions.describe)),
      ("render", .bool o.render.isSome),
      ("static_render_fns", .nat o.staticRenderFns.length),
      ("template", .optString o.template),
      ("functional", .bool o.functional),
      ("delimiters", match o.delimiters with
        | some (opening, closing) => .strings [opening, closing]
        | none => .null),
      ("extends", .bool o.extending.isSome),
      ("mixins", .nat o.mixins.length)]

/-- The options, or null when there are none. -/
def describe? (label : CallbackId → Option String) : Option ComponentOptions → Value
  | some o => o.describe label
  | none => .null

end ComponentOptions

end ViewTree
