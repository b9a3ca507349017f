import ViewTree.Value.Basic
/-!
# Binding expressions

The expressions of templates: literals, property paths and negation. Evaluation reads one name,
the root of the path, and then follows the path inside its value; every step that is not there
gives null.
-/

namespace ViewTree

/-- One step of a path. -/
inductive Segment where
  | key (name : String)
  | index (i : Nat)
deriving DecidableEq

/-- A binding expression. -/
inductive Expr where
  | literal (v : Value)
  | path (root : String) (segments : List Segment)
  | not (inner : Expr)

/-- Why a text is no expression. -/
inductive ExprError where
  | empty
  | unexpected (ch : Char) (pos : Nat)
  | unterminatedString
  | unexpectedEnd
deriving DecidableEq

/-- The text of the error. -/
def ExprError.message : ExprError → String
  | empty => "empty expression"
  | unexpected ch pos => s!"unexpected character '{ch}' at {pos}"
  | unterminatedString => "unterminated string literal"
  | unexpectedEnd => "unexpected end of expression"

/-- One step into a value. Lists and texts have a `length`. -/
def Segment.step : Segment → Value → Value
  | key k, .object fields => (Dict.get? fields k).getD .null
  | key k, .array items => if k = "length" then .nat items.length else .null
  | key k, .string s => if k = "length" then .nat s.toList.length else .null
  | index i, .array items => items[i]?.getD .null
  | _, _ => .null

namespace Expr

/-- The name that the expression reads, if it reads one. -/
def root? : Expr → Option String
  | literal _ => none
  | path root _ => some root
  | not inner => inner.root?

/-- The value of the expression when its root has this value. -/
def applyTo (rootValue : Option Value) : Expr → Value
  | literal v => v
  | path _ segments => segments.foldl (fun v s => s.step v) (rootValue.getD .null)
  | not inner => .bool (!(inner.applyTo rootValue).isTruthy)

/-- The value of the expression under a meaning of names. -/
def eval (lookup : String → Option Value) (e : Expr) : Value :=
  e.applyTo (e.root?.bind lookup)

/-- The value of the expression where looking up a name has effects: the root is looked up
once. -/
def evalM {m : Type → Type} [Monad m] (lookup : String → m (Option Value)) (e : Expr) :
    m Value := do
  match e.root? with
  | none => pure (e.applyTo none)
  | some root => pure (e.applyTo (← lookup root))

end Expr

end ViewTree
