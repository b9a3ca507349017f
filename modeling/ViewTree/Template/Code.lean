import ViewTree.Text.Blank
/-!
# Generated code

Code is a list of pieces. Everything that comes from the template stands in literals; the fixed
text between them is the generator's own.
-/

namespace ViewTree.Template

/-- A piece of code: fixed text, a text literal, an expression read in the scope of the render
call, a listener made from a handler, or the call of a hoisted tree. -/
inductive Piece where
  | fixed (code : String)
  | literal (s : String)
  | read (expr : String)
  | listener (handler : String)
  | hoisted (index : Nat)
deriving DecidableEq

/-- Code in the order of its pieces. -/
abbrev Code := List Piece

/-- One character inside a literal. -/
def escapeChar (c : Char) : List Char :=
  if c = '\\' then ['\\', '\\']
  else if c = '"' then ['\\', '"']
  else if c = '\n' then ['\\', 'n']
  else if c = '\r' then ['\\', 'r']
  else if c = '\t' then ['\\', 't']
  else [c]

/-- A text as a literal. -/
def literal (s : String) : String :=
  String.ofList ('"' :: (s.toList.flatMap escapeChar ++ ['"']))

/-- The code that reads an expression. -/
def readCode (expr : String) : String :=
  "vm.resolve_in(&scope, " ++ literal expr ++ ")"

/-- The text of a piece. -/
def Piece.text : Piece → String
  | fixed code => code
  | literal s => Template.literal s
  | read expr => readCode expr
  | listener handler => "vm.listener(&scope, " ++ Template.literal handler ++ ")"
  | hoisted index => s!"Child::from(vm.static_tree({index}))"

namespace Code

/-- The text of code. -/
def text (code : Code) : String :=
  String.join (code.map Piece.text)

/-- The code that reads an expression, blanks around it aside. -/
def binding (expr : String) : Code :=
  [.read (Text.trim expr)]

/-- Codes with commas between them. -/
def commas : List Code → Code
  | [] => []
  | [code] => code
  | code :: rest => code ++ .fixed ", " :: commas rest

/-- A call with its arguments. -/
def call (name : String) (args : List Code) : Code :=
  .fixed (name ++ "(") :: commas args ++ [.fixed ")"]

/-- A list of codes. -/
def list (items : List Code) : Code :=
  .fixed "vec![" :: commas items ++ [.fixed "]"]

/-- A text literal that is converted to an owned text. -/
def owned (s : String) : Code :=
  [.literal s, .fixed ".into()"]

/-- A code that may be missing. -/
def optional : Option Code → Code
  | some code => call "Some" [code]
  | none => [.fixed "None"]

/-- A render function around its body. -/
def function (name : String) (body : Code) : Code :=
  .fixed ("#[allow(unused_variables)]\npub fn " ++ name ++
    "(vm: &vireo_core::Instance) -> vireo_dom::Rendered \x7b\n" ++
    "    use vireo_dom::*;\n    let scope = vireo_core::Scope::root();\n    vm.root(") ::
    body ++ [.fixed ")\n\x7d"]

end Code

end ViewTree.Template
