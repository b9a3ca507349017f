import ViewTree.Template.Builder
import ViewTree.Template.Generator
import ViewTree.Template.Lint
import ViewTree.Template.Static
/-!
# The compiler

A template is parsed, its static parts are marked, and its code is generated. Diagnostics of
these stages are collected, or handed to the receiver that the settings name; errors found in
expressions are always collected.
-/

namespace ViewTree.Template

/-- What the stages give: the tree and the render functions. -/
structure CompiledTemplate where
  ast : List Node
  render : String
  staticRenderFns : List String

/-- The stages from a template to its render functions. -/
abbrev Stage := Settings → String → CompiledTemplate × List Diagnostic

/-- Parses, marks static parts and generates. -/
def compileTemplate : Stage := fun s template =>
  let (ast, parsed) := parse s (Text.trim template)
  let ast := optimize s ast
  let (code, generated) := generateCode s ast
  (⟨ast, code.render, code.staticRenderFns⟩, parsed ++ generated)

/-- A compiled template with what is to be told about it. -/
structure CompiledResult where
  template : CompiledTemplate
  errors : List String
  tips : List String

/-- The result of a compilation, and the diagnostics that went to the custom receiver. -/
structure Compilation where
  result : CompiledResult
  received : List Diagnostic

/-- The texts of errors or of tips. -/
def messagesOf (tips : Bool) (ds : List Diagnostic) : List String :=
  (ds.filter (·.isTip == tips)).map (·.message)

/-- Compiles with settings that are final. -/
def compileWith (stage : Stage) (s : Settings) (template : String) : Compilation :=
  let (compiled, diagnostics) := stage s template
  let collected := if s.customReceiver then [] else diagnostics
  { result :=
      { template := compiled
        errors := messagesOf false collected ++ Lint.nodesErrors compiled.ast
        tips := messagesOf true collected }
    received := if s.customReceiver then diagnostics else [] }

/-- The render functions of a template. -/
structure CompiledFunctions where
  render : String
  staticRenderFns : List String
deriving DecidableEq

/-- A compiler: its settings, its stages, and the functions it has compiled so far under their
keys, in the order they were compiled. -/
structure Compiler where
  base : Settings
  stage : Stage
  cache : List (String × CompiledFunctions)

/-- What compiling to functions gives. `entry` is the place of the functions in the cache: calls
that give the same place give the same functions. -/
structure FunctionsResult where
  functions : CompiledFunctions
  entry : Nat
  received : List Diagnostic
  logged : List Diagnostic

namespace Compiler

/-- A compiler that has compiled nothing. -/
def new (base : Settings) (stage : Stage) : Compiler :=
  ⟨base, stage, []⟩

/-- The settings of a call. -/
def settings (c : Compiler) : Option Overrides → Settings
  | some o => c.base.override o
  | none => c.base

/-- Compiles a template. -/
def compile (c : Compiler) (template : String) (o : Option Overrides) : Compilation :=
  compileWith c.stage (c.settings o) template

/-- What functions are cached under: the template, behind the delimiters if any are given. -/
def cacheKey (s : Settings) (template : String) : String :=
  match s.delimiters with
  | some (opening, closing) => opening ++ "," ++ closing ++ template
  | none => template

/-- All errors of a template in one diagnostic. -/
def errorReport (template : String) (errors : List String) : List Diagnostic :=
  if errors.isEmpty then []
  else
    [.error ("Error compiling template:\n\n" ++ template ++ "\n\n" ++
      "\n".intercalate (errors.map ("- " ++ ·)) ++ "\n")]

/-- Compiles a template to functions, once for every key. Its diagnostics go to the custom
receiver, or else to the log. -/
def compileToFunctions (c : Compiler) (template : String) (o : Option Overrides) :
    FunctionsResult × Compiler :=
  let s := c.settings o
  let key := cacheKey s template
  match c.cache.findIdx? (·.1 == key) with
  | some entry =>
    let functions := ((c.cache[entry]?).map (·.2)).getD ⟨"", []⟩
    (⟨functions, entry, [], []⟩, c)
  | none =>
    let result := (compileWith c.stage { s with customReceiver := false } template).result
    let functions : CompiledFunctions := ⟨result.template.render, result.template.staticRenderFns⟩
    let told := errorReport template result.errors ++ result.tips.map .tip
    (⟨functions, c.cache.length, if s.customReceiver then told else [],
        if s.customReceiver then [] else told⟩,
      { c with cache := c.cache ++ [(key, functions)] })

end Compiler

end ViewTree.Template
