import ViewTree.Markup.Describe
import ViewTree.SingleFile
import ViewTree.Template.Describe
import ViewTree.Text.Quoted
import ViewTree.Value.Printer
/-!
# The commands

What the commands do with a file that was read: they take the template out of it and compile it,
or list the events of its markup. Reading and writing files is left to the caller.
-/

namespace ViewTree.Command

/-- What a compilation writes: the render functions, or all of its result. -/
inductive EmitMode where
  | render
  | json
deriving DecidableEq

/-- Settings of a command. -/
structure Arguments where
  comments : Bool
  delimiters : Option (String × String)

/-- Why a command fails. -/
inductive Failure where
  | unreadable (file : String)
  | malformed (file : String)
  | noTemplate (file : String)
deriving DecidableEq

/-- The text of the failure. -/
def Failure.message : Failure → String
  | unreadable file => "failed to read " ++ file
  | malformed file => "failed to split " ++ file
  | noTemplate file => file ++ " has no <template> block"

/-- The pair of delimiters that an argument gives, neither of them empty. -/
def parseDelimiters (arg : String) : Except String (String × String) :=
  match Text.splitOnce? ',' arg with
  | some (opening, closing) =>
    if opening = "" || closing = "" then refused else .ok (opening, closing)
  | none => refused
where
  /-- The argument is no pair. -/
  refused : Except String (String × String) :=
    .error ("expected OPEN,CLOSE delimiters, got " ++ Text.quoted arg)

/-- The last part of a path. -/
def fileName (path : String) : List Char :=
  let parts := (Text.splitOnChar '/' path.toList).filter fun p => !p.isEmpty && p != ['.']
  parts.getLast?.getD []

/-- A file name up to its last dot, and what comes after it. A dot in front does not count. -/
def splitExtension (name : List Char) : List Char × Option (List Char) :=
  let ending := (name.reverse.takeWhile (· != '.')).reverse
  let stem := name.take (name.length - ending.length - 1)
  if name.contains '.' && !stem.isEmpty && name != ['.', '.'] then (stem, some ending)
  else (name, none)

/-- The file is a single-file component by its name. -/
def isSingleFile (path : String) : Bool :=
  match (splitExtension (fileName path)).2 with
  | some ending => ending == ['v', 'u', 'e'] || ending == ['v', 'x']
  | none => false

/-- The template of a file: its template block, or all of it. -/
def loadTemplate (file : String) (content : Option String) : Except Failure String :=
  match content with
  | none => .error (.unreadable file)
  | some source =>
    if isSingleFile file then
      match SingleFile.parse? source with
      | none => .error (.malformed file)
      | some component =>
        match component.template with
        | some block => .ok block.content
        | none => .error (.noTemplate file)
    else .ok source

/-- What a compilation gives. -/
structure Report where
  output : String
  errors : List String
  tips : List String

/-- The settings that the arguments ask for. -/
def Arguments.overrides (args : Arguments) : Template.Overrides :=
  { Template.Overrides.none with comments := some args.comments, delimiters := args.delimiters }

/-- The render function and the hoisted ones behind it. -/
def renderText (t : Template.CompiledTemplate) : String :=
  t.render ++ String.join (t.staticRenderFns.map ("\n\n" ++ ·)) ++ "\n"

/-- Compiles the template of a file. -/
def compileFile (file : String) (content : Option String) (mode : EmitMode) (args : Arguments) :
    Except Failure Report := do
  let template ← loadTemplate file content
  let compiler := Template.Compiler.new .base Template.compileTemplate
  let result := (compiler.compile template (some args.overrides)).result
  let output :=
    match mode with
    | .render => renderText result.template
    | .json => result.describe.indented
  pure ⟨output, result.errors, result.tips⟩

/-- The ending of what a compilation writes. -/
def EmitMode.ending : EmitMode → String
  | render => ".rs"
  | json => ".json"

/-- A file in a directory. -/
def inDirectory (directory file : String) : String :=
  if directory = "" || directory.endsWith "/" then directory ++ file
  else directory ++ "/" ++ file

/-- Where the output of a compilation goes: the file's name with another ending. -/
def outputPath (file directory : String) (mode : EmitMode) : String :=
  inDirectory directory (String.ofList (splitExtension (fileName file)).1 ++ mode.ending)

/-- The events of the markup of a file's template. -/
def parseFile (file : String) (content : Option String) (args : Arguments) :
    Except Failure (List Markup.Event) := do
  let template ← loadTemplate file content
  pure (Markup.tokenize { Template.Settings.base.dialect with keepComments := args.comments }
    template)

end ViewTree.Command
