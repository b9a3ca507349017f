import ViewTree.Command
/-!
# The command line

`compile FILE` and `parse FILE`, with options anywhere behind the command. An option's value is
the next word, or stands behind an equals sign.
-/

namespace ViewTree.Command

/-- What is asked for. -/
structure Request where
  input : Option String
  args : Arguments
  outDir : Option String
  mode : EmitMode
  strict : Bool

/-- Nothing but the command is given. -/
def Request.start : Request :=
  ⟨none, ⟨false, none⟩, none, .render, false⟩

/-- A command with what is asked of it. -/
inductive Invocation where
  | compile (r : Request)
  | parse (r : Request)

/-- The request with an option that stands alone, or with the file. -/
def Request.flag (r : Request) (compiling : Bool) (word : String) : Except String Request :=
  match word, compiling with
  | "--comments", _ => .ok { r with args := { r.args with comments := true } }
  | "--strict", true => .ok { r with strict := true }
  | _, _ =>
    if word.startsWith "-" then .error ("unexpected argument '" ++ word ++ "' found")
    else if r.input.isSome then .error ("unexpected argument '" ++ word ++ "' found")
    else .ok { r with input := some word }

/-- The request with an option that has a value, if it is one. -/
def Request.option? (r : Request) (compiling : Bool) (name value : String) :
    Option (Except String Request) :=
  match name, compiling with
  | "--delimiters", _ =>
    some ((parseDelimiters value).map fun pair =>
      { r with args := { r.args with delimiters := some pair } })
  | "--out-dir", true => some (.ok { r with outDir := some value })
  | "--emit", true =>
    match value with
    | "render" => some (.ok { r with mode := .render })
    | "json" => some (.ok { r with mode := .json })
    | _ => some (.error ("invalid value '" ++ value ++ "' for '--emit <EMIT>'"))
  | _, _ => none

/-- Reads the words behind a command. -/
def Request.read (compiling : Bool) : Request → List String → Except String Request
  | r, [] => .ok r
  | r, word :: [] =>
    match (Text.splitOnce? '=' word).bind fun p => r.option? compiling p.1 p.2 with
    | some result => result
    | none => r.flag compiling word
  | r, word :: value :: rest =>
    match (Text.splitOnce? '=' word).bind fun p => r.option? compiling p.1 p.2 with
    | some result => result.bind fun r => read compiling r (value :: rest)
    | none =>
      match r.option? compiling word value with
      | some result => result.bind fun r => read compiling r rest
      | none => (r.flag compiling word).bind fun r => read compiling r (value :: rest)

/-- The request, which needs a file. -/
def Request.complete (r : Request) : Except String Request :=
  if r.input.isSome then .ok r else .error "the following required arguments were not provided"

/-- What a command line asks for. -/
def Invocation.read : List String → Except String Invocation
  | "compile" :: words =>
    (Request.read true .start words).bind fun r => r.complete.map .compile
  | "parse" :: words =>
    (Request.read false .start words).bind fun r => r.complete.map .parse
  | word :: _ => .error ("unrecognized subcommand '" ++ word ++ "'")
  | [] => .error "a subcommand is required: compile or parse"

end ViewTree.Command
