import ViewTree.Text.Search
/-!
# Single-file components

A file of top-level blocks: a template, scripts and styles. Templates may hold templates: the
block ends at the first end tag that another block or the end of the file follows.
-/

namespace ViewTree

/-- An attribute of a block; one without a value is a flag. -/
structure BlockAttribute where
  name : String
  value : Option String
deriving DecidableEq

/-- A block: its attributes and its content. -/
structure Block where
  attrs : List BlockAttribute
  content : String
deriving DecidableEq

namespace Block

/-- The first attribute of a name. -/
def attr? (b : Block) (name : String) : Option BlockAttribute :=
  b.attrs.find? (·.name == name)

/-- The attribute is given. -/
def hasAttr (b : Block) (name : String) : Bool :=
  (b.attr? name).isSome

/-- The language of the block, if it is given. -/
def lang? (b : Block) : Option String :=
  (b.attr? "lang").bind (·.value)

end Block

/-- The kinds of blocks. -/
inductive BlockKind where
  | template
  | script
  | style
deriving DecidableEq

/-- The blocks of a component. -/
structure SingleFile where
  template : Option Block
  script : Option Block
  scriptSetup : Option Block
  styles : List Block
deriving DecidableEq

namespace SingleFile

/-- A blank between the parts of a file. -/
def isSpace (c : Char) : Bool :=
  c == ' ' || c == '\t' || c == '\r' || c == '\n'

/-- The text without blanks in front. -/
def skipSpace (cs : List Char) : List Char :=
  cs.dropWhile isSpace

/-- A character that begins the name of an attribute. -/
def isNameStart (c : Char) : Bool :=
  c.isAlpha || ['_', ':', '@', '#'].contains c

/-- A character inside the name of an attribute. -/
def isNamePart (c : Char) : Bool :=
  c.isAlphanum || ['_', '-', ':', '.'].contains c

/-- The text between quotes, and the text after it. -/
def quoted? : List Char → Option (List Char × List Char)
  | [] => none
  | c :: cs =>
    if c = '"' || c = '\'' then
      match cs.dropWhile (· != c) with
      | [] => none
      | _ :: rest => some (cs.takeWhile (· != c), rest)
    else none

/-- What stands behind an attribute's name: a value in quotes, or nothing. -/
def attributeValue (cs : List Char) : Option String × List Char :=
  match skipSpace cs with
  | '=' :: rest =>
    match quoted? (skipSpace rest) with
    | some (value, rest) => (some (String.ofList value), rest)
    | none => (none, cs)
  | _ => (none, cs)

/-- An attribute. -/
def attribute? : List Char → Option (BlockAttribute × List Char)
  | [] => none
  | c :: cs =>
    if isNameStart c then
      let (value, rest) := attributeValue (cs.dropWhile isNamePart)
      some (⟨String.ofList (c :: cs.takeWhile isNamePart), value⟩, rest)
    else none

/-- The attributes at the front, each with a blank before it; `fuel` bounds their number. -/
def attributes : Nat → List Char → List BlockAttribute × List Char
  | 0, cs => ([], cs)
  | fuel + 1, cs =>
    match cs with
    | [] => ([], cs)
    | c :: _ =>
      match if isSpace c then attribute? (skipSpace cs) else none with
      | some (a, rest) =>
        let (more, rest) := attributes fuel rest
        (a :: more, rest)
      | none => ([], cs)

/-- The start tag of a block; `head` is its beginning. -/
def opening? (head : String) (cs : List Char) : Option (List BlockAttribute × List Char) := do
  let rest ← Text.stripStart? head.toList cs
  let (attrs, rest) := attributes rest.length rest
  match skipSpace rest with
  | '>' :: rest => some (attrs, rest)
  | _ => none

/-- Another block or the end of the file comes next. -/
def atNextBlock (cs : List Char) : Bool :=
  match skipSpace cs with
  | [] => true
  | rest => ["<template", "<script", "<style"].any fun head => Text.startsWith head.toList rest

/-- The text after the end tag of the template block, if it stands here. -/
def templateEnd? (cs : List Char) : Option (List Char) :=
  (Text.stripStart? "</template>".toList cs).filter atNextBlock

/-- The content of the template block and the text after its end tag. -/
def templateBody? : List Char → Option (List Char × List Char)
  | [] => none
  | c :: cs =>
    match templateEnd? (c :: cs) with
    | some rest => some ([], rest)
    | none => (templateBody? cs).map fun p => (c :: p.1, p.2)

/-- The beginning of a block's start tag. -/
def headOf : BlockKind → String
  | .template => "<template"
  | .script => "<script"
  | .style => "<style"

/-- The content of a block and the text after its end tag. -/
def body? (kind : BlockKind) (cs : List Char) : Option (List Char × List Char) :=
  match kind with
  | .template => templateBody? cs
  | .script => Text.splitAt? "</script>".toList cs
  | .style => Text.splitAt? "</style>".toList cs

/-- A block of a kind. -/
def blockOf? (kind : BlockKind) (cs : List Char) : Option ((BlockKind × Block) × List Char) := do
  let (attrs, rest) ← opening? (headOf kind) cs
  let (content, rest) ← body? kind rest
  some ((kind, ⟨attrs, String.ofList content⟩), rest)

/-- A block of any kind. -/
def block? (cs : List Char) : Option ((BlockKind × Block) × List Char) :=
  blockOf? .template cs <|> blockOf? .script cs <|> blockOf? .style cs

/-- The blocks up to the end of the file; `fuel` bounds their number. -/
def blocksFrom? : Nat → List Char → Option (List (BlockKind × Block))
  | 0, _ => none
  | fuel + 1, cs =>
    match skipSpace cs with
    | [] => some []
    | cs => do
      let (b, rest) ← block? cs
      let bs ← blocksFrom? fuel rest
      some (b :: bs)

/-- The blocks of a file, or none when it is not made of blocks. -/
def blocks? (source : String) : Option (List (BlockKind × Block)) :=
  let cs := source.toList
  blocksFrom? (cs.length + 1) cs

/-- The file with one more block; of templates and scripts of one sort the last counts. -/
def add (f : SingleFile) (b : BlockKind × Block) : SingleFile :=
  match b with
  | (.template, b) => { f with template := some b }
  | (.script, b) =>
    if b.hasAttr "setup" then { f with scriptSetup := some b } else { f with script := some b }
  | (.style, b) => { f with styles := f.styles ++ [b] }

/-- The component that blocks make. -/
def ofBlocks (bs : List (BlockKind × Block)) : SingleFile :=
  bs.foldl add ⟨none, none, none, []⟩

/-- The warning about a template that replaces another. -/
def repeatedTemplate : String :=
  "single-file component has more than one <template>; using the last"

/-- The warnings about blocks: one for every template but the first. -/
def warnings (bs : List (BlockKind × Block)) : List String :=
  ((bs.filter (·.1 == .template)).drop 1).map fun _ => repeatedTemplate

/-- The component that a file holds. -/
def parse? (source : String) : Option SingleFile :=
  (blocks? source).map ofBlocks

end SingleFile

end ViewTree
