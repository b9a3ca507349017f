import ViewTree.Expr.Arguments
import ViewTree.Expr.Parser
import ViewTree.Template.Loop
import ViewTree.Template.Syntax
import ViewTree.Text.Word
/-!
# Checking expressions

The expressions of a template are checked before it is rendered: words that would be keywords,
loop names that are no identifiers, and texts that are no expressions. Quoted texts are left out
of the search for keywords.
-/

namespace ViewTree.Template

namespace Lint

/-- The rest of a text after the quoted text whose body begins here. A backslash goes with the
character after it, unless that is a line feed. -/
def afterQuoted? (quote : Char) : List Char → Option (List Char)
  | [] => none
  | '\\' :: c :: cs => if c = '\n' then none else afterQuoted? quote cs
  | '\\' :: [] => none
  | c :: cs => if c = quote then some cs else afterQuoted? quote cs

/-- The text without its quoted texts; `fuel` bounds the characters read. A quote that is never
closed stays. -/
def dropQuoted : Nat → List Char → List Char
  | 0, cs => cs
  | _, [] => []
  | fuel + 1, c :: cs =>
    match if c = '\'' || c = '"' then afterQuoted? c cs else none with
    | some rest => dropQuoted fuel rest
    | none => c :: dropQuoted fuel cs

/-- The characters of an expression without its quoted texts. -/
def unquoted (expr : String) : List Char :=
  let cs := expr.toList
  dropQuoted cs.length cs

/-- Words that cannot be names. -/
def keywords : List String :=
  ["do", "if", "for", "let", "new", "try", "var", "case", "else", "with", "await", "break",
    "catch", "class", "const", "super", "throw", "while", "yield", "delete", "export", "import",
    "return", "switch", "default", "extends", "finally", "continue", "debugger", "function",
    "arguments"]

/-- The first whole word that `match?` takes, with the character in front of it; `before` is the
character in front of the text, and `fuel` bounds the characters read. -/
def firstWord? {α : Type} (take? : List Char → List Char → Option α) :
    Nat → Option Char → List Char → Option (Option Char × α)
  | 0, _, _ => none
  | _, _, [] => none
  | fuel + 1, before, c :: cs =>
    if Text.isWord c then
      let word := (c :: cs).takeWhile Text.isWord
      let rest := (c :: cs).dropWhile Text.isWord
      match take? word rest with
      | some a => some (before, a)
      | none => firstWord? take? fuel word.getLast? rest
    else firstWord? take? fuel (some c) cs

/-- A keyword as it stands. -/
def keyword? (word _rest : List Char) : Option String :=
  let word := String.ofList word
  if keywords.contains word then some word else none

/-- The use of an operator that is written as a word, with its parenthesized operand. -/
def operatorUse? (word rest : List Char) : Option String :=
  if ["delete", "typeof", "void"].contains (String.ofList word) then
    let blanks := rest.takeWhile Text.isBlank
    match rest.dropWhile Text.isBlank with
    | '(' :: operand =>
      match operand.dropWhile (· != ')') with
      | [] => none
      | _ :: _ =>
        some (String.ofList
          (word ++ blanks ++ '(' :: operand.takeWhile (· != ')') ++ [')']))
    | _ => none
  else none

/-- The first word that `take?` takes; one with a dollar sign in front is a name. -/
def offence? {α : Type} (take? : List Char → List Char → Option α) (cs : List Char) :
    Option α :=
  match firstWord? take? (cs.length + 1) none cs with
  | some (before, a) => if before = some '$' then none else some a
  | none => none

/-- What is wrong with an expression, where `text` is the place it stands in. -/
def expressionErrors (expr text : String) : List String :=
  match offence? keyword? (unquoted expr) with
  | some word =>
    ["avoid using JavaScript keyword as property name: \"" ++ word ++
      "\"\n  Raw expression: " ++ Text.trim text]
  | none =>
    match Expr.parse expr with
    | .ok _ => []
    | .error e =>
      ["invalid expression: " ++ e.message ++ " in\n\n    " ++ Text.trim expr ++
        "\n\n  Raw expression: " ++ Text.trim text ++ "\n"]

/-- A character of a callee. -/
def isCalleeChar (c : Char) : Bool :=
  Text.isWord c || ['$', '.', '[', ']', '\'', '"'].contains c

/-- The callee and the arguments of a handler that is a call. -/
def call? (handler : String) : Option (String × String) :=
  let cs := Text.dropBlank handler.toList
  match cs.takeWhile isCalleeChar, Text.dropBlank (cs.dropWhile isCalleeChar) with
  | [], _ => none
  | callee, '(' :: rest =>
    match (Text.dropBlankEnd rest).getLast? with
    | some ')' =>
      some (String.ofList callee, String.ofList (Text.dropBlankEnd rest).dropLast)
    | _ => none
  | _, _ => none

/-- What is wrong with an event handler: a method's name, or a call with expressions. -/
def handlerErrors (handler text : String) : List String :=
  match offence? operatorUse? (unquoted handler) with
  | some use =>
    ["avoid using JavaScript unary operator as property name: \"" ++ use ++
      "\" in expression " ++ Text.trim text]
  | none =>
    match call? handler with
    | some (callee, args) =>
      expressionErrors callee text ++
        (Expr.splitArguments args).flatMap fun arg => expressionErrors arg text
    | none => expressionErrors handler text

/-- The name can be the name of a loop: an identifier, where letters behind the first may be of
any script, and no keyword. -/
def isLoopName (name : String) : Bool :=
  (match name.toList with
    | [] => false
    | c :: cs =>
      (c.isAlpha || c == '_' || c == '$') && cs.all fun c => Text.isWord c || c == '$') &&
    (firstWord? keyword? (name.length + 1) none name.toList).isNone

/-- What is wrong with a loop. -/
def loopErrors (expr text : String) : List String :=
  match LoopExpr.parse? expr with
  | none => ["invalid v-for expression: " ++ Text.trim text]
  | some l =>
    expressionErrors l.source text ++
      (l.item :: (l.key.toList ++ l.index.toList)).filterMap fun name =>
        if isLoopName name then none
        else
          some ("invalid v-for alias \"" ++ name ++ "\" in expression: " ++ Text.trim text)

/-- Directives whose value is no expression. -/
def withoutExpression : List String :=
  ["else", "pre", "cloak", "once", "slot"]

/-- What is wrong with an attribute. -/
def attributeErrors (a : Attribute) : List String :=
  match a.kind with
  | .plain => []
  | .bind => expressionErrors a.valueText a.raw
  | .on => handlerErrors a.valueText a.raw
  | .directive =>
    if a.name = "for" then loopErrors a.valueText a.raw
    else if withoutExpression.contains a.name || a.value.isNone then []
    else expressionErrors a.valueText a.raw

mutual

/-- What is wrong in a node. -/
def nodeErrors : Node → List String
  | .element ⟨_, attrs, children, _, _, _, _, _, _⟩ =>
    attrs.flatMap attributeErrors ++ nodesErrors children
  | .interpolation expr => expressionErrors expr ("\x7b\x7b" ++ expr ++ "\x7d\x7d")
  | .text _ => []
  | .comment _ => []

/-- What is wrong in several nodes. -/
def nodesErrors : List Node → List String
  | [] => []
  | n :: ns => nodeErrors n ++ nodesErrors ns

end

end Lint

end ViewTree.Template
