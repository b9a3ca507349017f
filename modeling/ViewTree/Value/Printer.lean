import ViewTree.Value.Basic
/-!
# Writing values as JSON

A value is written in front of the text that follows it, so that writing is linear. The compact
form has no blanks; the indented form puts every item on a line of its own, two spaces deeper
than its container, and leaves empty containers on one line.
-/

namespace ViewTree.Value

/-- A hexadecimal digit in lower case. -/
def hexDigit (n : Nat) : Char :=
  if n < 10 then Char.ofNat (48 + n) else Char.ofNat (87 + n)

/-- One character inside a JSON string. -/
def escapeChar (c : Char) : List Char :=
  if c == '"' then ['\\', '"']
  else if c == '\\' then ['\\', '\\']
  else if c == '\n' then ['\\', 'n']
  else if c == '\r' then ['\\', 'r']
  else if c == '\t' then ['\\', 't']
  else if c.toNat == 8 then ['\\', 'b']
  else if c.toNat == 12 then ['\\', 'f']
  else if c.toNat < 0x20 then
    ['\\', 'u', '0', '0', hexDigit (c.toNat / 16), hexDigit (c.toNat % 16)]
  else [c]

/-- A JSON string in front of `rest`. -/
def writeString (s : String) (rest : List Char) : List Char :=
  '"' :: s.toList.foldr (fun c r => escapeChar c ++ r) ('"' :: rest)

/-- The value of a kind without parts, in front of `rest`. -/
def writeText (text : String) (rest : List Char) : List Char :=
  text.toList ++ rest

mutual

/-- The compact form in front of `rest`. -/
def writeCompact : Value → List Char → List Char
  | null, rest => writeText "null" rest
  | bool b, rest => writeText (if b then "true" else "false") rest
  | number n, rest => writeText n.text rest
  | string s, rest => writeString s rest
  | array [], rest => '[' :: ']' :: rest
  | array (v :: vs), rest => '[' :: writeCompact v (writeItems vs (']' :: rest))
  | object [], rest => '{' :: '}' :: rest
  | object ((k, v) :: fs), rest =>
    '{' :: writeString k (':' :: writeCompact v (writeFields fs ('}' :: rest)))

/-- Items after the first. -/
def writeItems : List Value → List Char → List Char
  | [], rest => rest
  | v :: vs, rest => ',' :: writeCompact v (writeItems vs rest)

/-- Fields after the first. -/
def writeFields : List (String × Value) → List Char → List Char
  | [], rest => rest
  | (k, v) :: fs, rest => ',' :: writeString k (':' :: writeCompact v (writeFields fs rest))

end

/-- A line break and `depth` steps of two spaces, in front of `rest`. -/
def breakLine (depth : Nat) (rest : List Char) : List Char :=
  '\n' :: (List.replicate (2 * depth) ' ' ++ rest)

mutual

/-- The indented form at a depth, in front of `rest`. -/
def writeIndented (depth : Nat) : Value → List Char → List Char
  | null, rest => writeText "null" rest
  | bool b, rest => writeText (if b then "true" else "false") rest
  | number n, rest => writeText n.text rest
  | string s, rest => writeString s rest
  | array [], rest => '[' :: ']' :: rest
  | array (v :: vs), rest =>
    '[' :: breakLine (depth + 1) (writeIndented (depth + 1) v
      (writeIndentedItems (depth + 1) vs (breakLine depth (']' :: rest))))
  | object [], rest => '{' :: '}' :: rest
  | object ((k, v) :: fs), rest =>
    '{' :: breakLine (depth + 1) (writeString k (':' :: ' ' :: writeIndented (depth + 1) v
      (writeIndentedFields (depth + 1) fs (breakLine depth ('}' :: rest)))))

/-- Items after the first. -/
def writeIndentedItems (depth : Nat) : List Value → List Char → List Char
  | [], rest => rest
  | v :: vs, rest =>
    ',' :: breakLine depth (writeIndented depth v (writeIndentedItems depth vs rest))

/-- Fields after the first. -/
def writeIndentedFields (depth : Nat) : List (String × Value) → List Char → List Char
  | [], rest => rest
  | (k, v) :: fs, rest =>
    ',' :: breakLine depth (writeString k (':' :: ' ' ::
      writeIndented depth v (writeIndentedFields depth fs rest)))

end

/-- The value on one line. -/
def compact (v : Value) : String :=
  String.ofList (v.writeCompact [])

/-- The value on several lines. -/
def indented (v : Value) : String :=
  String.ofList (v.writeIndented 0 [])

/-- The text of a value where it is shown to a user: null is nothing, a text is itself, and a
list or an object is shown in the indented form. -/
def display : Value → String
  | null => ""
  | string s => s
  | array items => (array items).indented
  | object fields => (object fields).indented
  | v => v.compact

end ViewTree.Value
