import ViewTree.Value.Basic
/-!
# Reading values from JSON

A reader takes the characters it needs from the front of a text and gives back the rest. A
number with a point or an exponent, or too large for sixty-four bits, becomes a double: its
leading digits that fit sixty-four bits are scaled by a power of ten in double arithmetic.
-/

namespace ViewTree.Value

/-- The characters from the first that JSON does not skip. -/
def skipSpace (cs : List Char) : List Char :=
  cs.dropWhile fun c => c == ' ' || c == '\n' || c == '\t' || c == '\r'

/-- The value of a hexadecimal digit. -/
def hexValue? (c : Char) : Option Nat :=
  if c.isDigit then some (c.toNat - 48)
  else if 'a' ≤ c ∧ c ≤ 'f' then some (c.toNat - 87)
  else if 'A' ≤ c ∧ c ≤ 'F' then some (c.toNat - 55)
  else none

/-- Four hexadecimal digits. -/
def hex4? : List Char → Option (Nat × List Char)
  | a :: b :: c :: d :: rest => do
    let a ← hexValue? a
    let b ← hexValue? b
    let c ← hexValue? c
    let d ← hexValue? d
    some (((a * 16 + b) * 16 + c) * 16 + d, rest)
  | _ => none

/-- The code point that starts with a unit: a high surrogate takes the low one after it. -/
def surrogate (unit : Nat) (rest : List Char) : Option (Char × List Char) :=
  if 0xd800 ≤ unit ∧ unit < 0xdc00 then
    match rest with
    | '\\' :: 'u' :: more => do
      let (low, more) ← hex4? more
      if 0xdc00 ≤ low ∧ low < 0xe000 then
        some (Char.ofNat (0x10000 + (unit - 0xd800) * 0x400 + (low - 0xdc00)), more)
      else none
    | _ => none
  else if 0xdc00 ≤ unit ∧ unit < 0xe000 then none
  else some (Char.ofNat unit, rest)

/-- The characters up to the closing quote, after what was read in reverse. -/
def readString (fuel : Nat) (seen cs : List Char) : Option (String × List Char) :=
  match fuel, cs with
  | 0, _ => none
  | _, [] => none
  | _, '"' :: rest => some (String.ofList seen.reverse, rest)
  | fuel + 1, '\\' :: 'u' :: rest => do
    let (unit, rest) ← hex4? rest
    let (c, rest) ← surrogate unit rest
    readString fuel (c :: seen) rest
  | fuel + 1, '\\' :: e :: rest =>
    let c? :=
      match e with
      | '"' => some '"'
      | '\\' => some '\\'
      | '/' => some '/'
      | 'n' => some '\n'
      | 'r' => some '\r'
      | 't' => some '\t'
      | 'b' => some (Char.ofNat 8)
      | 'f' => some (Char.ofNat 12)
      | _ => none
    match c? with
    | some c => readString fuel (c :: seen) rest
    | none => none
  | fuel + 1, c :: rest => if c.toNat < 0x20 then none else readString fuel (c :: seen) rest

/-- Decimal digits and what follows them. -/
def takeDigits (cs : List Char) : List Char × List Char :=
  (cs.takeWhile Char.isDigit, cs.dropWhile Char.isDigit)

/-- The digits that fit sixty-four bits after `start`, and how many were left over. -/
def significand : Nat → List Char → Nat × Nat
  | start, [] => (start, 0)
  | start, c :: cs =>
    let next := start * 10 + (c.toNat - 48)
    if next < Number.unsignedEnd then significand next cs else (start, cs.length + 1)

/-- A double scaled by a power of ten, in steps of at most 308; none when it grows too large. -/
def scaleFloat : Nat → Float → Int → Option Float
  | 0, f, _ => some f
  | fuel + 1, f, e =>
    if e.natAbs ≤ 308 then
      let power := Float.ofScientific 1 false e.natAbs
      some (if e ≥ 0 then f * power else f / power)
    else if f == 0.0 then some f
    else if e ≥ 0 then none
    else scaleFloat fuel (f / Float.ofScientific 1 false 308) (e + 308)

/-- `digits · 10 ^ exponent` in double arithmetic; too small becomes zero, too large is refused. -/
def scaled (digits : Nat) (exponent : Int) : Option Double := do
  let f ← scaleFloat 64 digits.toUInt64.toFloat exponent
  let d := Double.ofFloat f
  if d.isFinite then some d else none

/-- The exponent part, if there is one. -/
def readExponent (cs : List Char) : Option (Int × List Char) :=
  match cs with
  | c :: rest =>
    if c == 'e' || c == 'E' then
      let (negative, rest) :=
        match rest with
        | '-' :: more => (true, more)
        | '+' :: more => (false, more)
        | more => (false, more)
      let (digits, rest) := takeDigits rest
      if digits.isEmpty then none
      else
        let n : Int := digits.foldl (fun n c => n * 10 + (c.toNat - 48)) 0
        some (if negative then -n else n, rest)
    else some (0, cs)
  | [] => some (0, [])

/-- A number. -/
def readNumber (cs : List Char) : Option (Value × List Char) := do
  let (negative, cs) :=
    match cs with
    | '-' :: rest => (true, rest)
    | _ => (false, cs)
  let (whole, rest) := takeDigits cs
  if whole.isEmpty || (whole.length > 1 && whole.head? == some '0') then none
  let (sig, dropped) := significand 0 whole
  let (places, rest) ←
    match rest with
    | '.' :: more =>
      let (places, more) := takeDigits more
      if places.isEmpty then none else some (some places, more)
    | _ => some (none, rest)
  let marked :=
    match rest with
    | c :: _ => c == 'e' || c == 'E'
    | [] => false
  let (exponent, rest) ← readExponent rest
  let fitsNegative := sig ≤ Number.signedEnd && sig > 0
  if places.isNone && !marked && dropped == 0 && (!negative || fitsNegative) then
    some (Value.int (if negative then -sig else sig), rest)
  else
    let (sig, shift) : Nat × Int :=
      match places with
      | none => (sig, dropped)
      | some places =>
        let (all, extra) := significand sig places
        (all, (dropped : Int) + extra - places.length)
    let d ← scaled sig (shift + exponent)
    some (number (.double (if negative then ⟨d.bits ||| 0x8000000000000000⟩ else d)), rest)

mutual

/-- A value and the text after it. -/
def readValue (fuel : Nat) (cs : List Char) : Option (Value × List Char) :=
  match fuel with
  | 0 => none
  | fuel + 1 =>
    match skipSpace cs with
    | 'n' :: 'u' :: 'l' :: 'l' :: rest => some (null, rest)
    | 't' :: 'r' :: 'u' :: 'e' :: rest => some (bool true, rest)
    | 'f' :: 'a' :: 'l' :: 's' :: 'e' :: rest => some (bool false, rest)
    | '"' :: rest => (readString (rest.length + 1) [] rest).map fun p => (string p.1, p.2)
    | '[' :: rest =>
      match skipSpace rest with
      | ']' :: rest => some (array [], rest)
      | rest => readItems fuel [] rest
    | '{' :: rest =>
      match skipSpace rest with
      | '}' :: rest => some (object [], rest)
      | rest => readFields fuel [] rest
    | rest => readNumber rest

/-- Items up to the closing bracket, after those read in reverse. -/
def readItems (fuel : Nat) (seen : List Value) (cs : List Char) : Option (Value × List Char) :=
  match fuel with
  | 0 => none
  | fuel + 1 => do
    let (v, rest) ← readValue fuel cs
    match skipSpace rest with
    | ',' :: rest => readItems fuel (v :: seen) rest
    | ']' :: rest => some (array (v :: seen).reverse, rest)
    | _ => none

/-- Fields up to the closing brace, after those read; a key given twice keeps its last value. -/
def readFields (fuel : Nat) (seen : Dict Value) (cs : List Char) : Option (Value × List Char) :=
  match fuel with
  | 0 => none
  | fuel + 1 => do
    match skipSpace cs with
    | '"' :: rest =>
      let (key, rest) ← readString (rest.length + 1) [] rest
      match skipSpace rest with
      | ':' :: rest =>
        let (v, rest) ← readValue fuel rest
        match skipSpace rest with
        | ',' :: rest => readFields fuel (seen.insert key v) rest
        | '}' :: rest => some (object (seen.insert key v), rest)
        | _ => none
      | _ => none
    | _ => none

end

/-- The value that a text holds, blanks around it aside. -/
def parse? (text : String) : Option Value :=
  let cs := text.toList
  match readValue (cs.length + 1) cs with
  | some (v, rest) => if (skipSpace rest).isEmpty then some v else none
  | none => none

end ViewTree.Value
