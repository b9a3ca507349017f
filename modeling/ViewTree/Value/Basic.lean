import ViewTree.Decimal.Shortest
import ViewTree.Dict
/-!
# Values

The data a component works on: null, truth values, numbers, texts, lists and objects. Whole
numbers and binary fractions are kept apart, and the fields of an object are in key order.
-/

namespace ViewTree

/-- A whole number, or a double. -/
inductive Number where
  | int (n : Int)
  | double (d : Double)
deriving DecidableEq, Inhabited

/-- A value. -/
inductive Value where
  | null
  | bool (b : Bool)
  | number (n : Number)
  | string (s : String)
  | array (items : List Value)
  | object (fields : List (String × Value))
deriving Inhabited

namespace Number

/-- Whole numbers without a sign that fit sixty-four bits lie below this. -/
def unsignedEnd : Nat := 0x10000000000000000

/-- Whole numbers with a sign that fit sixty-four bits lie below this. -/
def signedEnd : Nat := 0x8000000000000000

/-- Numeric equality within one kind: a whole number never equals a double. -/
def same : Number → Number → Bool
  | int a, int b => a == b
  | double a, double b => a.sameNumber b
  | _, _ => false

/-- The number is not zero. -/
def isTruthy : Number → Bool
  | int n => n != 0
  | double d => !d.isZero

/-- How doubles are written inside values: positionally from 0.00001 up to sixteen whole digits,
and then always with a point. -/
def layout : Decimal.Layout :=
  ⟨some (-5, 15), true⟩

/-- The text of a number. -/
def text : Number → String
  | int n => String.ofList ((if n < 0 then ['-'] else []) ++ Nat.toDigits 10 n.natAbs)
  | double d => layout.write d

end Number

namespace Value

/-- A whole number. -/
def int (n : Int) : Value :=
  number (.int n)

/-- A count. -/
def nat (n : Nat) : Value :=
  number (.int n)

/-- A text, or null when there is none. -/
def optString : Option String → Value
  | some s => string s
  | none => null

/-- A count, or null when there is none. -/
def optNat : Option Nat → Value
  | some n => nat n
  | none => null

/-- A list of texts. -/
def strings (ss : List String) : Value :=
  array (ss.map string)

mutual

/-- Equality of values; numbers compare as `Number.same` says. -/
def same : Value → Value → Bool
  | null, null => true
  | bool a, bool b => a == b
  | number a, number b => a.same b
  | string a, string b => a == b
  | array a, array b => sameItems a b
  | object a, object b => sameFields a b
  | _, _ => false

/-- Equality item by item. -/
def sameItems : List Value → List Value → Bool
  | [], [] => true
  | a :: as, b :: bs => same a b && sameItems as bs
  | _, _ => false

/-- Equality of the keys and the values under them. -/
def sameFields : List (String × Value) → List (String × Value) → Bool
  | [], [] => true
  | (k, a) :: as, (l, b) :: bs => k == l && same a b && sameFields as bs
  | _, _ => false

end

instance : BEq Value := ⟨same⟩

/-- The value counts as true: not null, not false, not zero, not the empty text. -/
def isTruthy : Value → Bool
  | null => false
  | bool b => b
  | number n => n.isTruthy
  | string s => s != ""
  | array _ => true
  | object _ => true

/-- An object or a list. -/
def isCompound : Value → Bool
  | array _ => true
  | object _ => true
  | _ => false

/-- The fields of an object. -/
def fields? : Value → Option (Dict Value)
  | object fields => some fields
  | _ => none

/-- The text of a text value. -/
def string? : Value → Option String
  | string s => some s
  | _ => none

/-- The items of a list. -/
def items? : Value → Option (List Value)
  | array items => some items
  | _ => none

/-- A whole number of at least zero. -/
def nat? : Value → Option Nat
  | number (.int n) => if n < 0 then none else some n.toNat
  | _ => none

/-- A truth value. -/
def bool? : Value → Option Bool
  | bool b => some b
  | _ => none

/-- A whole number that fits sixty-four bits with a sign. -/
def int64? : Value → Option Int
  | number (.int n) => if n < (Number.signedEnd : Int) then some n else none
  | _ => none

/-- The field of an object. -/
def field? (v : Value) (key : String) : Option Value :=
  v.fields?.bind (·.get? key)

mutual

/-- A value, its items or fields, theirs, and so on, each before what it holds. -/
def everything : Value → List Value
  | array items => array items :: everythingOf items
  | object fields => object fields :: everythingIn fields
  | v => [v]

/-- Everything in the items of a list. -/
def everythingOf : List Value → List Value
  | [] => []
  | v :: vs => everything v ++ everythingOf vs

/-- Everything in the fields of an object. -/
def everythingIn : List (String × Value) → List Value
  | [] => []
  | (_, v) :: fs => everything v ++ everythingIn fs

end

/-- The name of the value's kind in diagnostics. -/
def kindName : Value → String
  | null => "Null"
  | bool _ => "Boolean"
  | number _ => "Number"
  | string _ => "String"
  | array _ => "Array"
  | object _ => "Object"

mutual

/-- Fills the keys missing from a value with those of another, going into objects present on both
sides. Anything that the value has and that is not such an object stays as it is. -/
def fill : Value → Value → Value
  | object fields, object other => object (fillFields fields other)
  | v, _ => v

/-- The fields, and those of the other object that they lack. -/
def fillFields (fields : List (String × Value)) : List (String × Value) → List (String × Value)
  | [] => fields
  | (key, value) :: rest =>
    let merged :=
      match Dict.get? fields key with
      | none => value
      | some own => fill own value
    fillFields (Dict.insert fields key merged) rest

end

end Value

end ViewTree
