import ViewTree.Decimal.Double
/-!
# The shortest decimal that reads back

Every double stands for the interval of reals that round to it. Its shortest decimal is the one
with the fewest digits in that interval, and of those with equally many digits the one nearest
to the double; of two equally near the one with the even last digit.
-/

namespace ViewTree.Decimal

/-- The number `digits · 10 ^ exponent`, with `digits` written most significant first. -/
structure Digits where
  digits : List Nat
  exponent : Int
deriving DecidableEq

/-- Decimal digits, most significant first. -/
def digitsOf (n : Nat) : List Nat :=
  (Nat.toDigits 10 n).map fun c => c.toNat - 48

/-- A positive real and the ends of its interval over one denominator; `closed` says that the
ends belong to the interval. -/
structure Interval where
  low : Nat
  value : Nat
  high : Nat
  den : Nat
  closed : Bool

/-- The interval of reals that round to a positive double. Below a power of two the neighbours
are half as far apart. -/
def Interval.ofDouble (d : Double) : Interval :=
  let m := d.mantissa
  let low := if m = Double.leadingBit ∧ d.scale > 0 then 4 * m - 1 else 4 * m - 2
  let up := Nat.pow 2 d.scale
  ⟨low * up, 4 * m * up, (4 * m + 2) * up, Nat.pow 2 1076, m % 2 = 0⟩

/-- The multiple `n` of `step / div` lies in the interval. -/
def Interval.holds (i : Interval) (n step div : Nat) : Bool :=
  let point := n * step * i.den
  if i.closed then i.low * div ≤ point && point ≤ i.high * div
  else i.low * div < point && point < i.high * div

/-- The exponent of the leading digit: the greatest `e` with `10 ^ e ≤ value`, looked for
downwards from `top`. -/
def leadingExponent (value den : Nat) : Nat → Int → Int
  | 0, top => top
  | fuel + 1, top =>
    let fits :=
      if top ≥ 0 then Nat.pow 10 top.toNat * den ≤ value
      else den ≤ value * Nat.pow 10 (-top).toNat
    if fits then top else leadingExponent value den fuel (top - 1)

/-- The grid point with steps of `10 ^ e` in the interval that is nearest to the value. -/
def Interval.nearest? (i : Interval) (e : Int) : Option Nat :=
  let step := if e ≥ 0 then Nat.pow 10 e.toNat else 1
  let div := if e ≥ 0 then 1 else Nat.pow 10 (-e).toNat
  let below := i.value * div / (step * i.den)
  let above := below + 1
  match i.holds below step div, i.holds above step div with
  | true, true =>
    let toBelow := i.value * div - below * step * i.den
    let toAbove := above * step * i.den - i.value * div
    if toBelow < toAbove then some below
    else if toAbove < toBelow then some above
    else some (if below % 2 = 0 then below else above)
  | true, false => some below
  | false, true => some above
  | false, false => none

/-- The first grid with a point in the interval, from one digit on. -/
def Interval.firstGrid (i : Interval) (leading : Int) : Nat → Nat → Nat × Int
  | 0, _ => (0, 0)
  | fuel + 1, count =>
    let e := leading - count
    match i.nearest? e with
    | some n => (n, e)
    | none => firstGrid i leading fuel (count + 1)

/-- The digits without trailing zeros; each one dropped raises the exponent. -/
def dropZeros : Nat → Nat → Int → Nat × Int
  | 0, n, e => (n, e)
  | fuel + 1, n, e => if n % 10 = 0 ∧ n ≠ 0 then dropZeros fuel (n / 10) (e + 1) else (n, e)

/-- The shortest digits of a double's magnitude. Zero has the single digit 0. -/
def shortest (d : Double) : Digits :=
  if d.isZero then ⟨[0], 0⟩
  else
    let i := Interval.ofDouble d
    let (n, e) := i.firstGrid (leadingExponent i.value i.den 640 309) 17 0
    let (n, e) := dropZeros 20 n e
    ⟨digitsOf n, e⟩

/-- Decimal digits as characters. -/
def digitChars (ds : List Nat) : List Char :=
  ds.map fun d => Char.ofNat (48 + d)

/-- The exponent of the leading digit. -/
def Digits.leading (d : Digits) : Int :=
  d.digits.length - 1 + d.exponent

/-- The whole part and the places after the point, written without an exponent. -/
def Digits.positional (d : Digits) : List Char × List Char :=
  let chars := digitChars d.digits
  if d.exponent ≥ 0 then (chars ++ List.replicate d.exponent.toNat '0', [])
  else
    let places := (-d.exponent).toNat
    if places < chars.length then
      (chars.take (chars.length - places), chars.drop (chars.length - places))
    else (['0'], List.replicate (places - chars.length) '0' ++ chars)

/-- How a double is written: the range of leading exponents written positionally (none means
every one), and whether a whole number keeps one zero after the point. -/
structure Layout where
  positional : Option (Int × Int)
  keepPoint : Bool

/-- The text of a double. -/
def Layout.write (style : Layout) (d : Double) : String :=
  let s := shortest d
  let sign := if d.negative then ['-'] else []
  let fits :=
    match style.positional with
    | none => true
    | some (lo, hi) => lo ≤ s.leading && s.leading ≤ hi
  let body :=
    if fits then
      let (whole, places) := s.positional
      if places.isEmpty then whole ++ (if style.keepPoint then ['.', '0'] else [])
      else whole ++ '.' :: places
    else
      let chars := digitChars s.digits
      let mantissa :=
        match chars with
        | c :: [] => [c]
        | c :: more => c :: '.' :: more
        | [] => []
      let e := s.leading
      mantissa ++ 'e' :: (if e < 0 then '-' else '+') :: Nat.toDigits 10 e.natAbs
  String.ofList (sign ++ body)

end ViewTree.Decimal
