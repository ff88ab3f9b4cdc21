import Stencil.Numeral.Binary64

/-!
# Decimal text of floating numbers

`shortest` finds the fewest decimal digits that read back as the same number,
and of those the digits nearest to it.  It looks at one grid of decimals after
the other: if any point of a grid reads back, then so does one of the two
neighbours of the number on that grid.  `rounded` gives a fixed count of digits.
`DecimalStyle` decides how digits and exponent are laid out as text.
-/

namespace Stencil

/-- Decimal digits before a power of ten: the number is `digits · 10 ^ power`. -/
structure Decimal where
  digits : Nat
  power : Int
  deriving DecidableEq, Repr, Inhabited

namespace Decimal

/-- The decimal digits of a number, most significant first. -/
def digitList (n : Nat) : List Char :=
  (toString n).toList

/-- The number of decimal digits of a number. -/
def width (n : Nat) : Nat :=
  (digitList n).length

/-- The exponent of the first digit: the number is that digit, a point and the
other digits, times ten to this exponent. -/
def leadingExponent (d : Decimal) : Int :=
  d.power + (width d.digits : Int) - 1

/-- Digits without zeros at the end, at most `steps` of them dropped. -/
def stripZeros : (steps : Nat) → Decimal → Decimal
  | 0, d => d
  | steps + 1, d =>
    if d.digits != 0 && d.digits % 10 == 0 then stripZeros steps ⟨d.digits / 10, d.power + 1⟩
    else d

/-- Digits without zeros at the end. -/
def stripped (d : Decimal) : Decimal :=
  stripZeros (width d.digits) d

/-- A ratio divided by a power of ten, as a ratio. -/
def overTen (numerator denominator : Nat) (power : Int) : Nat × Nat :=
  match power with
  | .ofNat n => (numerator, denominator * Nat.pow 10 n)
  | .negSucc n => (numerator * Nat.pow 10 (n + 1), denominator)

/-- The exponent of the first decimal digit of a ratio, found by walking up from
a guess that is not too great. -/
def leadingExponentFrom (numerator denominator : Nat) : (steps : Nat) → (guess : Int) → Int
  | 0, guess => guess
  | steps + 1, guess =>
    let (n, d) := overTen numerator denominator (guess + 1)
    if d ≤ n then leadingExponentFrom numerator denominator steps (guess + 1) else guess

/-- The exponent of the first decimal digit of a positive ratio. -/
def leadingExponentOf (numerator denominator : Nat) : Int :=
  let guess := (width numerator : Int) - (width denominator : Int) - 1
  leadingExponentFrom numerator denominator 3 guess

/-- A positive ratio rounded to a count of significant digits, a tie to even. -/
def rounded (count numerator denominator : Nat) : Decimal :=
  let power := leadingExponentOf numerator denominator - (count : Int) + 1
  let (n, d) := overTen numerator denominator power
  stripped ⟨Binary64.roundedQuotient n d, power⟩

/-- The neighbours of a positive ratio among the decimals with a count of
digits, the nearer one first. -/
def neighbours (count numerator denominator : Nat) : List Decimal :=
  let power := leadingExponentOf numerator denominator - (count : Int) + 1
  let (n, d) := overTen numerator denominator power
  let below : Decimal := ⟨n / d, power⟩
  let above : Decimal := ⟨n / d + 1, power⟩
  if Binary64.roundedQuotient n d == n / d then [below, above] else [above, below]

/-- The fewest digits, from `count` on, that read back as a positive finite
number. -/
def shortestFrom (mantissa : Nat) (exponent : Int) : (steps count : Nat) → Decimal
  | 0, count =>
    let (n, d) := Binary64.scaled mantissa 1 exponent
    rounded count n d
  | steps + 1, count =>
    let (n, d) := Binary64.scaled mantissa 1 exponent
    let readsBack (c : Decimal) : Bool :=
      Binary64.ofDecimal false c.digits c.power == .finite false mantissa exponent
    match (neighbours count n d).find? readsBack with
    | some found => stripped found
    | none => shortestFrom mantissa exponent steps (count + 1)

/-- The fewest digits that read back as a positive finite number. -/
def shortest (mantissa : Nat) (exponent : Int) : Decimal :=
  shortestFrom mantissa exponent 16 1

end Decimal

/-- How the digits of a floating number are laid out. -/
structure DecimalStyle where
  /-- The least leading exponent that is written without an exponent. -/
  leastPositional : Int
  /-- The first leading exponent that is written with an exponent again. -/
  firstScientific : Int
  /-- The least number of digits of an exponent. -/
  exponentWidth : Nat
  /-- The text of an infinite number, without its sign. -/
  infinity : String
  /-- The text of an undefined number. -/
  undefined : String

namespace DecimalStyle

/-- Digits with a point between whole part and fraction; one zero at least
stands on either side. -/
def positional (digits : List Char) (leading : Int) : List Char :=
  match leading with
  | .ofNat n =>
    let whole := digits.take (n + 1) ++ List.replicate (n + 1 - digits.length) '0'
    let fraction := digits.drop (n + 1)
    whole ++ '.' :: if fraction.isEmpty then ['0'] else fraction
  | .negSucc n => '0' :: '.' :: List.replicate n '0' ++ digits

/-- One digit, a point and the others, then the exponent with its sign. -/
def scientific (style : DecimalStyle) (digits : List Char) (leading : Int) : List Char :=
  let exponent := Decimal.digitList leading.natAbs
  let padding := List.replicate (style.exponentWidth - exponent.length) '0'
  let head := match digits with
    | first :: second :: rest => first :: '.' :: second :: rest
    | single => single
  head ++ 'e' :: (if leading < 0 then '-' else '+') :: padding ++ exponent

/-- The text of a floating number, with the fewest digits that read back. -/
def text (style : DecimalStyle) : Binary64 → String
  | .undefined => style.undefined
  | .infinite negative => (if negative then "-" else "") ++ style.infinity
  | .finite negative mantissa exponent =>
    let decimal : Decimal :=
      if mantissa == 0 then ⟨0, 0⟩ else Decimal.shortest mantissa exponent
    let digits := Decimal.digitList decimal.digits
    let leading := decimal.leadingExponent
    let body :=
      if style.leastPositional ≤ leading && leading < style.firstScientific then
        positional digits leading
      else style.scientific digits leading
    (if negative then "-" else "") ++ String.ofList body

end DecimalStyle

/-- Field values are written with a point below 10^16 and from 10^-4 on, and
with an exponent of two digits or more outside of that range. -/
def plainDecimal : DecimalStyle :=
  ⟨-4, 16, 2, "inf", "nan"⟩

end Stencil
