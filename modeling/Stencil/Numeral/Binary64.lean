/-!
# Floating numbers

The floating numbers of catalogues and field values have 53 significant bits
and exponents of eleven bits.  A finite one is kept as a sign, a whole mantissa
and a power of two, so every question about it is one of exact arithmetic.
`ofRatio` rounds a ratio to the nearest such number, a tie to the even mantissa.
-/

namespace Stencil

/-- A floating number.  A finite one stands for the mantissa times two to the
exponent, with its sign. -/
inductive Binary64 where
  | finite (negative : Bool) (mantissa : Nat) (exponent : Int)
  | infinite (negative : Bool)
  | undefined
  deriving DecidableEq, Repr, Inhabited

namespace Binary64

/-- The quotient rounded to the nearest whole number, a tie to the even one. -/
def roundedQuotient (numerator denominator : Nat) : Nat :=
  let quotient := numerator / denominator
  let twice := 2 * (numerator % denominator)
  if twice < denominator then quotient
  else if twice == denominator && quotient % 2 == 0 then quotient
  else quotient + 1

/-- A ratio times two to a power, as a ratio. -/
def scaled (numerator denominator : Nat) (power : Int) : Nat × Nat :=
  match power with
  | .ofNat n => (numerator * Nat.pow 2 n, denominator)
  | .negSucc n => (numerator, denominator * Nat.pow 2 (n + 1))

/-- The least exponent of a finite number. -/
def leastExponent : Int := -1074

/-- The greatest exponent of a finite number. -/
def greatestExponent : Int := 971

/-- The least exponent at which the rounded mantissa of a ratio has no more than
53 bits, starting from a guess that is at most two too small. -/
def mantissaAt (numerator denominator : Nat) : (steps : Nat) → (exponent : Int) → Nat × Int
  | 0, exponent => (0, exponent)
  | steps + 1, exponent =>
    let (n, d) := scaled numerator denominator (-exponent)
    let mantissa := roundedQuotient n d
    if mantissa < Nat.pow 2 53 then (mantissa, exponent)
    else mantissaAt numerator denominator steps (exponent + 1)

/-- The floating number nearest to a ratio of whole numbers. -/
def ofRatio (negative : Bool) (numerator denominator : Nat) : Binary64 :=
  if numerator == 0 then .finite negative 0 leastExponent
  else
    let guess : Int := numerator.log2 - denominator.log2 - 53
    let (mantissa, exponent) := mantissaAt numerator denominator 4 (max guess leastExponent)
    if greatestExponent < exponent then .infinite negative
    else .finite negative mantissa exponent

/-- The floating number nearest to whole digits times a power of ten. -/
def ofDecimal (negative : Bool) (digits : Nat) (power : Int) : Binary64 :=
  match power with
  | .ofNat n => ofRatio negative (digits * Nat.pow 10 n) 1
  | .negSucc n => ofRatio negative digits (Nat.pow 10 (n + 1))

/-- The floating number nearest to a whole number. -/
def ofInt (n : Int) : Binary64 :=
  ofRatio (n < 0) n.natAbs 1

/-- A finite number as a whole numerator over a power of two. -/
def ratio? : Binary64 → Option (Int × Nat)
  | .finite negative mantissa exponent =>
    let (n, d) := scaled mantissa 1 exponent
    some (if negative then -(n : Int) else n, d)
  | _ => none

/-- The value when it is a whole number. -/
def toInt? (x : Binary64) : Option Int := do
  let (n, d) ← x.ratio?
  if n % d == 0 then some (n / d) else none

/-- Tells whether a number is zero, of either sign. -/
def isZero : Binary64 → Bool
  | .finite _ mantissa _ => mantissa == 0
  | _ => false

/-- Tells whether a number is at least zero and less than a whole number. -/
def isWithin (x : Binary64) (limit : Nat) : Bool :=
  match x.ratio? with
  | some (n, d) => 0 ≤ n && n < (limit : Int) * d
  | none => false

end Binary64

end Stencil
