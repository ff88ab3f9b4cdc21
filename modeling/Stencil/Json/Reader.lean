import Stencil.Json.Basic
import Stencil.Text.Escape

/-!
# Reading JSON

`Json.parse?` reads a text that holds one value with white space around it.  A
number with a fraction or an exponent is a floating number; the words `NaN`,
`Infinity` and `-Infinity` are read as floating numbers too.  Of repeated names
in an object the last value counts.  Half a surrogate pair names no character
and is read as the replacement character.
-/

namespace Stencil.Json

/-- Drops the white space between values. -/
def skipSpace (cs : List Char) : List Char :=
  cs.dropWhile fun c => c == ' ' || c == '\t' || c == '\n' || c == '\r'

/-- The character that a one letter escape stands for. -/
def shortEscape? : Char → Option Char
  | '"' => some '"'
  | '\\' => some '\\'
  | '/' => some '/'
  | 'b' => some '\x08'
  | 'f' => some '\x0c'
  | 'n' => some '\n'
  | 'r' => some '\r'
  | 't' => some '\t'
  | _ => none

/-- Reads the rest of a text up to its closing quote; `seen` holds what was read
before, last character first. -/
def readText (seen : List Char) : List Char → Option (String × List Char)
  | [] => none
  | '"' :: rest => some (String.ofList seen.reverse, rest)
  | '\\' :: 'u' :: a :: b :: c :: d :: rest =>
    match Text.hexWord? a b c d with
    | none => none
    | some code =>
      if Text.isLeadingSurrogate code then
        match rest with
        | '\\' :: 'u' :: e :: f :: g :: h :: after =>
          match Text.hexWord? e f g h with
          | none => none
          | some trailing =>
            if Text.isTrailingSurrogate trailing then
              readText (Char.ofNat (Text.pairCode code trailing) :: seen) after
            else readText ('\uFFFD' :: seen) ('\\' :: 'u' :: e :: f :: g :: h :: after)
        | others => readText ('\uFFFD' :: seen) others
      else if Text.isTrailingSurrogate code then readText ('\uFFFD' :: seen) rest
      else readText (Char.ofNat code :: seen) rest
  | '\\' :: c :: rest =>
    match shortEscape? c with
    | some named => readText (named :: seen) rest
    | none => none
  | c :: rest => if c.toNat < 32 then none else readText (c :: seen) rest

/-- The whole number that ASCII digits write. -/
def digitsValue (cs : List Char) : Nat :=
  cs.foldl (fun value c => 10 * value + (c.toNat - '0'.toNat)) 0

/-- Reads the fraction of a number: its digits, none when there is no fraction. -/
def readFraction : List Char → Option (List Char) × List Char
  | '.' :: rest =>
    let digits := rest.takeWhile Text.isAsciiDigit
    if digits.isEmpty then (none, '.' :: rest) else (some digits, rest.drop digits.length)
  | cs => (none, cs)

/-- Reads the exponent of a number. -/
def readExponent (cs : List Char) : Option Int × List Char :=
  match cs with
  | mark :: rest =>
    if mark == 'e' || mark == 'E' then
      let (negative, unsigned) := match rest with
        | '-' :: after => (true, after)
        | '+' :: after => (false, after)
        | after => (false, after)
      let digits := unsigned.takeWhile Text.isAsciiDigit
      if digits.isEmpty then (none, cs)
      else
        let size : Int := digitsValue digits
        (some (if negative then -size else size), unsigned.drop digits.length)
    else (none, cs)
  | [] => (none, cs)

/-- The floating number of a whole part, a fraction and an exponent.  An
exponent beyond the reach of any digits gives zero or infinity at once. -/
def realValue (negative : Bool) (whole fraction : List Char) (exponent : Int) : Binary64 :=
  let digits := digitsValue (whole ++ fraction)
  let power := exponent - (fraction.length : Int)
  if digits == 0 then .finite negative 0 Binary64.leastExponent
  else if 400 < power then .infinite negative
  else if power + ((whole.length + fraction.length : Nat) : Int) < -400 then
    .finite negative 0 Binary64.leastExponent
  else Binary64.ofDecimal negative digits power

/-- Reads a number. -/
def readNumber (cs : List Char) : Option (Json × List Char) :=
  let (negative, unsigned) := match cs with
    | '-' :: rest => (true, rest)
    | rest => (false, rest)
  let run := unsigned.takeWhile Text.isAsciiDigit
  let whole := if run.head? == some '0' then ['0'] else run
  if whole.isEmpty then none
  else
    let (fraction, rest) := readFraction (unsigned.drop whole.length)
    let (exponent, rest) := readExponent rest
    if fraction.isNone && exponent.isNone then
      let size : Int := digitsValue whole
      some (.int (if negative then -size else size), rest)
    else
      some (.real (realValue negative whole (fraction.getD []) (exponent.getD 0)), rest)

/-- The words that stand for a value. -/
def wordValues : List (String × Json) :=
  [("null", .null), ("true", .bool true), ("false", .bool false), ("NaN", .real .undefined),
    ("Infinity", .real (.infinite false)), ("-Infinity", .real (.infinite true))]

/-- Reads one of the words that stand for a value. -/
def readWord (cs : List Char) : Option (Json × List Char) :=
  (wordValues.find? fun entry => entry.1.toList.isPrefixOf cs).map fun entry =>
    (entry.2, cs.drop entry.1.length)

mutual

/-- Reads a value; `fuel` bounds the nesting. -/
def readValue : (fuel : Nat) → List Char → Option (Json × List Char)
  | 0, _ => none
  | fuel + 1, cs =>
    match skipSpace cs with
    | '"' :: rest => (readText [] rest).map fun (s, rest) => (.str s, rest)
    | '[' :: rest =>
      match skipSpace rest with
      | ']' :: rest => some (.arr [], rest)
      | rest => readItems fuel [] rest
    | '{' :: rest =>
      match skipSpace rest with
      | '}' :: rest => some (.obj [], rest)
      | rest => readFields fuel [] rest
    | cs =>
      match readWord cs with
      | some found => some found
      | none => readNumber cs

/-- Reads the items of a list up to its closing bracket. -/
def readItems : (fuel : Nat) → (seen : List Json) → List Char → Option (Json × List Char)
  | 0, _, _ => none
  | fuel + 1, seen, cs =>
    match readValue fuel cs with
    | none => none
    | some (item, rest) =>
      match skipSpace rest with
      | ',' :: rest => readItems fuel (item :: seen) rest
      | ']' :: rest => some (.arr (item :: seen).reverse, rest)
      | _ => none

/-- Reads the fields of an object up to its closing brace. -/
def readFields : (fuel : Nat) → (seen : List (String × Json)) → List Char →
    Option (Json × List Char)
  | 0, _, _ => none
  | fuel + 1, seen, cs =>
    match skipSpace cs with
    | '"' :: rest =>
      match readText [] rest with
      | none => none
      | some (name, rest) =>
        match skipSpace rest with
        | ':' :: rest =>
          match readValue fuel rest with
          | none => none
          | some (value, rest) =>
            match skipSpace rest with
            | ',' :: rest => readFields fuel ((name, value) :: seen) rest
            | '}' :: rest => some (.obj (distinctFields ((name, value) :: seen).reverse), rest)
            | _ => none
        | _ => none
    | _ => none

end

/-- Reads a text that holds one value. -/
def parse? (text : String) : Option Json :=
  let cs := text.toList
  match readValue (2 * cs.length + 2) cs with
  | some (value, rest) => if (skipSpace rest).isEmpty then some value else none
  | none => none

end Stencil.Json
