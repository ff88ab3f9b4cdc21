import Stencil.Json.Basic
import Stencil.Text.Digit
import Stencil.Text.Split

/-!
# Records read from JSON objects

Placeholders, steps, catalogue entries and settings are read from JSON objects.
Every field is checked, and all faults are reported together in the order in
which the fields are declared.  A value that should list several texts but holds
none cannot be examined any further and rejects the record at once.

A whole number may be written as a number without fraction, as a truth value or
as text; a flag as a truth value, as zero or one, or as one of a few words.
-/

namespace Stencil

/-- What is wrong with one value of a record. -/
inductive FaultKind where
  | missing
  | notText
  | notWhole
  | unreadableWhole
  | oversizedWhole
  | fractional
  | notFinite
  | notList
  | notRecord
  | notFlag
  | unreadableFlag
  deriving DecidableEq, Repr

/-- The short code of a fault in reports. -/
def FaultKind.code : FaultKind → String
  | .missing => "missing"
  | .notText => "string_type"
  | .notWhole => "int_type"
  | .unreadableWhole => "int_parsing"
  | .oversizedWhole => "int_parsing_size"
  | .fractional => "int_from_float"
  | .notFinite => "finite_number"
  | .notList => "list_type"
  | .notRecord => "model_type"
  | .notFlag => "bool_type"
  | .unreadableFlag => "bool_parsing"

/-- A fault and where it stands: field names and list positions from the outside
in. -/
structure Fault where
  path : List String
  kind : FaultKind
  deriving DecidableEq, Repr

/-- The text of a fault. -/
def Fault.text (fault : Fault) : String :=
  ".".intercalate fault.path ++ ":" ++ fault.kind.code

/-- Why a record is rejected. -/
inductive Rejection where
  /-- Some fields hold values they must not hold. -/
  | faults (found : List Fault)
  /-- A value in the place of a list has no parts to list. -/
  | unlistable
  deriving DecidableEq, Repr

/-- The text of a rejection. -/
def Rejection.message : Rejection → String
  | .faults found => "; ".intercalate (found.map Fault.text)
  | .unlistable => "the value cannot be listed"

/-- A value under examination: sound, faulty, or not examinable. -/
inductive Checked (α : Type) where
  | sound (value : α)
  | faulty (found : List Fault)
  | unlistable
  deriving Repr

namespace Checked

variable {α β : Type}

/-- Applies a function to a sound value. -/
def map (f : α → β) : Checked α → Checked β
  | sound value => sound (f value)
  | faulty found => faulty found
  | unlistable => unlistable

/-- Examines two parts of a record and keeps the faults of both. -/
def both (first : Checked α) (second : Checked β) : Checked (α × β) :=
  match first, second with
  | unlistable, _ | _, unlistable => unlistable
  | faulty found, faulty more => faulty (found ++ more)
  | faulty found, sound _ => faulty found
  | sound _, faulty more => faulty more
  | sound a, sound b => sound (a, b)

/-- Places the faults of a value below a field name or list position. -/
def below (place : String) : Checked α → Checked α
  | faulty found => faulty (found.map fun fault => { fault with path := place :: fault.path })
  | other => other

/-- A value with one fault. -/
def fault (kind : FaultKind) : Checked α :=
  faulty [⟨[], kind⟩]

/-- The sound value, or why it is rejected. -/
def toExcept : Checked α → Except Rejection α
  | sound value => .ok value
  | faulty found => .error (.faults found)
  | unlistable => .error .unlistable

/-- Examines the items of a list, each below its position. -/
def items (check : Json → Checked α) : (position : Nat) → List Json → Checked (List α)
  | _, [] => sound []
  | position, item :: rest =>
    (both (below (toString position) (check item)) (items check (position + 1) rest)).map
      fun (head, tail) => head :: tail

end Checked

namespace Record

/-- The fields of an object, names and values. -/
abbrev Fields := List (String × Json)

/-- A value that must be a text. -/
def text : Json → Checked String
  | .str s => .sound s
  | _ => .fault .notText

/-- A value that must be a text or null. -/
def optionalText : Json → Checked (Option String)
  | .null => .sound none
  | value => (text value).map some

/-- A field that must be there and hold a text. -/
def requiredText (fields : Fields) (name : String) : Checked String :=
  Checked.below name <|
    match Json.field? fields name with
    | some value => text value
    | none => .fault .missing

/-- A field that holds a text when it is there. -/
def textOr (fields : Fields) (name standard : String) : Checked String :=
  match Json.field? fields name with
  | some value => Checked.below name (text value)
  | none => .sound standard

/-- Digits in which single underscores may stand between two digits. -/
def groupedDigits? (cs : List Char) : Option Nat :=
  let groups := Text.splitWhere (· == '_') cs
  if groups.all fun group => !group.isEmpty && group.all Text.isAsciiDigit then
    some (groups.flatten.foldl (fun value c => 10 * value + (c.toNat - '0'.toNat)) 0)
  else none

/-- The blanks that may surround a number written as text. -/
def isNumberSpace (c : Char) : Bool :=
  Text.isBlank c && !(28 ≤ c.toNat && c.toNat ≤ 31)

/-- The whole number that a text writes: a sign, digits and a fraction of zeros,
with blanks around them. -/
def wholeOfText? (s : String) : Option Int :=
  let trimmed := ((s.toList.dropWhile isNumberSpace).reverse.dropWhile isNumberSpace).reverse
  let (negative, unsigned) := match trimmed with
    | '-' :: rest => (true, rest)
    | '+' :: rest => (false, rest)
    | rest => (false, rest)
  let (whole, fraction) := Text.cutAt '.' unsigned
  let zeroFraction := match fraction with
    | none => true
    | some digits => !digits.isEmpty && digits.all (· == '0')
  if zeroFraction then
    (groupedDigits? whole).map fun size => if negative then -(size : Int) else size
  else none

/-- A value that must be a whole number, in any of its written forms. -/
def wholeNumber : Json → Checked Int
  | .int n => .sound n
  | .bool b => .sound (if b then 1 else 0)
  | .str s =>
    match wholeOfText? s with
    | some n => .sound n
    | none => .fault .unreadableWhole
  | .real x =>
    match x.ratio?, x.toInt? with
    | none, _ => .fault .notFinite
    | some _, none => .fault .fractional
    | some _, some n => if n.natAbs < Nat.pow 2 63 then .sound n else .fault .oversizedWhole
  | _ => .fault .notWhole

/-- The words for a flag that is set and for one that is not. -/
def flagWords : List (String × Bool) :=
  [("0", false), ("f", false), ("n", false), ("no", false), ("off", false), ("false", false),
    ("1", true), ("t", true), ("y", true), ("on", true), ("yes", true), ("true", true)]

/-- A value that must be a flag, in any of its written forms. -/
def flag : Json → Checked Bool
  | .bool b => .sound b
  | .int 0 => .sound false
  | .int 1 => .sound true
  | .int _ => .fault .unreadableFlag
  | .str s =>
    let small := s.map fun c => if 'A' ≤ c && c ≤ 'Z' then Char.ofNat (c.toNat + 32) else c
    match flagWords.lookup small with
    | some b => .sound b
    | none => .fault .unreadableFlag
  | .real x =>
    match x.toInt? with
    | some 0 => .sound false
    | some 1 => .sound true
    | some _ => .fault .unreadableFlag
    | none => .fault .notFlag
  | _ => .fault .notFlag

/-- A field that must hold a list whose items pass a check, when it is there. -/
def listOr {α : Type} (check : Json → Checked α) (fields : Fields) (name : String) :
    Checked (List α) :=
  match Json.field? fields name with
  | none => .sound []
  | some (.arr items) => Checked.below name (Checked.items check 0 items)
  | some _ => Checked.below name (.fault .notList)

end Record

end Stencil
