import Stencil.Text.Case
import Stencil.Text.Split

/-!
# Calendar dates

Dates of the years 1 to 9999, their ISO form and the way revisions of a document
write them: a day, the name of a month and a year.
-/

namespace Stencil

/-- A calendar date. -/
structure Date where
  year : Nat
  month : Nat
  day : Nat
  deriving DecidableEq, Repr, Inhabited

namespace Date

open Stencil.Text

/-- Tells whether a year has a leap day. -/
def isLeap (year : Nat) : Bool :=
  year % 4 == 0 && (year % 100 != 0 || year % 400 == 0)

/-- The number of days of a month. -/
def daysIn (year month : Nat) : Nat :=
  match month with
  | 2 => if isLeap year then 29 else 28
  | 4 | 6 | 9 | 11 => 30
  | _ => 31

/-- Tells whether a date is in the calendar. -/
def isValid (date : Date) : Bool :=
  1 ≤ date.year && date.year ≤ 9999 && 1 ≤ date.month && date.month ≤ 12 && 1 ≤ date.day
    && date.day ≤ daysIn date.year date.month

/-- The decimal digits of a number, padded with zeros to a width. -/
def paddedDigits : (width n : Nat) → List Char
  | 0, _ => []
  | width + 1, n => paddedDigits width (n / 10) ++ [hexDigit (n % 10)]

/-- The ISO form of a date: year, month and day with hyphens between them. -/
def isoChars (date : Date) : List Char :=
  paddedDigits 4 date.year ++ '-' :: paddedDigits 2 date.month ++ '-' :: paddedDigits 2 date.day

/-- The ISO form of a date. -/
def iso (date : Date) : String :=
  String.ofList date.isoChars

/-- Reads the ISO form of a date. -/
def ofIso? (text : String) : Option Date := do
  match splitWhere (· == '-') text.toList with
  | [year, month, day] =>
    let date : Date := ⟨← decimalValue? year, ← decimalValue? month, ← decimalValue? day⟩
    if date.isValid then some date else none
  | _ => none

/-- The names of the months in small letters, January first. -/
def monthNames : List String :=
  ["january", "february", "march", "april", "may", "june", "july", "august", "september",
    "october", "november", "december"]

/-- The number of the month with a name, in full or cut to three letters, written
in capital or small letters. -/
def monthNumber? (name : List Char) : Option Nat :=
  let small := name.map asciiLower
  (monthNames.findIdx? fun month => month.toList == small || month.toList.take 3 == small).map
    (· + 1)

/-- The number of a day written with one digit or two.  A second digit may be of
any script. -/
def dayNumber? : List Char → Option Nat
  | [c] => if '1' ≤ c && c ≤ '9' then digitValue? c else none
  | [c, d] =>
    match digitValue? d with
    | none => none
    | some units =>
      if c == '0' && '1' ≤ d && d ≤ '9' then some units
      else if c == '1' || c == '2' then some (10 * (c.toNat - '0'.toNat) + units)
      else if c == '3' && (d == '0' || d == '1') then some (30 + units)
      else none
  | _ => none

/-- The number of a year written with four digits of any script. -/
def yearNumber? (cs : List Char) : Option Nat :=
  if cs.length == 4 then decimalValue? cs else none

/-- The date of a revision: day, month and year, parted by blanks.  The day ends
at its first comma, and commas may follow the month. -/
def ofRevision? (cs : List Char) : Option Date := do
  match words cs with
  | [day, month, year] =>
    let date : Date :=
      { day := ← dayNumber? (cutAt ',' day).1
        month := ← monthNumber? (month.reverse.dropWhile (· == ',')).reverse
        year := ← yearNumber? year }
    if date.isValid then some date else none
  | _ => none

/-- The ISO form of the date of a revision, empty when it cannot be read. -/
def revisionIso (text : String) : String :=
  match ofRevision? text.toList with
  | some date => date.iso
  | none => ""

end Date

end Stencil
