import Stencil.Json.Basic
import Stencil.Numeral.Decimal

/-!
# Workbooks

A workbook holds sheets of cells.  Cells do not come back quite as they were put
in: an empty text is no cell, a formula has no value, and a number is stored with
sixteen significant digits and becomes a whole number when these show no fraction
and no exponent.  The rows of a sheet are filled up to the width of its widest row.
-/

namespace Stencil

/-- A workbook: its sheets by name, with the cells that were put in. -/
structure Workbook where
  sheets : List (String × List (List Json)) := []
  deriving DecidableEq, Repr, Inhabited

namespace Workbook

/-- The number of significant digits that a cell keeps. -/
def keptDigits : Nat := 16

/-- The number that a cell keeps of a ratio. -/
def keptNumber (numerator : Int) (denominator : Nat) : Json :=
  if numerator == 0 then .int 0
  else
    let decimal := Decimal.rounded keptDigits numerator.natAbs denominator
    let leading := decimal.leadingExponent
    let size := decimal.digits * Nat.pow 10 decimal.power.toNat
    if 0 ≤ decimal.power && leading < keptDigits then
      .int (if numerator < 0 then -(size : Int) else size)
    else .real (Binary64.ofDecimal (numerator < 0) decimal.digits decimal.power)

/-- The value that comes back from a cell. -/
def keptCell : Json → Json
  | .str text =>
    if text == "" || (text.toList.head? == some '=' && 1 < text.length) then .null else .str text
  | .int n =>
    match (Binary64.ofInt n).ratio? with
    | some (numerator, denominator) => keptNumber numerator denominator
    | none => .null
  | .real x =>
    match x.ratio? with
    | some (numerator, denominator) => keptNumber numerator denominator
    | none => .null
  | other => other

/-- The width of the widest row. -/
def width (rows : List (List Json)) : Nat :=
  (rows.map List.length).foldl max 0

/-- A row filled up to a width. -/
def padded (width : Nat) (row : List Json) : List Json :=
  row ++ List.replicate (width - row.length) .null

/-- The rows of a sheet as they come back. -/
def keptRows (rows : List (List Json)) : List (List Json) :=
  rows.map fun row => padded (width rows) (row.map keptCell)

/-- The rows of the sheet with a name. -/
def rows? (workbook : Workbook) (sheet : String) : Option (List (List Json)) :=
  (workbook.sheets.lookup sheet).map keptRows

end Workbook

end Stencil
