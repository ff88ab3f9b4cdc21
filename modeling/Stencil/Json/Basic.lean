import Stencil.Numeral.Binary64

/-!
# JSON values

Catalogue rows, step layouts, organizer commands and field values are JSON
values.  Whole and floating numbers are kept apart, since a value is written
back the way it came in, and the fields of an object keep their order.

Besides structural equality there is `agrees`, by which values are compared when
only their meaning counts: numbers of either kind and the two truth values
compare by number, and objects regardless of order.
-/

namespace Stencil

/-- A JSON value. -/
inductive Json where
  | null
  | bool (value : Bool)
  | int (value : Int)
  | real (value : Binary64)
  | str (text : String)
  | arr (items : List Json)
  | obj (fields : List (String × Json))
  deriving Repr, Inhabited

namespace Json

mutual

/-- Decides equality of two values. -/
def decEq : (a b : Json) → Decidable (a = b)
  | .null, .null => isTrue rfl
  | .bool a, .bool b => decidable_of_iff (a = b) (by simp)
  | .int a, .int b => decidable_of_iff (a = b) (by simp)
  | .real a, .real b => decidable_of_iff (a = b) (by simp)
  | .str a, .str b => decidable_of_iff (a = b) (by simp)
  | .arr as, .arr bs =>
    match decEqItems as bs with
    | isTrue h => isTrue (by rw [h])
    | isFalse h => isFalse (by simpa using h)
  | .obj as, .obj bs =>
    match decEqFields as bs with
    | isTrue h => isTrue (by rw [h])
    | isFalse h => isFalse (by simpa using h)
  | .null, .bool _ | .null, .int _ | .null, .real _ | .null, .str _ | .null, .arr _ | .null, .obj _
  | .bool _, .null | .bool _, .int _ | .bool _, .real _ | .bool _, .str _ | .bool _, .arr _
  | .bool _, .obj _ | .int _, .null | .int _, .bool _ | .int _, .real _ | .int _, .str _
  | .int _, .arr _ | .int _, .obj _ | .real _, .null | .real _, .bool _ | .real _, .int _
  | .real _, .str _ | .real _, .arr _ | .real _, .obj _ | .str _, .null | .str _, .bool _
  | .str _, .int _ | .str _, .real _ | .str _, .arr _ | .str _, .obj _ | .arr _, .null
  | .arr _, .bool _ | .arr _, .int _ | .arr _, .real _ | .arr _, .str _ | .arr _, .obj _
  | .obj _, .null | .obj _, .bool _ | .obj _, .int _ | .obj _, .real _ | .obj _, .str _
  | .obj _, .arr _ => isFalse (by simp)

/-- Decides equality of two lists of values. -/
def decEqItems : (as bs : List Json) → Decidable (as = bs)
  | [], [] => isTrue rfl
  | [], _ :: _ | _ :: _, [] => isFalse (by simp)
  | a :: as, b :: bs =>
    match decEq a b, decEqItems as bs with
    | isTrue h, isTrue hs => isTrue (by rw [h, hs])
    | isFalse h, _ => isFalse (by simp [h])
    | _, isFalse hs => isFalse (by simp [hs])

/-- Decides equality of two lists of fields. -/
def decEqFields : (as bs : List (String × Json)) → Decidable (as = bs)
  | [], [] => isTrue rfl
  | [], _ :: _ | _ :: _, [] => isFalse (by simp)
  | (k, a) :: as, (l, b) :: bs =>
    match decEq a b, decEqFields as bs with
    | isTrue h, isTrue hs => decidable_of_iff (k = l) (by simp [h, hs])
    | isFalse h, _ => isFalse (by simp [h])
    | _, isFalse hs => isFalse (by simp [hs])

end

instance : DecidableEq Json := decEq

/-- The value of the first field with a name. -/
def field? (fields : List (String × Json)) (name : String) : Option Json :=
  fields.lookup name

/-- Puts a field into an object: a name that is there keeps its place and takes
the new value, any other is added at the end. -/
def insertField (fields : List (String × Json)) (name : String) (value : Json) :
    List (String × Json) :=
  match fields with
  | [] => [(name, value)]
  | (key, old) :: rest =>
    if key == name then (key, value) :: rest else (key, old) :: insertField rest name value

/-- The fields of an object in which names may repeat: the first place and the
last value of each name. -/
def distinctFields (fields : List (String × Json)) : List (String × Json) :=
  fields.foldl (fun seen (name, value) => insertField seen name value) []

/-- The text of a value that is one. -/
def text? : Json → Option String
  | .str s => some s
  | _ => none

/-- Tells whether a value counts as given: it is none of null, false, zero and
the empty text, list and object. -/
def isGiven : Json → Bool
  | .null => false
  | .bool b => b
  | .int n => n != 0
  | .real x => !x.isZero
  | .str s => s != ""
  | .arr items => !items.isEmpty
  | .obj fields => !fields.isEmpty

/-- The given value, or another in place of one that is not given. -/
def orElse (value other : Json) : Json :=
  if value.isGiven then value else other

/-- A number as a whole numerator over a positive denominator; the truth values
count as one and zero. -/
def number? : Json → Option (Int × Nat)
  | .bool b => some (if b then 1 else 0, 1)
  | .int n => some (n, 1)
  | .real x => x.ratio?
  | _ => none

mutual

/-- Tells whether two values mean the same. -/
def agrees : Json → Json → Bool
  | .null, .null => true
  | .str a, .str b => a == b
  | .arr as, .arr bs => itemsAgree as bs
  | .obj as, .obj bs => as.length == bs.length && fieldsAgree as bs
  | .real a, .real b =>
    match a.ratio?, b.ratio? with
    | some (n, d), some (m, e) => n * e == m * d
    | none, none => a == b && a != .undefined
    | _, _ => false
  | a, b =>
    match a.number?, b.number? with
    | some (n, d), some (m, e) => n * e == m * d
    | _, _ => false

/-- Tells whether two lists mean the same, item by item. -/
def itemsAgree : List Json → List Json → Bool
  | [], [] => true
  | a :: as, b :: bs => agrees a b && itemsAgree as bs
  | _, _ => false

/-- Tells whether every field of the first list has one of the same name and
meaning in the second. -/
def fieldsAgree : List (String × Json) → List (String × Json) → Bool
  | [], _ => true
  | (name, a) :: as, bs =>
    (match field? bs name with
      | some b => agrees a b
      | none => false) && fieldsAgree as bs

end

end Json

end Stencil
