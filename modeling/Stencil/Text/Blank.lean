/-!
# Blank characters

White space as templates, catalogues and settings know it: it surrounds names,
separates words and may stand inside the braces of a token.  The set is that of
the Unicode separators together with the control characters that part lines,
fields and records.  The zero-width characters are not blank.
-/

namespace Stencil.Text

/-- Tells whether a character is white space. -/
def isBlank (c : Char) : Bool :=
  let n := c.toNat
  (9 ≤ n && n ≤ 13) || (28 ≤ n && n ≤ 32) || n == 0x85 || n == 0xA0 || n == 0x1680
    || (0x2000 ≤ n && n ≤ 0x200A) || n == 0x2028 || n == 0x2029 || n == 0x202F
    || n == 0x205F || n == 0x3000

/-- Drops the blanks in front. -/
def trimStart (cs : List Char) : List Char :=
  cs.dropWhile isBlank

/-- Drops the blanks at the end. -/
def trimEnd (cs : List Char) : List Char :=
  (cs.reverse.dropWhile isBlank).reverse

/-- Drops the blanks on both sides. -/
def trim (cs : List Char) : List Char :=
  trimEnd (trimStart cs)

/-- Applies a rule on characters to a string. -/
def mapChars (rule : List Char → List Char) (s : String) : String :=
  String.ofList (rule s.toList)

/-- Drops the blanks on both sides of a string. -/
def trimmed (s : String) : String :=
  mapChars trim s

/-- Writes one underscore for every run of blanks, as names of stored files must
hold no white space. -/
def underscoreBlanks : List Char → List Char
  | [] => []
  | c :: rest =>
    if isBlank c then
      match rest with
      | next :: _ => if isBlank next then underscoreBlanks rest else '_' :: underscoreBlanks rest
      | [] => ['_']
    else c :: underscoreBlanks rest

end Stencil.Text
