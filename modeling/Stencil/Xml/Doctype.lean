import Stencil.Xml.Reference

/-!
# Document type declarations

A document may declare entities before its root element.  Of the other
declarations only the extent counts.  A parameter entity stands for declarations
and is read in their place; one that is not declared is passed over.
-/

namespace Stencil.Xml

/-- The declarations that were read. -/
structure Doctype where
  entities : Entities := []
  parameters : Entities := []
  deriving Repr, Inhabited

namespace Doctype

/-- The text of an entity: the codes of characters are resolved and all other
references are kept. -/
def entityText : (fuel : Nat) → List Char → Option (List Char)
  | 0, _ => none
  | _ + 1, [] => some []
  | _ + 1, '%' :: _ => none
  | fuel + 1, '&' :: rest => do
    match rest with
    | '#' :: _ =>
      let (reference, after) ← Reference.read rest
      match reference with
      | .char c => (entityText fuel after).map (c :: ·)
      | .entity _ => none
    | _ =>
      let (name, after) ← readName rest
      match after with
      | ';' :: after => (entityText fuel after).map (('&' :: name ++ [';']) ++ ·)
      | _ => none
  | fuel + 1, c :: rest => (entityText fuel rest).map (c :: ·)

/-- Skips a quoted text with white space before it. -/
def skipQuoted (cs : List Char) : Option (List Char) := do
  return (← readQuoted (← needSpace cs)).2

/-- Reads where an external text is found: its place, and before it a public name
if it has one. -/
def readExternal (cs : List Char) : Option (List Char) :=
  match afterWord "SYSTEM" cs, afterWord "PUBLIC" cs with
  | some rest, _ => skipQuoted rest
  | none, some rest => (skipQuoted rest).bind skipQuoted
  | none, none => none

/-- Skips the notation of an external text that is no markup, if it has one. -/
def skipNotation (cs : List Char) : Option (List Char) :=
  match afterWord "NDATA" (skipSpace cs) with
  | some after => do
    let _ ← needSpace cs
    return (← readName (← needSpace after)).2
  | none => some cs

/-- Reads what an entity stands for. -/
def readMeaning (cs : List Char) : Option (Entity × List Char) :=
  if cs.head? == some '"' || cs.head? == some '\'' then do
    let (value, rest) ← readQuoted cs
    return (.internal (← entityText (value.length + 1) value), rest)
  else do
    return (.external, ← skipNotation (← readExternal cs))

/-- Adds an entity; the first declaration of a name counts. -/
def declare (entities : Entities) (name : List Char) (entity : Entity) : Entities :=
  if (entities.lookup name).isSome then entities else entities ++ [(name, entity)]

/-- Reads the mark of a parameter entity, if it stands there. -/
def readParameterMark : List Char → Option (Bool × List Char)
  | '%' :: rest => (needSpace rest).map fun rest => (true, rest)
  | rest => some (false, rest)

/-- Reads the declaration of an entity after its keyword. -/
def readEntity (doctype : Doctype) (cs : List Char) : Option (Doctype × List Char) := do
  let (isParameter, rest) ← readParameterMark (← needSpace cs)
  let (name, rest) ← readName rest
  let (entity, rest) ← readMeaning (← needSpace rest)
  let rest ← afterWord ">" (skipSpace rest)
  if isParameter then
    return ({ doctype with parameters := declare doctype.parameters name entity }, rest)
  else return ({ doctype with entities := declare doctype.entities name entity }, rest)

/-- Skips a declaration up to its end; quotes hide what stands between them. -/
def skipDeclaration : (fuel : Nat) → List Char → Option (List Char)
  | 0, _ => none
  | _ + 1, [] => none
  | fuel + 1, c :: rest =>
    if c == '>' then some rest
    else if c == '<' then none
    else if c == '"' || c == '\'' then do
      let (_, rest) ← cutAfter [c] rest
      skipDeclaration fuel rest
    else skipDeclaration fuel rest

/-- Reads the rest of a comment; two hyphens end it. -/
def skipComment (cs : List Char) : Option (List Char) := do
  let (_, rest) ← cutAfter ['-', '-'] cs
  afterWord ">" rest

/-- Reads the rest of an instruction, whose target must not be reserved. -/
def skipInstruction (cs : List Char) : Option (List Char) := do
  let (target, rest) ← readName cs
  let small := target.map fun c => if Text.isCapital c then Char.ofNat (c.toNat + 32) else c
  if small == "xml".toList then none
  match afterWord "?>" rest with
  | some rest => return rest
  | none => return (← cutAfter ['?', '>'] (← needSpace rest)).2

/-- Reads declarations up to the closing bracket. -/
def readSubset : (fuel : Nat) → Doctype → List Char → Option (Doctype × List Char)
  | 0, _, _ => none
  | fuel + 1, doctype, cs =>
    match skipSpace cs with
    | ']' :: rest => some (doctype, rest)
    | '%' :: rest => do
      let (name, rest) ← readName rest
      let rest ← afterWord ";" rest
      match doctype.parameters.lookup name with
      | some (.internal text) => readSubset fuel doctype (' ' :: text ++ ' ' :: rest)
      | _ => readSubset fuel doctype rest
    | '<' :: '?' :: rest => do readSubset fuel doctype (← skipInstruction rest)
    | '<' :: '!' :: '-' :: '-' :: rest => do readSubset fuel doctype (← skipComment rest)
    | '<' :: '!' :: rest => do
      match afterWord "ENTITY" rest with
      | some rest =>
        let (doctype, rest) ← readEntity doctype rest
        readSubset fuel doctype rest
      | none =>
        if ["ELEMENT", "ATTLIST", "NOTATION"].any fun word => (afterWord word rest).isSome then
          readSubset fuel doctype (← skipDeclaration fuel rest)
        else none
    | _ => none

/-- Skips the place of declarations outside of the document, if there is one. -/
def skipExternal (cs : List Char) : Option (List Char) :=
  let next := skipSpace cs
  if (afterWord "SYSTEM" next).isSome || (afterWord "PUBLIC" next).isSome then
    (needSpace cs).bind readExternal
  else some cs

/-- Reads the declarations between brackets, if there are any. -/
def readDeclarations : List Char → Option (Doctype × List Char)
  | '[' :: rest => readSubset (2 * rest.length + 2) {} rest
  | rest => some ({}, rest)

/-- Reads a document type declaration after its keyword. -/
def read (cs : List Char) : Option (Doctype × List Char) := do
  let (_, rest) ← readQName (← needSpace cs)
  let (doctype, rest) ← readDeclarations (skipSpace (← skipExternal rest))
  return (doctype, ← afterWord ">" (skipSpace rest))

end Doctype

end Stencil.Xml
