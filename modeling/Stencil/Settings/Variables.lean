import Stencil.Settings.Basic

/-!
# Settings from variables

A settings file assigns variables, one per line: a name, an equals sign and a
value.  The word `export` may stand in front and a comment behind.  A value
stands between single quotes, between double quotes, where more escapes are
known, or without quotes up to the end of the line.  A line that does not fit
is passed over.  In a value, `${NAME}` stands for another variable, with a
standard value after `:-`.

Variables that are set already win over the file, also when they are empty.  A
setting takes the trimmed value of its variable unless that is empty.
-/

namespace Stencil.Settings.Variables

open Stencil.Text

/-- An assignment of a settings file.  A name without an equals sign has no value. -/
structure Assignment where
  name : String
  value : Option String
  deriving DecidableEq, Repr

/-- Tells whether a character ends a line. -/
def isLineEnd (c : Char) : Bool :=
  c == '\n' || c == '\r'

/-- Tells whether a character is a blank within a line. -/
def isLineBlank (c : Char) : Bool :=
  isBlank c && !isLineEnd c

/-- Drops the blanks within a line. -/
def skipLineBlanks (cs : List Char) : List Char :=
  cs.dropWhile isLineBlank

/-- Drops a line end, of one character or two. -/
def dropLineEnd : List Char → List Char
  | '\r' :: '\n' :: rest => rest
  | '\r' :: rest => rest
  | '\n' :: rest => rest
  | rest => rest

/-- What stands after the end of the present line. -/
def nextLine (cs : List Char) : List Char :=
  dropLineEnd (cs.dropWhile fun c => !isLineEnd c)

/-- Drops the word `export` when blanks within the line follow it. -/
def skipExport (cs : List Char) : List Char :=
  match cs with
  | 'e' :: 'x' :: 'p' :: 'o' :: 'r' :: 't' :: c :: rest =>
    if isLineBlank c then skipLineBlanks rest else cs
  | _ => cs

/-- Splits off the text up to the first quote that no backslash precedes. -/
def firstPlainQuote (quote : Char) (seen : List Char) :
    List Char → Option (List Char × List Char)
  | [] => none
  | '\\' :: c :: rest =>
    if c == quote then firstPlainQuote quote (c :: '\\' :: seen) rest
    else firstPlainQuote quote ('\\' :: seen) (c :: rest)
  | c :: rest =>
    if c == quote then some (seen.reverse, rest) else firstPlainQuote quote (c :: seen) rest

/-- Splits off the text up to the last quote that a backslash precedes; `best`
is the split found last. -/
def lastEscapedQuote (quote : Char) (seen : List Char) (best : Option (List Char × List Char)) :
    List Char → Option (List Char × List Char)
  | '\\' :: c :: rest =>
    if c == quote then
      lastEscapedQuote quote (c :: '\\' :: seen) (some (('\\' :: seen).reverse, rest)) rest
    else lastEscapedQuote quote ('\\' :: seen) best (c :: rest)
  | c :: rest => lastEscapedQuote quote (c :: seen) best rest
  | [] => best

/-- The text between quotes, and what follows.  A quote after a backslash closes
the text only when no other quote does. -/
def quotedPart (quote : Char) (cs : List Char) : Option (List Char × List Char) :=
  match firstPlainQuote quote [] cs with
  | some found => some found
  | none => lastEscapedQuote quote [] none cs

/-- The escapes between single quotes. -/
def singleEscape? : Char → Option Char
  | '\\' => some '\\'
  | '\'' => some '\''
  | _ => none

/-- The escapes between double quotes. -/
def doubleEscape? : Char → Option Char
  | '\\' => some '\\'
  | '\'' => some '\''
  | '"' => some '"'
  | 'a' => some '\x07'
  | 'b' => some '\x08'
  | 'f' => some '\x0c'
  | 'n' => some '\n'
  | 'r' => some '\r'
  | 't' => some '\t'
  | 'v' => some '\x0b'
  | _ => none

/-- Puts characters in place of their escapes. -/
def decodeEscapes (escape? : Char → Option Char) : List Char → List Char
  | '\\' :: c :: rest =>
    match escape? c with
    | some named => named :: decodeEscapes escape? rest
    | none => '\\' :: decodeEscapes escape? (c :: rest)
  | c :: rest => c :: decodeEscapes escape? rest
  | [] => []

/-- Cuts a value at a comment, which is a number sign after blanks. -/
def cutComment : List Char → List Char
  | [] => []
  | c :: rest =>
    if isBlank c && (rest.dropWhile isBlank).head? == some '#' then [] else c :: cutComment rest

/-- Reads the value after an equals sign, and gives what follows it. -/
def readAssigned (cs : List Char) : Option (List Char × List Char) :=
  match cs with
  | '\'' :: rest =>
    (quotedPart '\'' rest).map fun (value, rest) => (decodeEscapes singleEscape? value, rest)
  | '"' :: rest =>
    (quotedPart '"' rest).map fun (value, rest) => (decodeEscapes doubleEscape? value, rest)
  | _ =>
    let line := cs.takeWhile fun c => !isLineEnd c
    some (trimEnd (cutComment line), cs.drop line.length)

/-- Drops a comment and the end of the line; nothing else may stand there. -/
def finishLine (cs : List Char) : Option (List Char) :=
  let rest := match skipLineBlanks cs with
    | '#' :: comment => comment.dropWhile fun c => !isLineEnd c
    | _ => cs
  match skipLineBlanks rest with
  | [] => some []
  | c :: after => if isLineEnd c then some (dropLineEnd (c :: after)) else none

/-- Reads a name, and gives what follows it.  A line that begins with a number
sign has none. -/
def readName (cs : List Char) : Option (Option (List Char) × List Char) :=
  match cs with
  | '#' :: _ => some (none, cs)
  | '\'' :: rest =>
    let name := rest.takeWhile (· != '\'')
    match rest.drop name.length with
    | _ :: after => if name.isEmpty then none else some (some name, after)
    | [] => none
  | _ =>
    let name := cs.takeWhile fun c => c != '=' && c != '#' && !isBlank c
    if name.isEmpty then none else some (some name, cs.drop name.length)

/-- What one line gives, and the text after it. -/
def readLine (cs : List Char) : Option Assignment × List Char :=
  let start := skipExport cs
  match readName start with
  | none => (none, nextLine start)
  | some (name, afterName) =>
    match skipLineBlanks afterName with
    | '=' :: afterMark =>
      let assigned := skipLineBlanks afterMark
      match readAssigned assigned with
      | none => (none, nextLine assigned)
      | some (value, afterValue) =>
        match finishLine afterValue with
        | none => (none, nextLine afterValue)
        | some rest => (name.map fun n => ⟨String.ofList n, some (String.ofList value)⟩, rest)
    | others =>
      match finishLine others with
      | none => (none, nextLine others)
      | some rest => (name.map fun n => ⟨String.ofList n, none⟩, rest)

/-- The assignments of a text, at most `fuel` of them. -/
def readLines : (fuel : Nat) → List Char → List Assignment
  | 0, _ => []
  | fuel + 1, cs =>
    match cs.dropWhile isBlank with
    | [] => []
    | start =>
      let (assignment, rest) := readLine start
      assignment.toList ++ readLines fuel rest

/-- The assignments of a settings file. -/
def readFile (text : String) : List Assignment :=
  let cs := unifyLineEnds text.toList
  readLines (cs.length + 1) cs

/-- Variables that are set, by name. -/
abbrev Environment := List (String × String)

/-- Sets a variable; one that is set already keeps its place. -/
def assign (assigned : List (String × Option String)) (name : String) (value : Option String) :
    List (String × Option String) :=
  match assigned with
  | [] => [(name, value)]
  | entry :: rest =>
    if entry.1 == name then (name, value) :: rest else entry :: assign rest name value

/-- The variable and the standard value of a reference, and what follows it. -/
def readReference (cs : List Char) : Option ((String × String) × List Char) :=
  let name := cs.takeWhile fun c => c != '}' && c != ':'
  match cs.drop name.length with
  | '}' :: rest => some ((String.ofList name, ""), rest)
  | ':' :: '-' :: rest =>
    let standard := rest.takeWhile (· != '}')
    match rest.drop standard.length with
    | _ :: after => some ((String.ofList name, String.ofList standard), after)
    | [] => none
  | _ => none

/-- Puts values in place of references, while `pending` characters of the
reference read last are still to be passed over. -/
def expandFrom (value? : String → Option String) : (pending : Nat) → List Char → List Char
  | _, [] => []
  | pending + 1, _ :: rest => expandFrom value? pending rest
  | 0, c :: rest =>
    if c == '$' && rest.head? == some '{' then
      match readReference (rest.drop 1) with
      | some ((name, standard), after) =>
        ((value? name).getD standard).toList ++ expandFrom value? (rest.length - after.length) rest
      | none => c :: expandFrom value? 0 rest
    else c :: expandFrom value? 0 rest

/-- The value of a variable while a file is read: what is set already comes
first, then what the file has assigned so far. -/
def valueIn (set : Environment) (assigned : List (String × Option String)) (name : String) :
    Option String :=
  match set.lookup name with
  | some value => some value
  | none => (assigned.lookup name).map (·.getD "")

/-- The variables that a file assigns, with all references resolved. -/
def resolve (set : Environment) (assignments : List Assignment) :
    List (String × Option String) :=
  assignments.foldl
    (fun assigned assignment =>
      let value := assignment.value.map fun raw =>
        String.ofList (expandFrom (valueIn set assigned) 0 raw.toList)
      assign assigned assignment.name value)
    []

/-- Why a variable cannot be set. -/
inductive VariableError where
  | unusableName
  | nullCharacter
  deriving DecidableEq, Repr

/-- The text of an error. -/
def VariableError.message : VariableError → String
  | .unusableName => "illegal environment variable name"
  | .nullCharacter => "embedded null byte"

/-- What stands against setting a variable: neither its name nor its value may hold a
null character, nor its name an equals sign. -/
def fault? (name value : String) : Option VariableError :=
  if name.contains '\x00' || value.contains '\x00' then some .nullCharacter
  else if name.contains '=' then some .unusableName
  else none

/-- The variables that a file sets: those with a value that are not set already. -/
def additions (set : Environment) (file : Option String) : Environment :=
  (resolve set (readFile (file.getD ""))).filterMap fun (name, value) =>
    if (set.lookup name).isSome then none else value.map (name, ·)

/-- The variables after a file is read: those set already stay as they are. -/
def load (set : Environment) (file : Option String) : Except VariableError Environment :=
  let added := additions set file
  match added.findSome? fun (name, value) => fault? name value with
  | some error => .error error
  | none => .ok (set ++ added)

/-- The value for a setting: its trimmed variable, unless that is empty. -/
def settingOr (environment : Environment) (name standard : String) : String :=
  match environment.lookup name with
  | some value => if value == "" then standard else trimmed value
  | none => standard

/-- The names of the variables that settings are taken from. -/
def variableNames : List String :=
  ["DOCFORM_GENERIC_DATA_TYPE_ID", "DOCFORM_MASTER_FOLDER_TYPE_ID", "DOCFORM_LOGO_EXAMPLE_URL",
    "DOCFORM_SIGNATURE_EXAMPLE_URL", "DOCFORM_WATERMARK_PART"]

/-- The settings that variables give. -/
def settingsOf (environment : Environment) : Settings :=
  let standard : Settings := {}
  { genericDataTypeId :=
      settingOr environment "DOCFORM_GENERIC_DATA_TYPE_ID" standard.genericDataTypeId
    masterFolderTypeId :=
      settingOr environment "DOCFORM_MASTER_FOLDER_TYPE_ID" standard.masterFolderTypeId
    logoExampleUrl := settingOr environment "DOCFORM_LOGO_EXAMPLE_URL" standard.logoExampleUrl
    signatureExampleUrl :=
      settingOr environment "DOCFORM_SIGNATURE_EXAMPLE_URL" standard.signatureExampleUrl
    watermarkPart := settingOr environment "DOCFORM_WATERMARK_PART" standard.watermarkPart }

/-- The settings that set variables and a settings file give together. -/
def loadSettings (set : Environment) (file : Option String) : Except VariableError Settings :=
  (load set file).map settingsOf

/-- The settings of the first request for them, which later requests share.  No file is
read. -/
def sharedSettings : (first : Option Settings) → List Environment → List Settings
  | _, [] => []
  | some settings, _ :: rest => settings :: sharedSettings (some settings) rest
  | none, environment :: rest =>
    let settings := settingsOf environment
    settings :: sharedSettings (some settings) rest

end Stencil.Settings.Variables
