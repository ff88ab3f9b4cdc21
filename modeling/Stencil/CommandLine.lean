import Stencil.Text.Digit
import Stencil.Text.Split

/-!
# Command line

The options of the program.  A long option may be shortened as long as no other
one begins the same way, and its value may follow it behind an equals sign or as
the next argument.  An argument is a value unless it begins with a hyphen; numbers
below zero, the lone hyphen and arguments with blanks are values as well.
-/

namespace Stencil

/-- The options of the program. -/
inductive CommandOption where
  | template
  | placeholders
  | fieldTypes
  | placeholderTypes
  | steps
  | documentId
  | preview
  | output
  | previewDocument
  | watermark
  | envFile
  | verbose
  | help
  deriving DecidableEq, Repr

/-- What the arguments ask for. -/
structure Arguments where
  template : String
  placeholders : String := ""
  fieldTypes : String := ""
  placeholderTypes : String := ""
  steps : String := ""
  documentId : String := ""
  preview : Bool := false
  output : String := ""
  previewDocument : String := ""
  watermark : String := ""
  envFile : Option String := none
  deriving DecidableEq, Repr, Inhabited

/-- What comes of reading the arguments. -/
inductive Invocation where
  | run (arguments : Arguments)
  | help
  | misuse
  deriving DecidableEq, Repr

namespace CommandLine

/-- The options by their names. -/
def optionNames : List (String × CommandOption) :=
  [("-h", .help), ("--help", .help), ("--template", .template), ("--placeholders", .placeholders),
    ("--field-types", .fieldTypes), ("--placeholder-types", .placeholderTypes),
    ("--steps", .steps), ("--document-id", .documentId), ("--preview", .preview),
    ("--output", .output), ("--preview-docx", .previewDocument), ("--watermark", .watermark),
    ("--env-file", .envFile), ("--verbose", .verbose)]

/-- Tells whether an option has no value. -/
def isSwitch : CommandOption → Bool
  | .preview | .verbose | .help => true
  | _ => false

/-- What an argument is. -/
inductive Argument where
  | value (text : String)
  | option (option : CommandOption) (value : Option String)
  /-- Two hyphens, behind which there are only values. -/
  | separator
  /-- An option that there is not. -/
  | unknown
  /-- An option that is shortened too much. -/
  | ambiguous
  deriving DecidableEq, Repr

/-- Tells whether an argument is written like a number below zero. -/
def isNegativeNumber : List Char → Bool
  | '-' :: digits =>
    let (whole, fraction) := Text.cutAt '.' digits
    whole.all Text.isDecimal
      && match fraction with
        | none => !whole.isEmpty
        | some rest => !rest.isEmpty && rest.all Text.isDecimal
  | _ => false

/-- The options whose names begin with the name in an argument; a short option may
have its value right behind it. -/
def candidates (cs : List Char) (name : List Char) (value : Option (List Char)) :
    List (CommandOption × Option (List Char)) :=
  match cs with
  | '-' :: '-' :: _ =>
    (optionNames.filter fun (full, _) => name.isPrefixOf full.toList).map fun (_, option) =>
      (option, value)
  | _ =>
    optionNames.filterMap fun (full, option) =>
      if full.toList == cs.take 2 then some (option, some (cs.drop 2))
      else if cs.isPrefixOf full.toList then some (option, none)
      else none

/-- Tells what an argument is that begins with a hyphen and is no full option name. -/
def classifyPartial (cs : List Char) : Argument :=
  let (name, value) := Text.cutAt '=' cs
  match (if value.isSome then optionNames.lookup (String.ofList name) else none) with
  | some option => .option option (value.map String.ofList)
  | none =>
    match candidates cs name value with
    | [(option, value)] => .option option (value.map String.ofList)
    | _ :: _ :: _ => .ambiguous
    | [] => if isNegativeNumber cs || cs.contains ' ' then .value (String.ofList cs) else .unknown

/-- Tells what an argument is. -/
def classify (text : String) : Argument :=
  let cs := text.toList
  if cs.head? != some '-' || cs == ['-'] then .value text
  else if cs == ['-', '-'] then .separator
  else
    match optionNames.lookup text with
    | some option => .option option none
    | none => classifyPartial cs

/-- Tells what all arguments are. -/
def classifyAll : List String → List Argument
  | [] => []
  | text :: rest =>
    match classify text with
    | .separator => .separator :: rest.map .value
    | argument => argument :: classifyAll rest

/-- The options in order with their values, and whether there is anything besides. -/
structure Reading where
  options : List (CommandOption × String) := []
  hasExtra : Bool := false
  asksHelp : Bool := false
  deriving DecidableEq, Repr, Inhabited

/-- Reads arguments one after the other, until help is asked for or an option lacks its
value or has one that it must not have. -/
def read (reading : Reading) : List Argument → Option Reading
  | [] => some reading
  | .option .help none :: _ => some { reading with asksHelp := true }
  | .option option none :: rest =>
    if isSwitch option then read { reading with options := reading.options ++ [(option, "")] } rest
    else
      match rest with
      | .value text :: rest =>
        read { reading with options := reading.options ++ [(option, text)] } rest
      | _ => none
  | .option option (some text) :: rest =>
    if isSwitch option then none
    else read { reading with options := reading.options ++ [(option, text)] } rest
  | .ambiguous :: _ => none
  | _ :: rest => read { reading with hasExtra := true } rest

/-- Puts the value of an option into the arguments; the last one counts. -/
def assign (arguments : Arguments) : CommandOption × String → Arguments
  | (.template, text) => { arguments with template := text }
  | (.placeholders, text) => { arguments with placeholders := text }
  | (.fieldTypes, text) => { arguments with fieldTypes := text }
  | (.placeholderTypes, text) => { arguments with placeholderTypes := text }
  | (.steps, text) => { arguments with steps := text }
  | (.documentId, text) => { arguments with documentId := text }
  | (.preview, _) => { arguments with preview := true }
  | (.output, text) => { arguments with output := text }
  | (.previewDocument, text) => { arguments with previewDocument := text }
  | (.watermark, text) => { arguments with watermark := text }
  | (.envFile, text) => { arguments with envFile := some text }
  | (.verbose, _) => arguments
  | (.help, _) => arguments

/-- Reads the arguments of the program. -/
def parse (texts : List String) : Invocation :=
  let arguments := classifyAll texts
  if arguments.contains .ambiguous then .misuse
  else
    match read {} arguments with
    | none => .misuse
    | some reading =>
      if reading.asksHelp then .help
      else if reading.hasExtra || !(reading.options.map (·.1)).contains .template then .misuse
      else .run (reading.options.foldl assign { template := "" })

/-- What the program tells about its use. -/
def helpText : String :=
  "usage: stencil [-h] --template TEMPLATE [--placeholders PLACEHOLDERS]\n"
    ++ "               [--field-types FIELD_TYPES]\n"
    ++ "               [--placeholder-types PLACEHOLDER_TYPES] [--steps STEPS]\n"
    ++ "               [--document-id DOCUMENT_ID] [--preview] [--output OUTPUT]\n"
    ++ "               [--preview-docx PREVIEW_DOCX] [--watermark WATERMARK]\n"
    ++ "               [--env-file ENV_FILE] [--verbose]\n\n"
    ++ "Extract placeholders from a Word template and compile a mobile form schema.\n\n"
    ++ "options:\n"
    ++ "  -h, --help            show this help message and exit\n"
    ++ "  --template TEMPLATE   Path to the Word template (.docx)\n"
    ++ "  --placeholders PLACEHOLDERS\n"
    ++ "                        Placeholder catalog (.json or .xlsx)\n"
    ++ "  --field-types FIELD_TYPES\n"
    ++ "                        Field-type catalog (.json or .xlsx)\n"
    ++ "  --placeholder-types PLACEHOLDER_TYPES\n"
    ++ "                        Placeholder-category catalog (.json or .xlsx)\n"
    ++ "  --steps STEPS         JSON step layout; defaults to one step holding every\n"
    ++ "                        field\n"
    ++ "  --document-id DOCUMENT_ID\n"
    ++ "                        Document id written into the schema\n"
    ++ "  --preview             Fill fields with example values\n"
    ++ "  --output OUTPUT       Path to save the schema JSON (stdout when omitted)\n"
    ++ "  --preview-docx PREVIEW_DOCX\n"
    ++ "                        Path to save the template filled with the preview\n"
    ++ "                        values\n"
    ++ "  --watermark WATERMARK\n"
    ++ "                        Text written over the \x7bWatermark\x7d token before\n"
    ++ "                        extraction\n"
    ++ "  --env-file ENV_FILE   Optional .env file with DOCFORM_* settings\n"
    ++ "  --verbose             Enable debug logging\n"

end CommandLine

end Stencil
