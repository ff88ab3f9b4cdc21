import Stencil.Record

/-!
# Settings

The settings name the two reserved category ids, the example pictures of a
preview and the package part that carries the watermark.  `categoryOf` sorts the
category ids into the three categories on which decisions depend.
-/

namespace Stencil

/-- The categories of placeholders: data known to the whole organisation, data
that only a master folder carries, and all that an operator enters. -/
inductive Category where
  | genericData
  | masterFolderOnly
  | input
  deriving DecidableEq, Repr

/-- The name of a category. -/
def Category.name : Category → String
  | .genericData => "generic_data"
  | .masterFolderOnly => "master_folder_only"
  | .input => "input"

/-- Tells whether placeholders of a category are kept out of an operator's hands. -/
def Category.isReserved : Category → Bool
  | .genericData | .masterFolderOnly => true
  | .input => false

/-- What can be configured. -/
structure Settings where
  genericDataTypeId : String := "generic-data"
  masterFolderTypeId : String := "master-folder-only"
  logoExampleUrl : String := "https://static.docform.dev/examples/generic-logo.png"
  signatureExampleUrl : String := "https://static.docform.dev/examples/fake-signature.png"
  watermarkPart : String := "word/header2.xml"
  deriving DecidableEq, Repr, Inhabited

namespace Settings

/-- The category of a category id.  An empty id is never a reserved one, and the
master folder id is looked at first. -/
def categoryOf (settings : Settings) (id : String) : Category :=
  if id == "" then .input
  else if id == settings.masterFolderTypeId then .masterFolderOnly
  else if id == settings.genericDataTypeId then .genericData
  else .input

/-- Settings as named fields. -/
def toFields (settings : Settings) : List (String × String) :=
  [("generic_data_type_id", settings.genericDataTypeId),
    ("master_folder_type_id", settings.masterFolderTypeId),
    ("logo_example_url", settings.logoExampleUrl),
    ("signature_example_url", settings.signatureExampleUrl),
    ("watermark_part", settings.watermarkPart)]

/-- Reads settings from named fields; a field that is left out has its standard
value. -/
def ofFields (fields : Record.Fields) : Except Rejection Settings :=
  let standard : Settings := {}
  Checked.toExcept <|
    ((Record.textOr fields "generic_data_type_id" standard.genericDataTypeId).both <|
      (Record.textOr fields "master_folder_type_id" standard.masterFolderTypeId).both <|
      (Record.textOr fields "logo_example_url" standard.logoExampleUrl).both <|
      (Record.textOr fields "signature_example_url" standard.signatureExampleUrl).both <|
      Record.textOr fields "watermark_part" standard.watermarkPart).map
    fun (generic, master, logo, signature, part) => ⟨generic, master, logo, signature, part⟩

end Settings

end Stencil
