import Stencil.Calendar
import Stencil.Settings.Basic

/-!
# Example values

A preview shows an example value in every field, chosen by the name of its value
type: a number, the day of the preview, one of two pictures, the first option, or
a text.
-/

namespace Stencil.Example

/-- Tells whether a tag speaks of a logo. -/
def isLogoTag (tag : String) : Bool :=
  Text.occursIn "logo".toList (tag.toList.map Text.asciiLower)

/-- The example value for a value type. -/
def value (type : String) (options : List Json) (tag : String) (settings : Settings)
    (today : Date) : Json :=
  if type == "Number" then .int 123
  else if type == "Date" then .str today.iso
  else if type == "Image" then
    .str (if isLogoTag tag then settings.logoExampleUrl else settings.signatureExampleUrl)
  else options.headD (.str "Example Text")

end Stencil.Example
