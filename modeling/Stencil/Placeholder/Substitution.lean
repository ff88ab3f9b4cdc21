import Stencil.Placeholder.Token

/-!
# Substitution of tokens

A key is replaced by a text wherever it stands as a token, between single or
double braces with blanks around it.  Double braces are looked for first.  Keys
are replaced one after the other, so what one key has put in is there for the
next one.
-/

namespace Stencil.Token

open Stencil.Text

/-- The number of characters that a key, blanks and a closing take up, if they stand
here. -/
def closedLength? (key closing cs : List Char) : Option Nat :=
  if key.isPrefixOf cs then
    let rest := cs.drop key.length
    let blanks := rest.takeWhile isBlank
    if closing.isPrefixOf (rest.drop blanks.length) then
      some (key.length + blanks.length + closing.length)
    else none
  else none

/-- The number of characters that blanks, a key, blanks and a closing take up, if they
stand here.  As many blanks as possible are left out of the key. -/
def paddedLength? (key closing : List Char) : List Char → Option Nat
  | [] => closedLength? key closing []
  | c :: rest =>
    if isBlank c then
      match paddedLength? key closing rest with
      | some length => some (length + 1)
      | none => closedLength? key closing (c :: rest)
    else closedLength? key closing (c :: rest)

/-- The number of characters that the token of a key takes up, if one begins here. -/
def tokenLength? (key : List Char) : List Char → Option Nat
  | [] => none
  | c :: rest =>
    if c == openBrace then
      let doubled := match rest with
        | d :: inner =>
          if d == openBrace then
            (paddedLength? key [closeBrace, closeBrace] inner).map (· + 2)
          else none
        | [] => none
      doubled.or ((paddedLength? key [closeBrace] rest).map (· + 1))
    else none

/-- Replaces the tokens of a key while `pending` characters of the token met last are
still to be passed over. -/
def replaceKeyFrom (key value : List Char) : (pending : Nat) → List Char → List Char
  | _, [] => []
  | pending + 1, _ :: rest => replaceKeyFrom key value pending rest
  | 0, c :: rest =>
    match tokenLength? key (c :: rest) with
    | some length => value ++ replaceKeyFrom key value (length - 1) rest
    | none => c :: replaceKeyFrom key value 0 rest

/-- Replaces the tokens of a key by a text. -/
def replaceKey (key value cs : List Char) : List Char :=
  replaceKeyFrom key value 0 cs

/-- Tells whether a text has a token of a key. -/
def holdsKey (key : List Char) : List Char → Bool
  | [] => false
  | c :: rest => (tokenLength? key (c :: rest)).isSome || holdsKey key rest

/-- The texts to put in, by key. -/
abbrev Values := List (String × String)

/-- Replaces the tokens of all keys, one key after the other. -/
def replaceAllKeys (values : Values) (cs : List Char) : List Char :=
  values.foldl (fun text (key, value) => replaceKey key.toList value.toList text) cs

/-- The keys that have a token in a text at their turn. -/
def keysFound : Values → List Char → List String
  | [], _ => []
  | (key, value) :: rest, cs =>
    let found := keysFound rest (replaceKey key.toList value.toList cs)
    if holdsKey key.toList cs then key :: found else found

end Stencil.Token
