import SwapMachine.Fault

/-!
# SwapMachine.Identity.Canonical — one text for each value

Values built from nothing, truth values, whole numbers, texts, lists and dictionaries with texts as
keys have a canonical text: no blanks, keys in the order of their code points, only those characters
of a text escaped that have to be. Other values have none.

* `check` refuses a value with a fraction, a byte string, a date, a thing or another key than a text
  anywhere in it.
* `render` writes a value; `encode` does so after the check, as bytes. Texts with code points that
  are no characters have no bytes.
-/

namespace SwapMachine.Canonical

mutual

/-- Refuses a value without canonical text. -/
def check : Datum → Except IdentityFault Unit
  | .float _ => .error .floatValue
  | .bytes _ => .error .bytesValue
  | .date _ | .moment _ | .thing _ => .error .otherValue
  | .dict entries => checkEntries entries
  | .list items => checkItems items
  | _ => .ok ()

/-- Refuses a list with a bad value. -/
def checkItems : List Datum → Except IdentityFault Unit
  | [] => .ok ()
  | d :: ds => do
    check d
    checkItems ds

/-- Refuses entries with a bad key or value; a key is looked at before its value. -/
def checkEntries : List (Datum × Datum) → Except IdentityFault Unit
  | [] => .ok ()
  | (k, v) :: es =>
    if k.text?.isNone then .error .keyNotText
    else do
      check v
      checkEntries es

end

mutual

/-- Some text in a value has code points that are no characters. -/
def isLoose : Datum → Bool
  | .loose _ => true
  | .dict entries => haveLoose entries
  | .list items => areLoose items
  | _ => false

/-- Some text in the values of a list has such code points. -/
def areLoose : List Datum → Bool
  | [] => false
  | d :: ds => isLoose d || areLoose ds

/-- Some text in the keys or values of entries has such code points. -/
def haveLoose : List (Datum × Datum) → Bool
  | [] => false
  | (k, v) :: es => isLoose k || isLoose v || haveLoose es

end

/-- A character of a text. -/
def escape (c : Char) : List Char :=
  if c == '"' then ['\\', '"']
  else if c == '\\' then ['\\', '\\']
  else if c == '\n' then ['\\', 'n']
  else if c == '\r' then ['\\', 'r']
  else if c == '\t' then ['\\', 't']
  else if c.toNat == 0x08 then ['\\', 'b']
  else if c.toNat == 0x0c then ['\\', 'f']
  else if c.toNat < 0x20 then '\\' :: 'u' :: Text.Quoted.hexDigits 4 c.toNat
  else [c]

/-- A text between quotation marks. -/
def quote (s : String) : List Char := '"' :: s.toList.flatMap escape ++ ['"']

/-- Written parts separated by commas. -/
def joined : List (List Char) → List Char
  | [] => []
  | [p] => p
  | p :: ps => p ++ ',' :: joined ps

/-- Written members of a dictionary, by rising key. -/
def sorted (members : List (String × List Char)) : List (String × List Char) :=
  members.mergeSort fun a b => !decide (b.1 < a.1)

mutual

/-- The canonical text of a value that has one. -/
def render : Datum → List Char
  | .nothing => "null".toList
  | .bool true => "true".toList
  | .bool false => "false".toList
  | .int z => Text.Decimal.signed z
  | .text s => quote s
  | .float _ | .loose _ | .bytes _ | .date _ | .moment _ | .thing _ => []
  | .list items => '[' :: joined (renderItems items) ++ [']']
  | .dict entries =>
    let members := (sorted (renderEntries entries)).map fun m => quote m.1 ++ ':' :: m.2
    '\x7b' :: joined members ++ ['\x7d']

/-- The texts of the values of a list. -/
def renderItems : List Datum → List (List Char)
  | [] => []
  | d :: ds => render d :: renderItems ds

/-- The keys of a dictionary with the texts of their values. -/
def renderEntries : List (Datum × Datum) → List (String × List Char)
  | [] => []
  | (.text k, v) :: es => (k, render v) :: renderEntries es
  | _ :: es => renderEntries es

end

/-- The canonical text of a value, if it has one. -/
def text (d : Datum) : Except IdentityFault String := do
  check d
  if isLoose d then .error .noCharacter else return String.ofList (render d)

/-- The bytes of a text. -/
def utf8 (s : String) : List UInt8 := s.toUTF8.toList

/-- The bytes of the canonical text of a value. -/
def encode (d : Datum) : Except IdentityFault (List UInt8) := utf8 <$> text d

end SwapMachine.Canonical
