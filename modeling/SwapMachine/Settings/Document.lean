import SwapMachine.Markup.Value
import SwapMachine.Settings.Basic

/-!
# SwapMachine.Settings.Document — settings from a file of markup

A file holds the settings either as its only content or under the key `engine`, beside other things.
-/

namespace SwapMachine.Settings

/-- The key under which a file may hold the settings. -/
def sectionKey : Datum := .text "engine"

/-- The settings in the content of a file; a file without content leaves the defaults. -/
def ofContent (content : Datum) : Outcome Settings :=
  match content with
  | .nothing => .ok default
  | .dict entries =>
    match entries.find? fun e => e.1.sameKey sectionKey with
    | some e => ofDatum e.2
    | none => ofDatum content
  | content => ofDatum content

/-- The settings in the text of a file. -/
def ofText (text : String) : Outcome Settings := do ofContent (← Markup.valueOf text)

end SwapMachine.Settings
