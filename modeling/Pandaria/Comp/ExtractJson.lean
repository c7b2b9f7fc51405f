import Pandaria.Ai.Types
import Pandaria.Lib.ByteText

/-!
# Finding JSON in what a model says

`extract_json` and `parse_json_with_retry` of `tavern-comp/src/team/engine.rs`,
with which the planning phase reads a plan. Every place they find is a number of
bytes, and every slice may panic, which is `none` here. The parser of `serde_json`
is a parameter.
-/

namespace Pandaria.Comp

open Pandaria.Ai Pandaria.Lib

/-- `serde_json::from_str`: whether a text is a value, and what is read of it. A value
is read alike without the whitespace around it; only its errors tell lines and
columns. -/
structure JsonParser (τ : Type _) where
  isValue : List Char → Bool
  read : List Char → Except String τ
  trims : ∀ text x, isValue text = true → (read text = .ok x ↔ read (trim text) = .ok x)

def fence : List Char := ['`', '`', '`']

def jsonFence : List Char := ['`', '`', '`', 'j', 's', 'o', 'n']

/-- What the first such marker, of `len` bytes, opens and a fence closes. Without a
marker or a closing fence there is nothing. -/
def fencedBlock (marker : List Char) (len : Nat) (raw : List Char) :
    Option (Option (List Char)) :=
  match ByteText.find marker raw with
  | none => some none
  | some start => do
      let after ← ByteText.sliceFrom raw (start + len)
      match ByteText.find fence after with
      | none => some none
      | some stop => do
          let block ← ByteText.sliceTo after stop
          some (some (trim block))

/-- From the first opening brace to the last closing one. -/
def braced (raw : List Char) : Option (List Char) :=
  match ByteText.find ['{'] raw, ByteText.rfind '}' raw with
  | some start, some stop => ByteText.slice raw start (stop + 1)
  | _, _ => some raw

variable {τ : Type _}

def extractJson (parser : JsonParser τ) (raw : List Char) : Option (List Char) :=
  if parser.isValue raw then some raw
  else do
    match ← fencedBlock jsonFence 7 raw with
    | some block => some block
    | none =>
        match ← fencedBlock fence 3 raw with
        | some block => some block
        | none => braced raw

def parseJsonWithRetry (parser : JsonParser τ) (raw : List Char) : Option (Except String τ) := do
  let json ← extractJson parser raw
  some (match parser.read json with
    | .ok x => .ok x
    | .error e => .error ("invalid JSON: " ++ e))

end Pandaria.Comp
