import Pandaria.Ai.Sse

/-!
# Repairing JSON

`repair_json` and `parse_json_with_repair` of `ai-provider/src/repair.rs`, which
read the arguments of a tool call while they are still coming in. A text that
parses is left alone. Otherwise it is scanned character by character, and
brackets are added for those that are open.
-/

namespace Pandaria.Ai

/-- `char::is_control`. -/
def isControl (c : Char) : Bool :=
  let n := c.toNat
  n < 0x20 || (0x7f ≤ n && n < 0xa0)

def singleQuote : Char := '\x27'

/-- The next character that is no whitespace closes a bracket. -/
def closesNext (rest : List Char) : Bool :=
  match rest.dropWhile isWhitespace with
  | [] => false
  | c :: _ => c = ']' || c = '\x7d'

/-- The loop. `prev` is the character before, and `quote` is the `string_char` of
the string the loop is in, if it is in one. -/
def scan (prev quote : Option Char) : List Char → List Char
  | [] => if quote.isSome then ['"'] else []
  | c :: rest =>
      match quote with
      | some q =>
          if c = q ∧ prev ≠ some '\\' then '"' :: scan (some c) none rest
          else c :: scan (some c) quote rest
      | none =>
          if c = '"' ∨ c = singleQuote then '"' :: scan (some c) (some c) rest
          else if c = ',' then
            if closesNext rest then scan (some c) none rest else c :: scan (some c) none rest
          else if isControl c && !isWhitespace c && c ≠ '\n' && c ≠ '\r' && c ≠ '\t' then
            scan (some c) none rest
          else c :: scan (some c) none rest

/-- The stack of open brackets after one more character, its top in front. -/
def pushBracket (stack : List Char) (c : Char) : List Char :=
  if c = '[' ∨ c = '\x7b' then c :: stack
  else if c = ']' then if stack.head? = some '[' then stack.tail else stack
  else if c = '\x7d' then if stack.head? = some '\x7b' then stack.tail else stack
  else stack

def openBrackets (text : List Char) : List Char := text.foldl pushBracket []

def closer (c : Char) : Char := if c = '[' then ']' else '\x7d'

def balance (result : List Char) : List Char := result ++ (openBrackets result).map closer

def repairJson (serde : Serde) (s : String) : String :=
  let s := trim s.toList
  match serde.fromStr (String.ofList s) with
  | .ok _ => String.ofList s
  | .error _ => String.ofList (balance (scan none none s))

def parseJsonWithRepair (serde : Serde) (s : String) : Except String Json :=
  serde.fromStr (repairJson serde s)

end Pandaria.Ai
