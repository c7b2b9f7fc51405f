import Mathlib.Algebra.GroupWithZero.Nat
import Mathlib.Data.List.Basic

/-!
# Messages, as `ai-provider` declares them

The types of `ai-provider/src/types.rs`, field for field, with the JSON value
they embed. Numbers inside a JSON value are kept as the text they print as,
which is all any modelled function reads of them; an instant is a `Nat`, and
nothing below depends on its unit.

What a provider reports as text is matched after `str::to_lowercase`. The
patterns it is matched against are ASCII, so the only facts about Unicode that
can decide a match are the two letters outside ASCII whose lower case contains
an ASCII letter; `lowerChar` has those two and leaves every other letter
outside ASCII alone.
-/

namespace Pandaria.Ai

/-! ## JSON values -/

/-- `serde_json::Value`. -/
inductive Json where
  | null
  | bool (b : Bool)
  | num (text : String)
  | str (s : String)
  | arr (elems : List Json)
  | obj (fields : List (String × Json))
deriving Inhabited

mutual

/-- Equality of JSON values is decided structurally. -/
def Json.decEq : (a b : Json) → Decidable (a = b)
  | .null, .null => .isTrue rfl
  | .bool a, .bool b =>
      if h : a = b then .isTrue (congrArg _ h) else .isFalse fun e => h (by injection e)
  | .num a, .num b =>
      if h : a = b then .isTrue (congrArg _ h) else .isFalse fun e => h (by injection e)
  | .str a, .str b =>
      if h : a = b then .isTrue (congrArg _ h) else .isFalse fun e => h (by injection e)
  | .arr a, .arr b =>
      match Json.decEqElems a b with
      | .isTrue h => .isTrue (congrArg _ h)
      | .isFalse h => .isFalse fun e => h (by injection e)
  | .obj a, .obj b =>
      match Json.decEqFields a b with
      | .isTrue h => .isTrue (congrArg _ h)
      | .isFalse h => .isFalse fun e => h (by injection e)
  | .null, .bool _ | .null, .num _ | .null, .str _ | .null, .arr _ | .null, .obj _
  | .bool _, .null | .bool _, .num _ | .bool _, .str _ | .bool _, .arr _
  | .bool _, .obj _ | .num _, .null | .num _, .bool _ | .num _, .str _
  | .num _, .arr _ | .num _, .obj _ | .str _, .null | .str _, .bool _
  | .str _, .num _ | .str _, .arr _ | .str _, .obj _ | .arr _, .null
  | .arr _, .bool _ | .arr _, .num _ | .arr _, .str _ | .arr _, .obj _
  | .obj _, .null | .obj _, .bool _ | .obj _, .num _ | .obj _, .str _
  | .obj _, .arr _ => .isFalse nofun

def Json.decEqElems : (a b : List Json) → Decidable (a = b)
  | [], [] => .isTrue rfl
  | [], _ :: _ | _ :: _, [] => .isFalse nofun
  | x :: xs, y :: ys =>
      match Json.decEq x y, Json.decEqElems xs ys with
      | .isTrue h, .isTrue hs => .isTrue (by rw [h, hs])
      | .isFalse h, _ => .isFalse fun e => h (by injection e)
      | _, .isFalse h => .isFalse fun e => h (by injection e)

def Json.decEqFields : (a b : List (String × Json)) → Decidable (a = b)
  | [], [] => .isTrue rfl
  | [], _ :: _ | _ :: _, [] => .isFalse nofun
  | (k, x) :: xs, (l, y) :: ys =>
      match instDecidableEqString k l, Json.decEq x y, Json.decEqFields xs ys with
      | .isTrue hk, .isTrue h, .isTrue hs => .isTrue (by rw [hk, h, hs])
      | .isFalse h, _, _ => .isFalse fun e => h (by injection e with e _; injection e)
      | _, .isFalse h, _ => .isFalse fun e => h (by injection e with e _; injection e)
      | _, _, .isFalse h => .isFalse fun e => h (by injection e)

end

instance : DecidableEq Json := Json.decEq

/-- `Value::get` with a string key: a field of an object, nothing otherwise. -/
def Json.get (key : String) : Json → Option Json
  | .obj fields => (fields.find? fun f => f.1 = key).map (·.2)
  | _ => none

/-- `Value::as_bool`. -/
def Json.asBool : Json → Option Bool
  | .bool b => some b
  | _ => none

/-- `Value::as_str`. -/
def Json.asStr : Json → Option String
  | .str s => some s
  | _ => none

/-- `Value::as_array`. -/
def Json.asArray : Json → Option (List Json)
  | .arr elems => some elems
  | _ => none

/-- `Value::as_u64`, of a number printed as `serde_json` prints one. -/
def Json.asU64 : Json → Option Nat
  | .num text =>
      let digits := text.toList
      let value := digits.foldl (fun n c => n * 10 + (c.toNat - '0'.toNat)) 0
      if !digits.isEmpty && digits.all Char.isDigit && decide (value < 2 ^ 64) then some value
      else none
  | _ => none

/-- `value[key]`, the `Index` of `serde_json`: `null` where there is nothing. -/
def Json.at (value : Json) (key : String) : Json := (value.get key).getD .null

/-- `value[key] = v`, the `IndexMut` of `serde_json`: an object gains or
replaces the field, `null` turns into an object first, and anything else
panics, which is `none` here. -/
def Json.insert (value : Json) (key : String) (v : Json) : Option Json :=
  match value with
  | .obj fields =>
      if fields.any fun f => f.1 = key then
        some (.obj (fields.map fun f => if f.1 = key then (key, v) else f))
      else some (.obj (fields ++ [(key, v)]))
  | .null => some (.obj [(key, v)])
  | _ => none

/-- `obj.insert(key, v)` behind an `as_object_mut`: only an object changes, and
only when there is a key. -/
def Json.insertIfObject (value : Json) (key : Option String) (v : Json) : Json :=
  match key with
  | some key =>
      match value with
      | .obj _ => (value.insert key v).getD value
      | _ => value
  | none => value

/-- The bytes `serde_json` writes for one character of a string. -/
def escapedLength (c : Char) : Nat :=
  if c = '"' ∨ c = '\\' then 2
  else if c = '\n' ∨ c = '\r' ∨ c = '\t' ∨ c.toNat = 8 ∨ c.toNat = 12 then 2
  else if c.toNat < 32 then 6
  else c.utf8Size

def quotedLength (s : String) : Nat := 2 + (s.toList.map escapedLength).sum

mutual

/-- The length of `serde_json::to_string`: no spaces, one comma between two
neighbours, one colon after a key. -/
def Json.renderedLength : Json → Nat
  | .null => 4
  | .bool b => if b then 4 else 5
  | .num text => text.utf8ByteSize
  | .str s => quotedLength s
  | .arr elems => 2 + Json.elemsLength elems
  | .obj fields => 2 + Json.fieldsLength fields

def Json.elemsLength : List Json → Nat
  | [] => 0
  | [x] => x.renderedLength
  | x :: y :: rest => x.renderedLength + 1 + Json.elemsLength (y :: rest)

def Json.fieldsLength : List (String × Json) → Nat
  | [] => 0
  | [(k, x)] => quotedLength k + 1 + x.renderedLength
  | (k, x) :: y :: rest =>
      quotedLength k + 1 + x.renderedLength + 1 + Json.fieldsLength (y :: rest)

end

/-- What `serde_json` writes for one character of a string. -/
def escaped (c : Char) : List Char :=
  let n := c.toNat
  if n < 32 then
    if c = '\n' then ['\\', 'n']
    else if c = '\r' then ['\\', 'r']
    else if c = '\t' then ['\\', 't']
    else if n = 8 then ['\\', 'b']
    else if n = 12 then ['\\', 'f']
    else ['\\', 'u', '0', '0', Nat.digitChar (n / 16), Nat.digitChar (n % 16)]
  else if c = '"' ∨ c = '\\' then ['\\', c]
  else [c]

def quoted (s : String) : List Char := '"' :: s.toList.flatMap escaped ++ ['"']

mutual

/-- `serde_json::to_string`. -/
def Json.render : Json → List Char
  | .null => "null".toList
  | .bool b => if b then "true".toList else "false".toList
  | .num text => text.toList
  | .str s => quoted s
  | .arr elems => '[' :: Json.renderElems elems ++ [']']
  | .obj fields => '\x7b' :: Json.renderFields fields ++ ['\x7d']

def Json.renderElems : List Json → List Char
  | [] => []
  | [x] => x.render
  | x :: y :: rest => x.render ++ ',' :: Json.renderElems (y :: rest)

def Json.renderFields : List (String × Json) → List Char
  | [] => []
  | [(k, x)] => quoted k ++ ':' :: x.render
  | (k, x) :: y :: rest => quoted k ++ ':' :: x.render ++ ',' :: Json.renderFields (y :: rest)

end

/-! ## Text -/

/-- `char::to_lowercase`, exact on every character with an ASCII letter in its
lower case: ASCII itself, the Kelvin sign and the dotted capital I. -/
def lowerChar (c : Char) : List Char :=
  if c = '\u212a' then ['k'] else if c = '\u0130' then ['i', '\u0307'] else [c.toLower]

def toLowercase (s : String) : List Char := s.toList.flatMap lowerChar

/-- `str::contains`, of a text already taken apart. -/
def contains (text : List Char) (pattern : String) : Bool :=
  text.tails.any fun t => pattern.toList.isPrefixOf t

/-- `char::is_whitespace`. -/
def isWhitespace (c : Char) : Bool :=
  let n := c.toNat
  decide (9 ≤ n ∧ n ≤ 13) || [0x20, 0x85, 0xa0, 0x1680, 0x2028, 0x2029, 0x202f, 0x205f, 0x3000].contains n
    || decide (0x2000 ≤ n ∧ n ≤ 0x200a)

def trimEnd (s : List Char) : List Char := (s.reverse.dropWhile isWhitespace).reverse

/-- `str::trim`. -/
def trim (s : List Char) : List Char := trimEnd (s.dropWhile isWhitespace)

/-! ## Messages -/

abbrev SystemTime := Nat

structure ToolCall where
  id : String
  name : String
  arguments : Json
  thoughtSignature : Option String
deriving DecidableEq, Inhabited

inductive Content where
  | text (text : String) (textSignature : Option String)
  | image (data mimeType : String)
  | video (data mimeType : String)
  | audio (data mimeType : String)
  | thinking (thinking : String) (thinkingSignature : Option String) (redacted : Bool)
  | toolCall (tc : ToolCall)
deriving DecidableEq, Inhabited

structure UserMessage where
  content : List Content
  timestamp : SystemTime
deriving DecidableEq, Inhabited

structure Api where
  provider : String
  model : String
deriving DecidableEq, Inhabited

structure Usage where
  inputTokens : Nat
  outputTokens : Nat
  cacheCreationInputTokens : Option Nat
  cacheReadInputTokens : Option Nat
  totalTokens : Nat
deriving DecidableEq, Inhabited

def Usage.zero : Usage := ⟨0, 0, none, none, 0⟩

def Usage.computeTotal (u : Usage) : Nat :=
  u.inputTokens + u.outputTokens + u.cacheCreationInputTokens.getD 0 +
    u.cacheReadInputTokens.getD 0

inductive StopReason where
  | stop
  | length
  | toolUse
  | error
  | aborted
deriving DecidableEq, Inhabited

/-- The `Debug` form, which an error without a text of its own prints. -/
def StopReason.debug : StopReason → String
  | .stop => "Stop"
  | .length => "Length"
  | .toolUse => "ToolUse"
  | .error => "Error"
  | .aborted => "Aborted"

structure AssistantMessage where
  content : List Content
  provider : String
  api : Api
  model : String
  usage : Usage
  stopReason : StopReason
  responseId : Option String
  errorMessage : Option String
  timestamp : SystemTime
deriving DecidableEq, Inhabited

/-- The `ToolCall` blocks of a message, in order. -/
def AssistantMessage.toolCalls (m : AssistantMessage) : List ToolCall :=
  m.content.filterMap fun
    | .toolCall tc => some tc
    | _ => none

structure ToolResultMessage where
  toolCallId : String
  toolName : String
  content : List Content
  details : Option Json
  isError : Bool
  timestamp : SystemTime
deriving DecidableEq, Inhabited

inductive Message where
  | user (m : UserMessage)
  | assistant (m : AssistantMessage)
  | toolResult (m : ToolResultMessage)
deriving DecidableEq, Inhabited

/-! ## Provider errors and stream events -/

inductive StreamErrorKind where
  | network
  | protocol
  | parse
deriving DecidableEq

def StreamErrorKind.debug : StreamErrorKind → String
  | .network => "Network"
  | .protocol => "Protocol"
  | .parse => "Parse"

/-- `LlmError`. A timeout carries the `Debug` form of its duration, the only
part of it that is ever read. -/
inductive LlmError where
  | rateLimited (m : String)
  | overloaded (m : String)
  | invalidRequest (m : String)
  | providerError (m : String)
  | timeout (after : String)
  | authError (m : String)
  | contextOverflow (m : String)
  | cancelled
  | serialization (m : String)
  | unknownProvider (m : String)
  | streamError (kind : StreamErrorKind) (message : String)
deriving DecidableEq

def LlmError.isRetryable : LlmError → Bool
  | .rateLimited _ | .overloaded _ | .timeout _ | .streamError .network _ => true
  | _ => false

/-- The `Display` form. -/
def LlmError.toString : LlmError → String
  | .rateLimited m => "rate limited: " ++ m
  | .overloaded m => "provider overloaded: " ++ m
  | .invalidRequest m => "invalid request: " ++ m
  | .providerError m => "provider error: " ++ m
  | .timeout d => "request timed out after " ++ d
  | .authError m => "authentication failed: " ++ m
  | .contextOverflow m => "context overflow: " ++ m
  | .cancelled => "cancelled"
  | .serialization m => "serialization error: " ++ m
  | .unknownProvider m => "unknown provider: " ++ m
  | .streamError k m => "stream error (" ++ k.debug ++ "): " ++ m

/-- `AssistantMessageEvent`, without the `partial` clones no consumer reads. -/
inductive AssistantMessageEvent where
  | start
  | textStart (contentIndex : Nat)
  | textDelta (contentIndex : Nat) (delta : String)
  | textEnd (contentIndex : Nat) (text : String)
  | thinkingStart (contentIndex : Nat)
  | thinkingDelta (contentIndex : Nat) (delta : String)
  | thinkingEnd (contentIndex : Nat) (thinking : String)
  | toolCallStart (contentIndex : Nat)
  | toolCallDelta (contentIndex : Nat) (delta : String)
  | toolCallEnd (contentIndex : Nat) (toolCall : ToolCall)
  | done (reason : StopReason) (message : AssistantMessage)
  | error (error : AssistantMessage)
deriving DecidableEq

end Pandaria.Ai
