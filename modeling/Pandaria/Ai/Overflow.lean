import Pandaria.Ai.Sse
import Pandaria.Ai.Types
import Pandaria.Lib.ByteText
import Pandaria.Lib.Search

/-!
# What a provider says when a request is too long

`ai-provider/src/overflow.rs`: the patterns in its order, and
`is_context_overflow`. The patterns are matched as they stand, upper and lower
case apart. `digit` is the class `\d`, which grows with every version of the
Unicode tables of the `regex` crate.
-/

namespace Pandaria.Ai.Overflow

open Lib Lib.Matcher

/-! ## Patterns -/

def text (s : String) : Matcher Char := word s.toList

/-- `.`: any letter but the end of a line. -/
def dot (c : Char) : Bool := decide (c ≠ '\n')

/-- `\d+`. -/
def number (digit : Char → Bool) : Matcher Char := seq (one digit) (many digit)

def overflowPatterns (digit : Char → Bool) : List (Matcher Char) :=
  [text "prompt is too long",
    text "request_too_large",
    text "input is too long for requested model",
    text "exceeds the context window",
    seq (text "input token count") (seq (many dot) (text "exceeds the maximum")),
    seq (text "maximum prompt length is ") (number digit),
    text "reduce the length of the messages",
    seq (text "maximum context length is ") (seq (number digit) (text " tokens")),
    seq (text "exceeds the limit of ") (number digit),
    text "exceeds the available context size",
    text "greater than the context length",
    text "context window exceeds limit",
    text "exceeded model token limit",
    seq (text "too large for model with ") (number digit),
    text "model_context_window_exceeded",
    seq (text "prompt too long") (seq (many dot) (text "context length")),
    seq (text "4") (seq (alt (text "00") (text "13")) (seq (many isWhitespace)
      (seq (opt (text "status code")) (seq (many isWhitespace) (text "(no body)"))))),
    seq (text "context") (seq (one fun c => c = '_' || c = ' ') (seq (text "length")
      (seq (one fun c => c = '_' || c = ' ') (text "exceeded")))),
    alt (text "too many tokens") (text "token limit exceeded")]

/-- The first of `NON_OVERFLOW_PATTERNS` is for the front of the message. -/
def isNonOverflow (msg : List Char) : Bool :=
  (seq (alt (text "Throttling error") (text "Service unavailable")) (text ":")).front msg ||
    (text "rate limit").search msg || (text "too many requests").search msg

/-! ## `is_context_overflow` -/

def matchesOverflow (digit : Char → Bool) (msg : String) : Bool :=
  !isNonOverflow msg.toList && (overflowPatterns digit).any fun re => re.search msg.toList

def isContextOverflow (digit : Char → Bool) (errorMessage : Option String)
    (stopReason : StopReason) (contextWindow : Option Nat) (inputTokens cacheReadTokens : Nat) :
    Bool :=
  (decide (stopReason = .error) && errorMessage.any (matchesOverflow digit)) ||
    (decide (stopReason = .stop) && contextWindow.any fun cw => cw < inputTokens + cacheReadTokens)

end Pandaria.Ai.Overflow

/-!
## Errors of a provider's HTTP interface

`ai-provider/src/http_error.rs`: what is told of the body of a response that is
no success. It is the message the body has in a place where providers put one,
cut to 256 bytes; a body without one is not shown at all. The reason that goes
with a status is the table of the `http` crate, a parameter here.
-/

namespace Pandaria.Ai

open Pandaria.Lib

variable (canonicalReason : UInt16 → Option String) (serde : Serde)

def formatHttpStatus (status : UInt16) : String :=
  match canonicalReason status with
  | some reason => "HTTP " ++ toString status.toNat ++ " " ++ reason
  | none => "HTTP " ++ toString status.toNat

/-- `sanitize_message`; `none` is the panic of a cut inside a character. -/
def sanitizeMessage (msg : String) : Option String :=
  ByteText.excerpt 256 "..." (trim msg.toList)

mutual

/-- The `message` of an object, or else of the first object in it that has one. -/
def findMessageField : Json → Option String
  | .obj map =>
      match ((Json.obj map).get "message").bind Json.asStr with
      | some msg => some msg
      | none => findInValues map
  | _ => none

def findInValues : List (String × Json) → Option String
  | [] => none
  | (_, v) :: rest =>
      match findMessageField v with
      | some msg => some msg
      | none => findInValues rest

end

def sanitizeHttpErrorBody (status : UInt16) (body : String) : Option String :=
  let trimmed := trim body.toList
  if trimmed.head? = some '<' || trimmed.isEmpty then
    some (formatHttpStatus canonicalReason status)
  else
    match serde.fromStr (String.ofList trimmed) with
    | .ok json =>
        match ((json.get "error").bind (Json.get "message")).bind Json.asStr with
        | some msg => sanitizeMessage msg
        | none =>
            match findMessageField json with
            | some msg => sanitizeMessage msg
            | none => some (formatHttpStatus canonicalReason status)
    | .error _ => some (formatHttpStatus canonicalReason status)

end Pandaria.Ai
