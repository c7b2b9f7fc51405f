import Pandaria.Ai.Overflow
import Pandaria.Lib.Retry

/-!
# Sending a request

`RequestBuilder` of `ai-provider/src/protocol/request.rs`, which posts the body of
a provider and tries again when that may help. What the network makes of an
attempt comes from outside, and so does what a hook makes of a payload, which may
be something else each time.

Delays are in milliseconds. The model that the hooks are given with each call is
the same throughout and left out, as is the client's list of header maps, which
are lists here in whatever order the maps are in.
-/

namespace Pandaria.Ai

open Pandaria.Lib

/-- What comes of a `send` of the HTTP client. -/
inductive Transport where
  /-- A response, with its text or the error of reading it. -/
  | response (status : UInt16) (headers : List (String × String)) (text : Except String String)
  | timeout
  /-- `is_connect` or `is_request`. -/
  | connect (e : String)
  | other (e : String)

structure ProviderResponse where
  status : UInt16
  headers : List (String × String)
deriving DecidableEq

structure SendOptions where
  timeout : String
  maxRetries : UInt32
  maxRetryDelayMs : UInt64
  headers : Option (List (String × String))
  /-- By the number of the attempt. -/
  onPayload : Option (Nat → Json → Json)
  onResponse : Bool

structure RequestBuilder where
  url : String
  body : Json
  headers : List (String × String)
  options : SendOptions

/-- What an attempt does: what it posts where, what the response hook is told, and
how it ends. `none` is a panic. -/
structure Attempt where
  url : String
  headers : List (String × String)
  posted : Json
  told : Option ProviderResponse
  result : Option (Except LlmError ProviderResponse)

def classifyHttpError (status : UInt16) (message : String) : LlmError :=
  if status = 429 then .rateLimited message
  else if 502 ≤ status ∧ status ≤ 504 then .overloaded message
  else if status = 401 ∨ status = 403 then .authError message
  else if status = 400 ∨ status = 422 then .invalidRequest message
  else .providerError message

/-- The status check. -/
def checkStatus (canonicalReason : UInt16 → Option String) (serde : Serde) (status : UInt16)
    (headers : List (String × String)) (text : Except String String) :
    Option (Except LlmError ProviderResponse) :=
  if 200 ≤ status ∧ status < 300 then some (.ok ⟨status, headers⟩)
  else
    match text with
    | .error e => some (.error (.providerError ("failed to read response body: " ++ e)))
    | .ok text =>
        (sanitizeHttpErrorBody canonicalReason serde status text).map fun msg =>
          .error (classifyHttpError status msg)

namespace RequestBuilder

variable (canonicalReason : UInt16 → Option String) (serde : Serde)

/-- The response hook is called for every response, also for one that is followed
by another attempt. -/
def trySendOnce (b : RequestBuilder) (attempt : Nat) (transport : Transport) : Attempt :=
  { url := b.url
    headers := [("content-type", "application/json")] ++ b.headers ++ b.options.headers.getD []
    posted := (b.options.onPayload.map fun hook => hook attempt b.body).getD b.body
    told :=
      match transport with
      | .response status headers _ =>
          if b.options.onResponse then some ⟨status, headers⟩ else none
      | .timeout | .connect _ | .other _ => none
    result :=
      match transport with
      | .timeout => some (.error (.timeout b.options.timeout))
      | .connect e => some (.error (.streamError .network ("HTTP request failed: " ++ e)))
      | .other e => some (.error (.providerError ("HTTP error: " ++ e)))
      | .response status headers text => checkStatus canonicalReason serde status headers text }

def retryDelay (attempt : Nat) (maxDelay : UInt64) : Nat :=
  min (1000 * min (2 ^ attempt) (2 ^ 32 - 1)) maxDelay.toNat

/-- `e.is_retryable()` of an attempt that has failed. -/
def fails (a : Attempt) : Bool :=
  match a.result with
  | some (.error e) => e.isRetryable
  | some (.ok _) | none => false

/-- The attempts that are followed by another, each with the delay, and the last
one, whose result is returned. -/
def send (b : RequestBuilder) (network : Nat → Transport) : List (Attempt × Nat) × Attempt :=
  attempts fails (fun n => retryDelay n b.options.maxRetryDelayMs)
    (fun n => b.trySendOnce canonicalReason serde n (network n)) b.options.maxRetries.toNat 0

/-! ## How a request ends -/

/-- The network may do better another time. -/
def Transient : Transport → Prop
  | .response status _ (.ok text) =>
      (status = 429 ∨ status = 502 ∨ status = 503 ∨ status = 504) ∧
        (sanitizeHttpErrorBody canonicalReason serde status text).isSome = true
  | .response _ _ (.error _) | .other _ => False
  | .timeout | .connect _ => True

variable {canonicalReason serde}

theorem toNat_status (status : UInt16) :
    (status = 429 ∨ status = 502 ∨ status = 503 ∨ status = 504) ↔
      (status.toNat = 429 ∨ status.toNat = 502 ∨ status.toNat = 503 ∨ status.toNat = 504) := by
  simp only [← UInt16.toNat_inj]
  rfl

theorem isRetryable_classifyHttpError_iff (status : UInt16) (message : String) :
    (classifyHttpError status message).isRetryable = true ↔
      status = 429 ∨ status = 502 ∨ status = 503 ∨ status = 504 := by
  have hrange : (502 ≤ status ∧ status ≤ 504) ↔ (status = 502 ∨ status = 503 ∨ status = 504) := by
    simp only [UInt16.le_iff_toNat_le, ← UInt16.toNat_inj]
    show 502 ≤ status.toNat ∧ status.toNat ≤ 504 ↔
      status.toNat = 502 ∨ status.toNat = 503 ∨ status.toNat = 504
    omega
  rw [classifyHttpError]
  split_ifs with h429 h50x hauth hinvalid
  · simp [LlmError.isRetryable, h429]
  · simp [LlmError.isRetryable, hrange.mp h50x]
  · simp [LlmError.isRetryable, h429, ← hrange, h50x]
  · simp [LlmError.isRetryable, h429, ← hrange, h50x]
  · simp [LlmError.isRetryable, h429, ← hrange, h50x]

theorem not_retried_of_success {status : UInt16} (h : 200 ≤ status ∧ status < 300) :
    ¬ (status = 429 ∨ status = 502 ∨ status = 503 ∨ status = 504) := by
  rw [toNat_status]
  have h : 200 ≤ status.toNat ∧ status.toNat < 300 := h
  omega

theorem fails_trySendOnce_iff (b : RequestBuilder) (attempt : Nat) (transport : Transport) :
    fails (b.trySendOnce canonicalReason serde attempt transport) = true ↔
      Transient canonicalReason serde transport := by
  cases transport with
  | timeout | connect => exact iff_of_true rfl trivial
  | other e => simp [fails, trySendOnce, LlmError.isRetryable, Transient]
  | response status headers text =>
      simp only [fails, trySendOnce, checkStatus]
      split_ifs with hsuccess
      · cases text with
        | error e => simp [Transient]
        | ok text => simp [Transient, not_retried_of_success hsuccess]
      · cases text with
        | error e => simp [Transient, LlmError.isRetryable]
        | ok text =>
            cases hmsg : sanitizeHttpErrorBody canonicalReason serde status text with
            | none => simp [Transient, hmsg]
            | some msg =>
                simp [Transient, hmsg, isRetryable_classifyHttpError_iff]

/-- A request is over with the first attempt whose failure is not transient, or
with the last that is allowed. Every attempt posts what the hook makes of the body
the request was built with, and the wait after attempt `j` is `2 ^ j` seconds, or
the longest there is. -/
theorem send_eq (b : RequestBuilder) (network : Nat → Transport) :
    ∃ k ≤ b.options.maxRetries.toNat,
      (∀ j < k, Transient canonicalReason serde (network j)) ∧
      (k = b.options.maxRetries.toNat ∨ ¬ Transient canonicalReason serde (network k)) ∧
      b.send canonicalReason serde network =
        ((List.range k).map fun j =>
          (b.trySendOnce canonicalReason serde j (network j),
            retryDelay j b.options.maxRetryDelayMs),
        b.trySendOnce canonicalReason serde k (network k)) := by
  obtain ⟨k, hends, heq⟩ := attempts_eq fails
    (fun n => retryDelay n b.options.maxRetryDelayMs)
    (fun n => b.trySendOnce canonicalReason serde n (network n)) b.options.maxRetries.toNat
  refine ⟨k, hends.le, ?_, ?_, heq⟩
  · intro j hj
    exact (fails_trySendOnce_iff b j (network j)).mp (hends.before j hj)
  · rcases hends.stop with hlast | hstop
    · exact .inl hlast
    · right
      intro htransient
      rw [(fails_trySendOnce_iff b k (network k)).mpr htransient] at hstop
      cases hstop

end RequestBuilder

end Pandaria.Ai
