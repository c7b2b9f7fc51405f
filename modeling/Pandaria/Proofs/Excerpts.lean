import Mathlib.Data.List.DropRight
import Mathlib.Data.List.Forall2
import Pandaria.Agent.Memory
import Pandaria.Ai.Overflow
import Pandaria.Gateway.Subprocess

/-!
# Excerpts of texts from outside

Four places show the beginning of a text that comes from somewhere else: the
data of an event that is no JSON, the message of a provider's error, what a tool
returned, and what a subprocess wrote to its standard error. All of them cut it
after a fixed number of bytes. What they keep is a beginning of the text, within
the bound; but there has to be a place to cut it at.
-/

namespace Pandaria.Ai

open Pandaria.Lib.ByteText

theorem takeBytes_eq (s : List Char) (n : Nat) : takeBytes s n = sliceTo s n := by
  induction s generalizing n with
  | nil =>
      cases n with
      | zero => rfl
      | succ n => rfl
  | cons c s ih =>
      cases n with
      | zero => rfl
      | succ n => rw [takeBytes, sliceTo, ih]

/-! ## Data that is no JSON -/

/-- The preview of the data is an excerpt of it. -/
def SseEvent.PreviewKept (serde : Serde) (e : SseEvent) : Prop :=
  ∃ r, e.json serde = some r ∧ ∀ err, serde.fromStr e.data = .error err →
    ∃ quoted, IsExcerpt 256 "" e.data.toList quoted ∧
      r = .error (.streamError .parse ("SSE JSON parse error: " ++ err ++ "; data=" ++ quoted))

theorem quoted_eq (data : String) :
    (takeBytes data.toList (min data.utf8ByteSize 256)).map String.ofList =
      excerpt 256 "" data.toList := by
  rw [takeBytes_eq, utf8ByteSize_eq, excerpt]
  split
  · next hle =>
      have hall := sliceTo_append data.toList []
      rw [List.append_nil] at hall
      rw [Nat.min_eq_left hle, hall]
      rfl
  · next hgt =>
      rw [Nat.min_eq_right (by omega)]
      simp

theorem SseEvent.json_eq (serde : Serde) (e : SseEvent) :
    e.json serde =
      match serde.fromStr e.data with
      | .ok v => some (.ok v)
      | .error err => (excerpt 256 "" e.data.toList).map fun quoted =>
          .error (.streamError .parse
            ("SSE JSON parse error: " ++ err ++ "; data=" ++ quoted)) := by
  rw [SseEvent.json, ← quoted_eq]
  cases serde.fromStr e.data with
  | ok v => rfl
  | error err =>
      dsimp only
      rw [Option.map_map]
      rfl

theorem SseEvent.previewKept_iff (serde : Serde) (e : SseEvent) :
    e.PreviewKept serde ↔ (∃ v, serde.fromStr e.data = .ok v) ∨ Fits 256 e.data.toList := by
  rw [PreviewKept, json_eq]
  cases hparse : serde.fromStr e.data with
  | ok v =>
      refine iff_of_true ⟨_, rfl, fun err herr => ?_⟩ (.inl ⟨v, rfl⟩)
      cases herr
  | error err =>
      have hno : ¬ ∃ v, (Except.error err : Except String Json) = .ok v := by simp
      rw [or_iff_right hno, ← exists_excerpt_iff]
      constructor
      · rintro ⟨r, hr, -⟩
        obtain ⟨quoted, hquoted, -⟩ := Option.map_eq_some_iff.mp hr
        exact ⟨quoted, hquoted⟩
      · rintro ⟨quoted, hquoted⟩
        refine ⟨_, congrArg (Option.map _) hquoted, fun err' herr => ?_⟩
        injection herr with herr
        subst herr
        exact ⟨quoted, isExcerpt_of_excerpt hquoted, rfl⟩

/-! ## The error of a provider -/

/-- The message a body has for those who asked. -/
def errorMessage (serde : Serde) (body : String) : Option String :=
  let trimmed := trim body.toList
  if trimmed.head? = some '<' || trimmed.isEmpty then none
  else
    match serde.fromStr (String.ofList trimmed) with
    | .ok json =>
        (((json.get "error").bind (Json.get "message")).bind Json.asStr).or (findMessageField json)
    | .error _ => none

/-- What is shown of the body is an excerpt of its message, or the status. -/
def MessageKept (canonicalReason : UInt16 → Option String) (serde : Serde) (status : UInt16)
    (body : String) : Prop :=
  ∃ r, sanitizeHttpErrorBody canonicalReason serde status body = some r ∧
    (∀ msg, errorMessage serde body = some msg → IsExcerpt 256 "..." (trim msg.toList) r) ∧
    (errorMessage serde body = none → r = formatHttpStatus canonicalReason status)

theorem sanitizeHttpErrorBody_eq (canonicalReason : UInt16 → Option String) (serde : Serde)
    (status : UInt16) (body : String) :
    sanitizeHttpErrorBody canonicalReason serde status body =
      match errorMessage serde body with
      | some msg => sanitizeMessage msg
      | none => some (formatHttpStatus canonicalReason status) := by
  simp only [sanitizeHttpErrorBody, errorMessage]
  split
  · rfl
  · cases serde.fromStr (String.ofList (trim body.toList)) with
    | error e => rfl
    | ok json =>
        dsimp only
        cases ((json.get "error").bind (Json.get "message")).bind Json.asStr with
        | some msg => rfl
        | none => rfl

theorem messageKept_iff (canonicalReason : UInt16 → Option String) (serde : Serde)
    (status : UInt16) (body : String) :
    MessageKept canonicalReason serde status body ↔
      ∀ msg, errorMessage serde body = some msg → Fits 256 (trim msg.toList) := by
  rw [MessageKept, sanitizeHttpErrorBody_eq]
  cases errorMessage serde body with
  | none =>
      refine iff_of_true ⟨_, rfl, fun msg h => ?_, fun _ => rfl⟩ fun msg h => ?_
      · cases h
      · cases h
  | some msg =>
      constructor
      · rintro ⟨r, hr, -⟩ msg' hmsg
        injection hmsg with hmsg
        subst hmsg
        exact exists_excerpt_iff.mp ⟨r, hr⟩
      · intro h
        obtain ⟨r, hr⟩ := exists_excerpt_iff.mpr (h msg rfl)
        refine ⟨r, hr, fun msg' hmsg => ?_, fun hnone => ?_⟩
        · injection hmsg with hmsg
          subst hmsg
          exact isExcerpt_of_excerpt hr
        · cases hnone

end Pandaria.Ai

namespace Pandaria.Agent

open Pandaria.Ai Pandaria.Lib.ByteText

/-! ## What a tool returned -/

def truncatedNote (text : String) : String :=
  "...(截断, 共 " ++ toString text.utf8ByteSize ++ " 字符)"

/-- What a message adds has an excerpt of the result, if it is a result. -/
def SummaryKept (msg : AgentMessage) (part : String) : Prop :=
  ∀ tr, msg = .toolResult tr → ∃ summary, part = formatResult tr summary ∧
    IsExcerpt 500 (truncatedNote (collectText tr.content)) (collectText tr.content).toList summary

/-- The turn is formatted, part by part. -/
def TurnKept (turnIndex : Nat) (messages : List AgentMessage) : Prop :=
  ∃ parts, List.Forall₂ SummaryKept messages parts ∧
    formatTurnContent turnIndex messages =
      some (parts.foldl (· ++ ·) ("## Turn " ++ toString turnIndex ++ "\n\n"))

/-- The text of a result, if the message is one, can be cut. -/
def MessageFits (msg : AgentMessage) : Prop :=
  ∀ tr, msg = .toolResult tr → Fits 500 (collectText tr.content).toList

theorem formatMessage_kept {msg : AgentMessage} {part : String}
    (h : formatMessage msg = some part) : SummaryKept msg part := by
  rintro tr rfl
  obtain ⟨summary, hsummary, rfl⟩ := Option.map_eq_some_iff.mp h
  exact ⟨summary, rfl, isExcerpt_of_excerpt hsummary⟩

theorem exists_formatMessage_iff {msg : AgentMessage} :
    (∃ part, formatMessage msg = some part) ↔ MessageFits msg := by
  cases msg with
  | user u =>
      refine iff_of_true ⟨_, rfl⟩ fun tr htr => ?_
      cases htr
  | assistant a =>
      refine iff_of_true ⟨_, rfl⟩ fun tr htr => ?_
      cases htr
  | toolResult tr =>
      constructor
      · rintro ⟨part, hpart⟩ tr' htr
        injection htr with htr
        subst htr
        obtain ⟨summary, hsummary, -⟩ := Option.map_eq_some_iff.mp hpart
        exact exists_excerpt_iff.mp ⟨summary, hsummary⟩
      · intro h
        obtain ⟨summary, hsummary⟩ := exists_excerpt_iff.mpr (h tr rfl)
        exact ⟨_, congrArg (Option.map (formatResult tr)) hsummary⟩

/-- The turn is the parts of its messages, one after the other. -/
theorem foldlM_formatMessage {messages : List AgentMessage} {start out : String} :
    messages.foldlM (fun out msg => (formatMessage msg).map (out ++ ·)) start = some out ↔
      ∃ parts, List.Forall₂ (fun msg part => formatMessage msg = some part) messages parts ∧
        out = parts.foldl (· ++ ·) start := by
  induction messages generalizing start with
  | nil =>
      constructor
      · intro h
        injection h with h
        exact ⟨[], .nil, h.symm⟩
      · rintro ⟨parts, hparts, rfl⟩
        cases hparts
        rfl
  | cons msg messages ih =>
      rw [List.foldlM_cons]
      constructor
      · intro h
        obtain ⟨next, hnext, hrest⟩ := Option.bind_eq_some_iff.mp h
        obtain ⟨part, hpart, rfl⟩ := Option.map_eq_some_iff.mp hnext
        obtain ⟨parts, hparts, rfl⟩ := ih.mp hrest
        exact ⟨part :: parts, .cons hpart hparts, rfl⟩
      · rintro ⟨parts, hparts, rfl⟩
        cases hparts with
        | @cons _ part _ parts hpart hparts =>
            rw [hpart]
            exact ih.mpr ⟨parts, hparts, rfl⟩

theorem turnKept_iff (turnIndex : Nat) (messages : List AgentMessage) :
    TurnKept turnIndex messages ↔ ∀ msg ∈ messages, MessageFits msg := by
  constructor
  · rintro ⟨parts, -, hformat⟩ msg hmsg
    obtain ⟨parts', hparts, -⟩ := foldlM_formatMessage.mp hformat
    clear hformat
    induction hparts with
    | nil => cases hmsg
    | @cons m part _ _ hpart _ ih =>
        obtain rfl | hmsg := List.mem_cons.mp hmsg
        · exact exists_formatMessage_iff.mp ⟨part, hpart⟩
        · exact ih hmsg
  · intro h
    obtain ⟨parts, hparts⟩ : ∃ parts,
        List.Forall₂ (fun msg part => formatMessage msg = some part) messages parts := by
      induction messages with
      | nil => exact ⟨[], .nil⟩
      | cons msg messages ih =>
          obtain ⟨part, hpart⟩ := exists_formatMessage_iff.mpr (h msg List.mem_cons_self)
          obtain ⟨parts, hparts⟩ := ih fun m hm => h m (List.mem_cons_of_mem _ hm)
          exact ⟨part :: parts, .cons hpart hparts⟩
    exact ⟨parts, hparts.imp fun _ _ => formatMessage_kept,
      foldlM_formatMessage.mpr ⟨parts, hparts, rfl⟩⟩

end Pandaria.Agent

namespace Pandaria.Gateway

open Pandaria.Ai Pandaria.Lib.ByteText

/-! ## What a subprocess complains of -/

/-- The process of the call ends in time without success, having written
`stderr`, and no more to its standard output than is taken. -/
def Fails (spawn : Spawn) (h : SubprocessHandler) (params : Json)
    (tenantId sessionId toolCallId : String) (status : ExitStatus) (stderr : List UInt8) : Prop :=
  ∃ child, h.parseCommand.1.isEmpty = false ∧
    spawn h h.parseCommand.1 h.parseCommand.2
      (String.ofList (SubprocessHandler.request params tenantId sessionId toolCallId).render) =
        .ok child ∧
    child.stdin = .ok () ∧ child.exit = some (.ok status) ∧ status.success = false ∧
    child.stdout.length ≤ maxStdoutBytes ∧ child.stderr = stderr

/-- The model is shown an excerpt of it. -/
def StderrKept (spawn : Spawn) (serde : Serde) (fromValue : Json → Except String ToolResult)
    (h : SubprocessHandler) (params : Json) (tenantId sessionId toolCallId : String) : Prop :=
  ∃ r, h.execute spawn serde fromValue params tenantId sessionId toolCallId = some r ∧
    ∀ status stderr, Fails spawn h params tenantId sessionId toolCallId status stderr →
      ∃ shown, IsExcerpt maxStderrChars "...(truncated)" (fromUtf8Lossy stderr) shown ∧
        r = .ok (errorResult ("tool exited with code " ++ toString (status.code.getD (-1)) ++
          ": " ++ shown))

section

variable {spawn : Spawn} {serde : Serde} {fromValue : Json → Except String ToolResult}
variable {h : SubprocessHandler} {params : Json} {tenantId sessionId toolCallId : String}

theorem Fails.unique {status status' : ExitStatus} {stderr stderr' : List UInt8}
    (hf : Fails spawn h params tenantId sessionId toolCallId status stderr)
    (hf' : Fails spawn h params tenantId sessionId toolCallId status' stderr') :
    status = status' ∧ stderr = stderr' := by
  obtain ⟨child, -, hspawn, -, hexit, -, -, rfl⟩ := hf
  obtain ⟨child', -, hspawn', -, hexit', -, -, rfl⟩ := hf'
  rw [hspawn] at hspawn'
  injection hspawn' with hchild
  subst hchild
  rw [hexit] at hexit'
  injection hexit' with hexit'
  injection hexit' with hstatus
  exact ⟨hstatus, rfl⟩

theorem execute_of_fails {status : ExitStatus} {stderr : List UInt8}
    (hf : Fails spawn h params tenantId sessionId toolCallId status stderr) :
    h.execute spawn serde fromValue params tenantId sessionId toolCallId =
      (SubprocessHandler.stderrTruncated stderr).map fun shown =>
        .ok (errorResult ("tool exited with code " ++ toString (status.code.getD (-1)) ++
          ": " ++ shown)) := by
  obtain ⟨child, hprog, hspawn, hstdin, hexit, hsuccess, hstdout, rfl⟩ := hf
  have hlen : ¬ (child.stdout.take (maxStdoutBytes + 1)).length > maxStdoutBytes := by
    rw [List.length_take]
    omega
  simp only [SubprocessHandler.execute, hprog, hspawn, hstdin, hexit, hsuccess, hlen]
  simp

/-- Any other way a call can go comes to a result. -/
theorem execute_of_not_fails
    (hf : ∀ status stderr, ¬ Fails spawn h params tenantId sessionId toolCallId status stderr) :
    ∃ r, h.execute spawn serde fromValue params tenantId sessionId toolCallId = some r := by
  simp only [SubprocessHandler.execute]
  split
  · exact ⟨_, rfl⟩
  · next hprog =>
      split
      · exact ⟨_, rfl⟩
      · next child hspawn =>
          split
          · exact ⟨_, rfl⟩
          · next hstdin =>
              split
              · exact ⟨_, rfl⟩
              · exact ⟨_, rfl⟩
              · next status hexit =>
                  split
                  · exact ⟨_, rfl⟩
                  · next hlen =>
                      split
                      · next hsuccess =>
                          rw [List.length_take] at hlen
                          exact absurd ⟨child, by simpa using hprog, hspawn, hstdin, hexit,
                            by simpa using hsuccess, by omega, rfl⟩ (hf status child.stderr)
                      · split
                        · exact ⟨_, rfl⟩
                        · split
                          · exact ⟨_, rfl⟩
                          · exact ⟨_, rfl⟩

theorem stderrKept_iff :
    StderrKept spawn serde fromValue h params tenantId sessionId toolCallId ↔
      ∀ status stderr, Fails spawn h params tenantId sessionId toolCallId status stderr →
        Fits maxStderrChars (fromUtf8Lossy stderr) := by
  constructor
  · rintro ⟨r, hr, -⟩ status stderr hf
    rw [execute_of_fails hf] at hr
    obtain ⟨shown, hshown, -⟩ := Option.map_eq_some_iff.mp hr
    exact exists_excerpt_iff.mp ⟨shown, hshown⟩
  · intro hfits
    by_cases hsome : ∃ status stderr,
        Fails spawn h params tenantId sessionId toolCallId status stderr
    · obtain ⟨status, stderr, hf⟩ := hsome
      obtain ⟨shown, hshown⟩ := exists_excerpt_iff.mpr (hfits status stderr hf)
      refine ⟨_, (execute_of_fails hf).trans (congrArg (Option.map _) hshown), ?_⟩
      intro status' stderr' hf'
      obtain ⟨rfl, rfl⟩ := hf.unique hf'
      exact ⟨shown, isExcerpt_of_excerpt hshown, rfl⟩
    · simp only [not_exists] at hsome
      obtain ⟨r, hr⟩ := execute_of_not_fails hsome
      exact ⟨r, hr, fun status stderr hf => absurd hf (hsome status stderr)⟩

end

end Pandaria.Gateway

namespace Pandaria.Excerpts

open Pandaria.Ai Pandaria.Agent Pandaria.Gateway Pandaria.Lib.ByteText

/-- An excerpt is shown as long as the text can be cut at the bound, or need not be. -/
theorem excerpts_iff (serde : Serde) :
    (∀ e : SseEvent,
      e.PreviewKept serde ↔ (∃ v, serde.fromStr e.data = .ok v) ∨ Fits 256 e.data.toList) ∧
    (∀ canonicalReason status body,
      MessageKept canonicalReason serde status body ↔
        ∀ msg, errorMessage serde body = some msg → Fits 256 (trim msg.toList)) ∧
    (∀ turnIndex messages,
      TurnKept turnIndex messages ↔
        ∀ tr, .toolResult tr ∈ messages → Fits 500 (collectText tr.content).toList) ∧
    ∀ spawn fromValue h params tenantId sessionId toolCallId,
      StderrKept spawn serde fromValue h params tenantId sessionId toolCallId ↔
        ∀ status stderr, Fails spawn h params tenantId sessionId toolCallId status stderr →
          Fits 4096 (fromUtf8Lossy stderr) := by
  refine ⟨fun e => e.previewKept_iff serde,
    fun canonicalReason => messageKept_iff canonicalReason serde, fun turnIndex messages => ?_,
    fun spawn fromValue h params tenantId sessionId toolCallId => stderrKept_iff⟩
  rw [turnKept_iff]
  constructor
  · intro h tr hmem
    exact h _ hmem tr rfl
  · rintro h msg hmem tr rfl
    exact h tr hmem

/-! ## Characters across the bounds -/

/-- Characters of one byte, and one of more. -/
def straddling (n : Nat) (c : Char) : List Char := List.replicate n 'a' ++ [c]

theorem size_replicate (n : Nat) : size (List.replicate n 'a') = n := by
  induction n with
  | zero => rfl
  | succ n ih =>
      have ha : 'a'.utf8Size = 1 := by decide
      rw [List.replicate_succ, size, ih, ha]
      omega

theorem not_fits_straddling {n : Nat} {c : Char} (hc : 1 < c.utf8Size) :
    ¬ Fits (n + 1) (straddling n c) := by
  have hsize := size_replicate n
  exact not_fits (by omega) (by omega)

theorem fromUtf8Lossy_replicate (n : Nat) :
    fromUtf8Lossy (List.replicate n 97 ++ [0xff]) = straddling n replacementChar := by
  induction n with
  | zero => rfl
  | succ n ih =>
      rw [List.replicate_succ, straddling, List.replicate_succ, List.cons_append, List.cons_append]
      exact congrArg (List.cons 'a') ih

/-- `serde_json`, as far as one text goes. -/
def parsing (text : String) (v : Json) : Serde where
  fromStr s := if s = text then .ok v else .error "expected value"
  fromSlice _ := .error "expected value"

/-- The body of an error whose message goes across the bound. -/
def longBody : String :=
  "\x7b\"message\":\"" ++ String.ofList (straddling 255 'é') ++ "\"\x7d"

def longMessage : Json := .obj [("message", .str (String.ofList (straddling 255 'é')))]

/-- The result of a tool that goes across the bound. -/
def longResult : ToolResultMessage where
  toolCallId := "call_1"
  toolName := "read_file"
  content := [.text (String.ofList (straddling 499 'é')) none]
  details := none
  isError := false
  timestamp := 0

/-- A process that fails after as many bytes as are shown, the last of them not UTF-8. -/
def failing : Spawn := fun _ _ _ _ =>
  .ok { stdin := .ok (), exit := some (.ok ⟨some 1⟩), stdout := []
        stderr := List.replicate 4095 97 ++ [0xff] }

def tool : SubprocessHandler := { command := "tool", timeoutMs := 5000, cwd := none, env := none }

/-- A text between two characters that are not trimmed. -/
theorem trim_between {c d : Char} (hc : isWhitespace c = false) (hd : isWhitespace d = false)
    (s : List Char) : trim (c :: (s ++ [d])) = c :: (s ++ [d]) := by
  have hlast : isWhitespace d = true → False := by simp [hd]
  rw [trim, List.dropWhile_cons_of_neg (by simp [hc]), ← List.cons_append]
  exact List.rdropWhile_concat_neg _ _ _ hlast

theorem trim_straddling {n : Nat} {c : Char} (hc : isWhitespace c = false) :
    trim (straddling (n + 1) c) = straddling (n + 1) c :=
  trim_between (by decide) hc (List.replicate n 'a')

theorem toList_longBody :
    longBody.toList =
      '\x7b' :: ("\"message\":\"".toList ++ straddling 255 'é' ++ ['"'] ++ ['\x7d']) := by
  rw [longBody, String.toList_append, String.toList_append, String.toList_ofList]
  simp

theorem errorMessage_longBody :
    errorMessage (parsing longBody longMessage) longBody =
      some (String.ofList (straddling 255 'é')) := by
  have htrim : trim longBody.toList = longBody.toList := by
    rw [toList_longBody]
    exact trim_between (by decide) (by decide) _
  have hhead : longBody.toList.head? = some '\x7b' := by rw [toList_longBody]; rfl
  have hne : longBody.toList.isEmpty = false := by rw [toList_longBody]; rfl
  rw [errorMessage, htrim, hhead, hne, String.ofList_toList, parsing]
  simp [longMessage, Json.get, Json.asStr, findMessageField]

/-- Each of the four ends in a panic on a text like that. -/
theorem not_excerpts :
    ¬ SseEvent.PreviewKept (parsing longBody longMessage)
        { event := none, data := String.ofList (straddling 255 'é'), id := none } ∧
    ¬ MessageKept (fun _ => none) (parsing longBody longMessage) 500 longBody ∧
    ¬ TurnKept 0 [.toolResult longResult] ∧
    ¬ StderrKept failing (parsing longBody longMessage) (fun _ => .error "missing field") tool
        .null "t" "s" "call_1" := by
  have hlong : ¬ Fits 256 (straddling 255 'é') := not_fits_straddling (by decide)
  refine ⟨fun h => ?_, fun h => ?_, fun h => ?_, fun h => ?_⟩
  · rw [SseEvent.previewKept_iff, String.toList_ofList] at h
    have hne : String.ofList (straddling 255 'é') ≠ longBody := by
      intro heq
      have hlist := congrArg String.toList heq
      rw [String.toList_ofList, toList_longBody] at hlist
      exact absurd (List.cons.inj hlist).1 (by decide)
    have hrefuses : ¬ ∃ v, (parsing longBody longMessage).fromStr
        (String.ofList (straddling 255 'é')) = .ok v := by simp [parsing, hne]
    exact hlong (h.resolve_left hrefuses)
  · rw [messageKept_iff] at h
    have hfits := h _ errorMessage_longBody
    rw [String.toList_ofList, trim_straddling (by decide)] at hfits
    exact hlong hfits
  · rw [turnKept_iff] at h
    have hfits := h (.toolResult longResult) List.mem_cons_self longResult rfl
    have htext : collectText longResult.content = String.ofList (straddling 499 'é') :=
      String.intercalate_singleton
    rw [htext, String.toList_ofList] at hfits
    exact not_fits_straddling (by decide) hfits
  · rw [stderrKept_iff] at h
    have hfits := h ⟨some 1⟩ _ ⟨_, by decide +kernel, rfl, rfl, rfl, rfl, Nat.zero_le _, rfl⟩
    rw [fromUtf8Lossy_replicate] at hfits
    exact not_fits_straddling (by decide) hfits

end Pandaria.Excerpts
