import Mathlib.Data.List.DropRight
import Mathlib.Data.List.Sort
import Pandaria.Agent.Session

/-!
# The system prompt

`PromptBuilder` of `agent-core/src/prompt/builder.rs` and the fragment the
skills of a session make, from `skills/injector.rs`. A builder is a list of
fragments in the order of their priorities; its text is what they say, less
the white space at the end of each and the fragments that say nothing.

Fragments also have a kind and a source, which rendering does not look at.
-/

namespace Pandaria.Agent

open Pandaria.Ai

/-! ## Fragments -/

structure PromptFragment where
  id : String
  content : List Char
  priority : Int
deriving DecidableEq

structure PromptBuilder where
  fragments : List PromptFragment
deriving DecidableEq

/-- `String::truncate`, to `n` bytes. It panics inside a character. -/
def truncate : Nat → List Char → Option (List Char)
  | _, [] => some []
  | 0, _ :: _ => some []
  | n + 1, c :: rest =>
      if c.utf8Size ≤ n + 1 then (truncate (n + 1 - c.utf8Size) rest).map (c :: ·) else none

namespace PromptBuilder

def fromBase (base : String) : PromptBuilder :=
  ⟨[{ id := "base-persona-0", content := base.toList, priority := 0 }]⟩

def maxFragmentBytes : Nat := 256000

/-- `upsert_fragment`; `none` is the panic of the truncation. -/
def upsertFragment (b : PromptBuilder) (f : PromptFragment) : Option PromptBuilder :=
  (truncate maxFragmentBytes f.content).map fun content =>
    let f := { f with content := content }
    let fragments := match b.fragments.findIdx? fun g => g.id = f.id with
      | some pos => b.fragments.set pos f
      | none => b.fragments ++ [f]
    ⟨fragments.insertionSort fun f g => f.priority ≤ g.priority⟩

/-- What the fragments say. -/
def said (b : PromptBuilder) : List (List Char) :=
  (b.fragments.map fun f => trimEnd f.content).filter fun s => !s.isEmpty

def render (b : PromptBuilder) : String := String.ofList (['\n'].intercalate b.said)

end PromptBuilder

/-! ## Skills -/

/-- `Skill` with what the prompt says of it. -/
structure LoadedSkill extends Skill where
  description : String
  disableModelInvocation : Bool
deriving DecidableEq

/-- `str::replace` of one character. -/
def replaceChar (c : Char) (text : String) (s : List Char) : List Char :=
  s.flatMap fun d => if d = c then text.toList else [d]

def escapeXml (s : String) : List Char :=
  replaceChar '\'' "&apos;" <| replaceChar '"' "&quot;" <| replaceChar '>' "&gt;" <|
    replaceChar '<' "&lt;" <| replaceChar '&' "&amp;" s.toList

/-- The lines of one skill. -/
def LoadedSkill.lines (s : LoadedSkill) : List (List Char) :=
  [ "  <skill>".toList,
    "    <name>".toList ++ escapeXml s.name ++ "</name>".toList,
    "    <description>".toList ++ escapeXml s.description ++ "</description>".toList,
    "    <location>".toList ++ escapeXml s.filePath ++ "</location>".toList,
    "  </skill>".toList ]

/-- The first line of the skills, which brings two line breaks with it. -/
def skillsHeading : List Char :=
  "\n\nThe following skills provide specialized instructions for specific tasks.".toList

def formatSkillsForPrompt (skills : List LoadedSkill) : List Char :=
  let visible := skills.filter fun s => !s.disableModelInvocation
  if visible.isEmpty then []
  else ['\n'].intercalate ([
    skillsHeading,
    "Use the read tool to load a skill's file when the task matches its description.".toList,
    ("When a skill file references a relative path, " ++
      "resolve it against the skill directory.").toList,
    [],
    "<available_skills>".toList ] ++
    visible.flatMap LoadedSkill.lines ++ ["</available_skills>".toList])

/-- How `SessionActor::new` and `set_system_prompt` make a builder. -/
def promptFor (systemPrompt : String) (skills : List LoadedSkill) : Option PromptBuilder :=
  if skills.isEmpty then some (.fromBase systemPrompt)
  else (PromptBuilder.fromBase systemPrompt).upsertFragment
    { id := "skills-directory", content := formatSkillsForPrompt skills, priority := 50 }

/-! ## What is rendered -/

theorem trimEnd_append {s t : List Char} (h : trimEnd t ≠ []) :
    trimEnd (s ++ t) = s ++ trimEnd t := by
  have hne : (t.reverse.dropWhile isWhitespace).isEmpty = false := by
    simpa [trimEnd] using h
  rw [trimEnd, List.reverse_append, List.dropWhile_append, hne]
  simp [trimEnd]

theorem trimEnd_ne_nil {c : Char} {s : List Char} (hc : c ∈ s) (h : isWhitespace c = false) :
    trimEnd s ≠ [] := by
  intro hnil
  rw [List.rdropWhile_eq_nil_iff.mp hnil c hc] at h
  cases h

namespace PromptBuilder

end PromptBuilder

end Pandaria.Agent
