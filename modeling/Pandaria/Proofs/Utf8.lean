import Pandaria.Ai.Sse

/-!
# What a cut does to a character

Decoding bytes piece by piece is not decoding them: a character cut in two
comes out as replacement characters, at least two of them. Nothing else
changes, and the more cuts there are the longer the text gets; cut at every
byte, it has a character for each byte. So a text that is as long as its bytes
is the same however they are cut.
-/

namespace Pandaria.Ai

/-! ## Blurred texts -/

/-- The second text is the first with some characters beyond ASCII replaced by
several replacement characters each. -/
inductive Blur : List Char → List Char → Prop where
  | nil : Blur [] []
  | keep (c : Char) {s t : List Char} (h : Blur s t) : Blur (c :: s) (c :: t)
  | blur {c : Char} (hc : 128 ≤ c.toNat) (n : Nat) {s t : List Char} (h : Blur s t) :
      Blur (c :: s) (List.replicate (n + 2) replacementChar ++ t)

namespace Blur

theorem refl (s : List Char) : Blur s s := by
  induction s with
  | nil => exact .nil
  | cons c s ih => exact .keep c ih

theorem append {s t s' t' : List Char} (h : Blur s t) (h' : Blur s' t') :
    Blur (s ++ s') (t ++ t') := by
  induction h with
  | nil => exact h'
  | keep c _ ih => exact .keep c ih
  | blur hc n _ ih =>
      rw [List.cons_append, List.append_assoc]
      exact .blur hc n ih

theorem length_le {s t : List Char} (h : Blur s t) : s.length ≤ t.length := by
  induction h with
  | nil => exact Nat.le_refl _
  | keep c _ ih => simpa using ih
  | blur hc n _ ih =>
      rw [List.length_append, List.length_replicate, List.length_cons]
      omega

/-- A text that has not got longer has not changed. -/
theorem eq_of_length_le {s t : List Char} (h : Blur s t) (hle : t.length ≤ s.length) : s = t := by
  induction h with
  | nil => rfl
  | keep c _ ih => rw [ih (by simpa using hle)]
  | blur hc n h _ =>
      have hlen := h.length_le
      rw [List.length_append, List.length_replicate, List.length_cons] at hle
      omega

/-- A text between two that are equal is equal to both. -/
theorem eq_of_between {s t u : List Char} (h : Blur s t) (h' : Blur t u) (heq : s = u) : s = t := by
  subst heq
  exact h.eq_of_length_le h'.length_le

theorem nil_left {t : List Char} (h : Blur [] t) : t = [] := by
  cases h
  rfl

theorem nil_right {s : List Char} (h : Blur s []) : s = [] :=
  List.eq_nil_of_length_eq_zero (Nat.le_zero.mp h.length_le)

/-- A character of ASCII stays where it is. -/
theorem ascii_left {c : Char} {s t : List Char} (h : Blur (c :: s) t) (hc : c.toNat < 128) :
    ∃ t', t = c :: t' ∧ Blur s t' := by
  cases h with
  | keep _ h => exact ⟨_, rfl, h⟩
  | blur hc' _ _ => omega

theorem ascii_right {c : Char} {s t : List Char} (h : Blur s (c :: t)) (hc : c.toNat < 128) :
    ∃ s', s = c :: s' ∧ Blur s' t := by
  generalize ht : c :: t = u at h
  cases h with
  | nil => cases ht
  | keep c' h =>
      injection ht with hcc ht
      subst hcc ht
      exact ⟨_, rfl, h⟩
  | blur hc' n h =>
      rw [List.replicate_succ, List.cons_append] at ht
      injection ht with hcc _
      have hrep : replacementChar.toNat = 0xfffd := by decide
      rw [hcc, hrep] at hc
      omega

/-- Replacement characters stay, or become more. -/
theorem replicate_left {k : Nat} {s t : List Char}
    (h : Blur (List.replicate k replacementChar ++ s) t) :
    ∃ m t', k ≤ m ∧ t = List.replicate m replacementChar ++ t' ∧ Blur s t' := by
  induction k generalizing t with
  | zero => exact ⟨0, t, Nat.le_refl 0, rfl, h⟩
  | succ k ih =>
      rw [List.replicate_succ, List.cons_append] at h
      cases h with
      | keep _ h =>
          obtain ⟨m, t', hle, rfl, h'⟩ := ih h
          exact ⟨m + 1, t', by omega, rfl, h'⟩
      | blur _ n h =>
          obtain ⟨m, t', hle, rfl, h'⟩ := ih h
          refine ⟨n + 2 + m, t', by omega, ?_, h'⟩
          rw [← List.append_assoc, List.replicate_append_replicate]

theorem trans {s t u : List Char} (h : Blur s t) (h' : Blur t u) : Blur s u := by
  induction h generalizing u with
  | nil => exact h'
  | keep c h ih =>
      cases h' with
      | keep _ h' => exact .keep c (ih h')
      | blur hc n h' => exact .blur hc n (ih h')
  | blur hc n h ih =>
      obtain ⟨m, u', hle, rfl, hu⟩ := h'.replicate_left
      obtain ⟨k, rfl⟩ : ∃ k, m = k + 2 := ⟨m - 2, by omega⟩
      exact .blur hc k (ih hu)

theorem reverse {s t : List Char} (h : Blur s t) : Blur s.reverse t.reverse := by
  induction h with
  | nil => exact .nil
  | keep c _ ih =>
      rw [List.reverse_cons, List.reverse_cons]
      exact ih.append (.refl [c])
  | blur hc n _ ih =>
      have hone := Blur.blur hc n .nil
      rw [List.append_nil] at hone
      rw [List.reverse_cons, List.reverse_append, List.reverse_replicate]
      exact ih.append hone

/-- A text falls apart where the text it blurs does. -/
theorem append_left {s s' t : List Char} (h : Blur (s ++ s') t) :
    ∃ t₁ t₂, t = t₁ ++ t₂ ∧ Blur s t₁ ∧ Blur s' t₂ := by
  induction s generalizing t with
  | nil => exact ⟨[], t, rfl, .nil, h⟩
  | cons c s ih =>
      rw [List.cons_append] at h
      cases h with
      | keep _ h =>
          obtain ⟨t₁, t₂, rfl, h₁, h₂⟩ := ih h
          exact ⟨c :: t₁, t₂, rfl, .keep c h₁, h₂⟩
      | blur hc n h =>
          obtain ⟨t₁, t₂, rfl, h₁, h₂⟩ := ih h
          exact ⟨_, t₂, (List.append_assoc ..).symm, .blur hc n h₁, h₂⟩

/-- A blur that changes anything has something beyond ASCII on both sides. -/
theorem eq_or_beyond {s t : List Char} (h : Blur s t) :
    s = t ∨ (∃ c ∈ s, 128 ≤ c.toNat) ∧ ∃ c ∈ t, 128 ≤ c.toNat := by
  induction h with
  | nil => exact Or.inl rfl
  | keep c _ ih =>
      rcases ih with rfl | ⟨⟨a, ha, ha'⟩, b, hb, hb'⟩
      · exact Or.inl rfl
      · exact Or.inr ⟨⟨a, List.mem_cons_of_mem _ ha, ha'⟩, b, List.mem_cons_of_mem _ hb, hb'⟩
  | @blur c hc n s t _ _ =>
      refine Or.inr ⟨⟨c, List.mem_cons_self, hc⟩, replacementChar, ?_, by decide⟩
      exact List.mem_append_left _ (List.mem_replicate.mpr ⟨by omega, rfl⟩)

theorem mem_iff {s t : List Char} (h : Blur s t) {c : Char} (hc : c.toNat < 128) :
    c ∈ s ↔ c ∈ t := by
  have hrep : c ≠ replacementChar := by
    rintro rfl
    revert hc
    decide
  induction h with
  | nil => exact Iff.rfl
  | keep d _ ih => simp [ih]
  | @blur d hd n s t _ ih =>
      have hne : c ≠ d := by
        rintro rfl
        omega
      simp [hne, hrep, ih]

theorem getLast?_iff {s t : List Char} (h : Blur s t) {c : Char} (hc : c.toNat < 128) :
    s.getLast? = some c ↔ t.getLast? = some c := by
  rw [List.getLast?_eq_head?_reverse, List.getLast?_eq_head?_reverse]
  constructor
  · intro hs
    obtain ⟨s', hs'⟩ := List.head?_eq_some_iff.mp hs
    have hrev := h.reverse
    rw [hs'] at hrev
    obtain ⟨t', ht', -⟩ := hrev.ascii_left hc
    rw [ht', List.head?_cons]
  · intro ht
    obtain ⟨t', ht'⟩ := List.head?_eq_some_iff.mp ht
    have hrev := h.reverse
    rw [ht'] at hrev
    obtain ⟨s', hs', -⟩ := hrev.ascii_right hc
    rw [hs', List.head?_cons]

end Blur

/-! ## Characters that have begun -/

theorem toNat_ofNat {n : Nat} (h : n.isValidChar) : (Char.ofNat n).toNat = n := by
  rw [Char.ofNat, dif_pos h]
  rfl

theorem decodeUtf8_cons (p : Option Utf8Pending) (b : UInt8) (bytes : List UInt8) :
    decodeUtf8 p (b :: bytes) = (utf8Step p b).1 ++ decodeUtf8 (utf8Step p b).2 bytes := by
  cases p <;> rfl

/-- What a character that has begun can become: no end of it is ASCII, and none
is a surrogate or too large. -/
def Utf8Pending.Sound (p : Utf8Pending) : Prop :=
  0x80 ≤ p.low ∧ p.high ≤ 0xbf ∧ ∀ n, p.low ≤ n → n ≤ p.high →
    match p.missing with
    | 1 => 0x80 ≤ p.code * 64 + (n - 0x80) ∧ (p.code * 64 + (n - 0x80)).isValidChar
    | 2 => (2 ≤ p.code * 64 + (n - 0x80) ∧ p.code * 64 + (n - 0x80) < 0x360) ∨
        (0x380 ≤ p.code * 64 + (n - 0x80) ∧ p.code * 64 + (n - 0x80) < 0x4400)
    | 3 => 0x10 ≤ p.code * 64 + (n - 0x80) ∧ p.code * 64 + (n - 0x80) < 0x110
    | _ => False

theorem utf8Start_sound {b : UInt8} {p : Utf8Pending} (h : (utf8Start b).2 = some p) : p.Sound := by
  rw [utf8Start] at h
  repeat' split at h
  all_goals cases h
  all_goals refine ⟨by simp, by simp, fun n hlo hhi => ?_⟩
  all_goals simp only [Nat.isValidChar] at hlo hhi ⊢
  all_goals omega

/-- The byte that goes on with a character ends it with a character beyond
ASCII, or goes on. -/
theorem Utf8Pending.Sound.step {p : Utf8Pending} (hp : p.Sound) {b : UInt8}
    (hlo : p.low ≤ b.toNat) (hhi : b.toNat ≤ p.high) :
    (∃ c : Char, 128 ≤ c.toNat ∧ utf8Step (some p) b = ([c], none)) ∨
      ∃ q : Utf8Pending, q.Sound ∧ utf8Step (some p) b = ([], some q) := by
  obtain ⟨hlow, hhigh, hends⟩ := hp
  have hend := hends b.toNat hlo hhi
  rw [utf8Step, if_pos ⟨hlo, hhi⟩]
  split at hend
  · next hone =>
      refine Or.inl ⟨Char.ofNat (p.code * 64 + (b.toNat - 0x80)), ?_, if_pos hone⟩
      rw [toNat_ofNat hend.2]
      exact hend.1
  · next htwo =>
      refine Or.inr ⟨_, ⟨by simp, by simp, fun n hn hn' => ?_⟩, if_neg (by omega)⟩
      simp only [htwo, Nat.isValidChar] at hn hn' ⊢
      omega
  · next hthree =>
      refine Or.inr ⟨_, ⟨by simp, by simp, fun n hn hn' => ?_⟩, if_neg (by omega)⟩
      simp only [hthree] at hn hn' ⊢
      omega
  · exact hend.elim

/-! ## Cutting bytes -/

/-- A byte as it is decoded by itself. -/
def lossyByte (b : UInt8) : Char := if b.toNat < 128 then Char.ofNat b.toNat else replacementChar

theorem fromUtf8Lossy_singleton (b : UInt8) : fromUtf8Lossy [b] = [lossyByte b] := by
  have hend (p : Option Utf8Pending) :
      decodeUtf8 p [] = if p.isSome then [replacementChar] else [] := by
    cases p <;> rfl
  rw [fromUtf8Lossy, decodeUtf8_cons, hend, utf8Step, utf8Start, lossyByte]
  repeat' split
  all_goals first
    | rfl
    | omega
    | simp at *

/-- A byte inside a character starts none. -/
theorem utf8Start_continuation {b : UInt8} (hlo : 0x80 ≤ b.toNat) (hhi : b.toNat ≤ 0xbf) :
    utf8Start b = ([replacementChar], none) := by
  rw [utf8Start]
  repeat' split
  all_goals first
    | rfl
    | omega

/-- A character that is cut, and some bytes of it already replaced. -/
theorem blur_pending {p : Utf8Pending} (hp : p.Sound) (bytes : List UInt8) (k : Nat) :
    Blur (decodeUtf8 (some p) bytes)
      (List.replicate (k + 1) replacementChar ++ decodeUtf8 none bytes) := by
  induction bytes generalizing p k with
  | nil =>
      cases k with
      | zero => exact .refl _
      | succ k => exact .blur (by decide) k .nil
  | cons b bytes ih =>
      by_cases hb : p.low ≤ b.toNat ∧ b.toNat ≤ p.high
      · have hstart : utf8Start b = ([replacementChar], none) :=
          utf8Start_continuation (Nat.le_trans hp.1 hb.1) (Nat.le_trans hb.2 hp.2.1)
        have hright : List.replicate (k + 1) replacementChar ++ decodeUtf8 none (b :: bytes) =
            List.replicate (k + 1 + 1) replacementChar ++ decodeUtf8 none bytes := by
          have hreplicate : List.replicate (k + 1 + 1) replacementChar =
              List.replicate (k + 1) replacementChar ++ [replacementChar] := List.replicate_succ'
          rw [decodeUtf8_cons, utf8Step, hstart, hreplicate, List.append_assoc]
        rw [hright]
        rcases hp.step hb.1 hb.2 with ⟨c, hc, hstep⟩ | ⟨q, hq, hstep⟩
        · rw [decodeUtf8_cons, hstep]
          exact .blur hc k (.refl _)
        · rw [decodeUtf8_cons, hstep]
          exact ih hq (k + 1)
      · -- The character is broken off by a byte that starts the next one either way.
        have hleft : decodeUtf8 (some p) (b :: bytes) =
            replacementChar :: decodeUtf8 none (b :: bytes) := by
          have hbreak : utf8Step (some p) b =
              (replacementChar :: (utf8Start b).1, (utf8Start b).2) := if_neg hb
          rw [decodeUtf8_cons, decodeUtf8_cons, hbreak]
          rfl
        rw [hleft]
        cases k with
        | zero => exact .refl _
        | succ k => exact .blur (by decide) k (.refl _)

/-- What has begun after any byte is sound. -/
theorem utf8Step_sound {p : Option Utf8Pending} (hp : ∀ q, p = some q → q.Sound) {b : UInt8}
    {q : Utf8Pending} (h : (utf8Step p b).2 = some q) : q.Sound := by
  cases p with
  | none => exact utf8Start_sound h
  | some p =>
      by_cases hb : p.low ≤ b.toNat ∧ b.toNat ≤ p.high
      · rcases (hp p rfl).step hb.1 hb.2 with ⟨c, -, hstep⟩ | ⟨q', hq', hstep⟩
        · rw [hstep] at h
          cases h
        · rw [hstep] at h
          injection h with h
          exact h ▸ hq'
      · rw [utf8Step, if_neg hb] at h
        exact utf8Start_sound h

/-- One cut. -/
theorem blur_cut {p : Option Utf8Pending} (hp : ∀ q, p = some q → q.Sound)
    (bytes rest : List UInt8) :
    Blur (decodeUtf8 p (bytes ++ rest)) (decodeUtf8 p bytes ++ fromUtf8Lossy rest) := by
  induction bytes generalizing p with
  | nil =>
      cases p with
      | none => exact .refl _
      | some q => exact blur_pending (hp q rfl) rest 0
  | cons b bytes ih =>
      rw [List.cons_append, decodeUtf8_cons, decodeUtf8_cons, List.append_assoc]
      exact (Blur.refl _).append (ih fun q hq => utf8Step_sound hp hq)

/-- Bytes that come in pieces are a blur of the bytes in one piece. -/
theorem blur_chunks (chunks : List (List UInt8)) :
    Blur (fromUtf8Lossy chunks.flatten) (chunks.flatMap fromUtf8Lossy) := by
  induction chunks with
  | nil => exact .nil
  | cons chunk rest ih =>
      rw [List.flatten_cons, List.flatMap_cons]
      exact (blur_cut (fun q hq => by cases hq) chunk rest.flatten).trans
        ((Blur.refl _).append ih)

/-- The bytes, each a piece of its own. -/
def bytewise (bytes : List UInt8) : List (List UInt8) := bytes.map fun b => [b]

theorem bytewise_flatten (bytes : List UInt8) : (bytewise bytes).flatten = bytes := by
  induction bytes with
  | nil => rfl
  | cons b bytes ih => rw [bytewise, List.map_cons, List.flatten_cons, ← bytewise, ih]; rfl

theorem bytewise_flatMap (bytes : List UInt8) :
    (bytewise bytes).flatMap fromUtf8Lossy = bytes.map lossyByte := by
  induction bytes with
  | nil => rfl
  | cons b bytes ih =>
      rw [bytewise, List.map_cons, List.flatMap_cons, ← bytewise, ih, fromUtf8Lossy_singleton]
      rfl

/-- And what comes byte by byte is a blur of what comes in pieces. -/
theorem blur_bytes (bytes : List UInt8) : Blur (fromUtf8Lossy bytes) (bytes.map lossyByte) := by
  have hbytes := blur_chunks (bytewise bytes)
  rwa [bytewise_flatten, bytewise_flatMap] at hbytes

theorem blur_chunks_bytes (chunks : List (List UInt8)) :
    Blur (chunks.flatMap fromUtf8Lossy) (chunks.flatten.map lossyByte) := by
  induction chunks with
  | nil => exact .nil
  | cons chunk rest ih =>
      rw [List.flatMap_cons, List.flatten_cons, List.map_append]
      exact (blur_bytes chunk).append ih

end Pandaria.Ai
