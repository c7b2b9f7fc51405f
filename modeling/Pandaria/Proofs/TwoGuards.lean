import Pandaria.Proofs.Endpoints
import Pandaria.Agent.Ssrf

/-!
# Where the two guards of URLs disagree

The toolkit refuses by what it reads in the text of the host, the strict policy
by scheme and host. On a domain under `http` and `https` they agree. On an address
they differ in three ranges: the toolkit knows but one address of `0.0.0.0/8` and
no address of IPv4 in its mapped form, the policy not the unspecified address of
IPv6. Under another scheme the policy refuses whatever the host.
-/

namespace Pandaria.Toolkit

open Pandaria.Agent
open Pandaria.Lib

/-! ## What the parser gives -/

/-- A URL as both guards read it. -/
structure ParsedUrl extends Url where
  hostStr : Option String

/-- The address that stands as a text in the place of a host. -/
def hostIp (host : List Char) : Option Host :=
  match parseWith readIpv4 (ipCandidate host), Ipv6Addr.fromStr (ipCandidate host) with
  | some ip, _ => some (.ipv4 ip)
  | none, some ip => some (.ipv6 ip)
  | none, none => none

/-- The text of a host. -/
structure ParsedUrl.Lawful (u : ParsedUrl) : Prop where
  none : u.host = none → u.hostStr = none
  domain : ∀ name, u.host = some (.domain name) → u.hostStr = some name
  /-- In decimal, with points. -/
  ipv4 : ∀ ip, u.host = some (.ipv4 ip) → ∃ text, u.hostStr = some text ∧
    (∀ c ∈ text.toList, c.isDigit = true ∨ c = '.') ∧ hostIp text.toList = some (.ipv4 ip)
  /-- In hexadecimal, with colons and in brackets. -/
  ipv6 : ∀ ip, u.host = some (.ipv6 ip) → ∃ text, u.hostStr = some text ∧
    text.toList.head? = some '[' ∧ hostIp text.toList = some (.ipv6 ip)
  /-- Under `http` a host that reads as an address is one. -/
  special : u.IsHttp → ∀ name, u.host = some (.domain name) → hostIp name.toList = .none

abbrev UrlCrate := String → Except String ParsedUrl

/-- The parser as the toolkit uses it. -/
def toolkitParser (parse : UrlCrate) : UrlParser := fun url => (parse url).map ParsedUrl.hostStr

/-- And as the policy does. -/
def policyParser (parse : UrlCrate) (url : String) : Option Url :=
  (parse url).toOption.map ParsedUrl.toUrl

/-! ## The ranges of the toolkit -/

/-- Loopback, unspecified, unique local and link-local addresses of IPv6. -/
def Blocked6 (ip : Ipv6Addr) : Prop :=
  ip = 1 ∨ ip = 0 ∨ FirstBits 7 ip (Ipv6Addr.ofSegments [0xfc00, 0, 0, 0, 0, 0, 0, 0]) ∨
    FirstBits 10 ip (Ipv6Addr.ofSegments [0xfe80, 0, 0, 0, 0, 0, 0, 0])

/-- An address of IPv4 in the form of IPv6. -/
def Mapped (ip : Ipv6Addr) : Prop :=
  FirstBits 96 ip (Ipv6Addr.ofSegments [0, 0, 0, 0, 0, 0xffff, 0, 0])

theorem isBlockedIpv4_iff (ip : Ipv4Addr) : isBlockedIpv4 ip = true ↔ Reserved4 ip := by
  have hlt := ip.isLt
  have h0 := octet_toNat ip 0
  have h1 := octet_toNat ip 1
  have hoctets : isBlockedIpv4 ip = true ↔
      (ip.octet 0).toNat = 127 ∨ (ip.octet 0).toNat = 10 ∨
      ((ip.octet 0).toNat = 172 ∧ 16 ≤ (ip.octet 1).toNat ∧ (ip.octet 1).toNat ≤ 31) ∨
      ((ip.octet 0).toNat = 192 ∧ (ip.octet 1).toNat = 168) ∨
      ((ip.octet 0).toNat = 169 ∧ (ip.octet 1).toNat = 254) ∨ ip.toNat = 0 := by
    simp only [isBlockedIpv4, ← BitVec.toNat_inj, BitVec.le_def, Bool.or_eq_true,
      Bool.and_eq_true, decide_eq_true_eq, or_assoc]
    rfl
  rw [hoctets, h0, h1, reserved4_toNat]
  omega

theorem isBlockedIpv6_iff (ip : Ipv6Addr) : isBlockedIpv6 ip = true ↔ Blocked6 ip := by
  rw [Blocked6, ← uniqueLocal_iff, ← linkLocal_iff, isBlockedIpv6, isIpv6UniqueLocal, isIpv6LinkLocal]
  simp only [Bool.or_eq_true, decide_eq_true_eq, or_assoc]

/-- In `0.0.0.0/8` there is but one address the toolkit knows. -/
theorem reserved4_of_zero {ip : Ipv4Addr} (h : FirstBits 8 ip 0) (hr : Reserved4 ip) : ip = 0 := by
  have hlt := ip.isLt
  rw [zeroNetwork_toNat] at h
  rw [reserved4_toNat] at hr
  rw [← BitVec.toNat_inj]
  show ip.toNat = 0
  omega

theorem reserved4_zero : Reserved4 0 := .inr (.inl rfl)

/-- An address of IPv4 in the form of IPv6 is in none of the ranges of IPv6. -/
theorem not_blocked6_of_mapped {ip : Ipv6Addr} (h : Mapped ip) : ¬ Blocked6 ip := by
  have hlt := ip.isLt
  have em : (Ipv6Addr.ofSegments [0, 0, 0, 0, 0, 0xffff, 0, 0]).toNat = 65535 * 2 ^ 32 := by decide
  have eu : (Ipv6Addr.ofSegments [0xfc00, 0, 0, 0, 0, 0, 0, 0]).toNat = 0xfc00 * 2 ^ 112 := by
    decide
  have el : (Ipv6Addr.ofSegments [0xfe80, 0, 0, 0, 0, 0, 0, 0]).toNat = 0xfe80 * 2 ^ 112 := by
    decide
  have h1 : ip = 1 ↔ ip.toNat = 1 := by rw [← BitVec.toNat_inj]; rfl
  have h0 : ip = 0 ↔ ip.toNat = 0 := by rw [← BitVec.toNat_inj]; rfl
  rw [Mapped, firstBits_iff_div (by decide), em] at h
  rw [Blocked6, h1, h0, firstBits_iff_div (by decide), firstBits_iff_div (by decide), eu, el]
  omega

/-! ## One URL -/

/-- What the toolkit refuses by the host. -/
def ParsedUrl.Refused (u : ParsedUrl) : Prop :=
  match u.host with
  | none => True
  | some (.domain name) =>
      toAsciiLowercase name.toList = "localhost".toList ∨
        (∃ ip, hostIp name.toList = some (.ipv4 ip) ∧ Reserved4 ip) ∨
        ∃ ip, hostIp name.toList = some (.ipv6 ip) ∧ Blocked6 ip
  | some (.ipv4 ip) => Reserved4 ip
  | some (.ipv6 ip) => Blocked6 ip

/-- The check of a text. -/
theorem validateUrl_text {parse : UrlParser} {url text : String} (h : parse url = .ok (some text)) :
    validateUrl parse url = .ok () ↔ toAsciiLowercase text.toList ≠ "localhost".toList ∧
      (∀ ip, hostIp text.toList = some (.ipv4 ip) → ¬ Reserved4 ip) ∧
        ∀ ip, hostIp text.toList = some (.ipv6 ip) → ¬ Blocked6 ip := by
  rw [validateUrl, h]
  dsimp only
  generalize "localhost".toList = localhost
  split
  · next hlocal => exact iff_of_false (by simp) fun h => h.1 hlocal
  · next hlocal =>
      rw [hostIp]
      cases parseWith readIpv4 (ipCandidate text.toList) with
      | some ip =>
          simp only [Option.some.injEq, Host.ipv4.injEq, forall_eq', reduceCtorEq, false_implies,
            implies_true, and_true, ← isBlockedIpv4_iff]
          cases isBlockedIpv4 ip <;> simp [hlocal]
      | none =>
          cases Ipv6Addr.fromStr (ipCandidate text.toList) with
          | some ip =>
              simp only [Option.some.injEq, Host.ipv6.injEq, forall_eq', reduceCtorEq,
                false_implies, implies_true, true_and, ← isBlockedIpv6_iff]
              cases isBlockedIpv6 ip <;> simp [hlocal]
          | none => simp [hlocal]

theorem ne_localhost_of_digits {text : List Char} (h : ∀ c ∈ text, c.isDigit = true ∨ c = '.') :
    toAsciiLowercase text ≠ "localhost".toList := by
  intro heq
  cases text with
  | nil => cases heq
  | cons c rest =>
      have hc : c.toLower = 'l' := by
        injection heq
      rcases h c List.mem_cons_self with hdigit | rfl
      · have hupper : ¬ (c.val ≥ 'A'.val ∧ c.val ≤ 'Z'.val) := by
          rw [Char.isDigit, Bool.and_eq_true, decide_eq_true_eq, decide_eq_true_eq] at hdigit
          exact fun h => absurd (UInt32.le_trans h.1 hdigit.2) (by decide)
        have hlower : c.toLower = c := dif_neg hupper
        rw [← hlower, hc] at hdigit
        revert hdigit
        decide
      · revert hc
        decide

theorem ne_localhost_of_bracket {text : List Char} (h : text.head? = some '[') :
    toAsciiLowercase text ≠ "localhost".toList := by
  intro heq
  cases text with
  | nil => cases heq
  | cons c rest =>
      injection h with h
      subst h
      have hc : ('[' : Char).toLower = 'l' := by
        injection heq
      revert hc
      decide

/-- The toolkit refuses by the host. -/
theorem validateUrl_iff {parse : UrlCrate} {url : String} {u : ParsedUrl}
    (hparse : parse url = .ok u) (hu : u.Lawful) :
    validateUrl (toolkitParser parse) url = .ok () ↔ ¬ u.Refused := by
  have hview : toolkitParser parse url = .ok u.hostStr := by rw [toolkitParser, hparse]; rfl
  rw [ParsedUrl.Refused]
  cases hhost : u.host with
  | none =>
      rw [hu.none hhost] at hview
      rw [validateUrl, hview]
      simp
  | some host =>
      cases host with
      | domain name =>
          rw [hu.domain name hhost] at hview
          rw [validateUrl_text hview]
          simp only [not_or, not_exists, not_and]
      | ipv4 ip =>
          obtain ⟨text, htext, hdigits, hip⟩ := hu.ipv4 ip hhost
          rw [htext] at hview
          rw [validateUrl_text hview, hip]
          simp only [Option.some.injEq, Host.ipv4.injEq, forall_eq', reduceCtorEq, false_implies,
            implies_true, and_true]
          exact and_iff_right (ne_localhost_of_digits hdigits)
      | ipv6 ip =>
          obtain ⟨text, htext, hbracket, hip⟩ := hu.ipv6 ip hhost
          rw [htext] at hview
          rw [validateUrl_text hview, hip]
          simp only [Option.some.injEq, Host.ipv6.injEq, forall_eq', reduceCtorEq, false_implies,
            implies_true, true_and]
          exact and_iff_right (ne_localhost_of_bracket hbracket)

/-- The strict policy, by scheme and host. -/
theorem isInternalEndpointStrict_iff (u : Url) :
    isInternalEndpointStrict (some u) = false ↔ u.IsHttp ∧
      match u.host with
      | none => False
      | some (.domain name) => toAsciiLowercase name.toList ≠ "localhost".toList
      | some (.ipv4 ip) => isInternalIpv4 ip = false
      | some (.ipv6 ip) => isInternalIpv6 ip = false := by
  rw [isInternalEndpointStrict]
  split
  · next hscheme => exact iff_of_false (by simp) fun h => h.1.elim hscheme.1 hscheme.2
  · next hscheme =>
      have hhttp : u.IsHttp := by
        by_cases hs : u.scheme = "http"
        · exact .inl hs
        · exact .inr (not_not.mp fun hs' => hscheme ⟨hs, hs'⟩)
      refine Iff.trans ?_ (and_iff_right hhttp).symm
      cases u.host with
      | none => simp
      | some host =>
          cases host with
          | domain name => exact decide_eq_false_iff_not
          | ipv4 ip => exact Iff.rfl
          | ipv6 ip => exact Iff.rfl

/-! ## Both guards -/

/-- Where they agree: under `http` or `https`, or else on a host that the toolkit
refuses too, and on no address of the ranges that only one of them knows. -/
structure ParsedUrl.Agreed (u : ParsedUrl) : Prop where
  scheme : u.IsHttp ∨ u.Refused
  zeroNetwork : u.IsHttp → ∀ ip, u.host = some (.ipv4 ip) → FirstBits 8 ip 0 → ip = 0
  unspecified : u.IsHttp → u.host ≠ some (.ipv6 0)
  mapped : u.IsHttp → ∀ ip, u.host = some (.ipv6 ip) → Mapped ip →
    isInternalIpv4 (ip.setWidth 32) = false

theorem agree4_iff (ip : Ipv4Addr) : (¬ Reserved4 ip ↔ isInternalIpv4 ip = false) ↔
    (FirstBits 8 ip 0 → ip = 0) := by
  rw [← Bool.not_eq_true, isInternalIpv4_iff]
  constructor
  · intro h hzero
    by_cases hr : Reserved4 ip
    · exact reserved4_of_zero hzero hr
    · exact absurd (.inr hzero) (h.mp hr)
  · intro h
    refine not_congr ⟨.inl, fun hr => hr.elim id fun hzero => ?_⟩
    rw [h hzero]
    exact reserved4_zero

theorem agree6_iff (ip : Ipv6Addr) : (¬ Blocked6 ip ↔ isInternalIpv6 ip = false) ↔
    ip ≠ 0 ∧ (Mapped ip → isInternalIpv4 (ip.setWidth 32) = false) := by
  rw [← Bool.not_eq_true, isInternalIpv6_iff, ← Bool.not_eq_true, isInternalIpv4_iff]
  constructor
  · intro h
    refine ⟨?_, fun hmapped hr => ?_⟩
    · rintro rfl
      have hnot := (not_congr (isInternalIpv6_iff 0)).mp (by decide)
      exact h.mpr hnot (.inr (.inl rfl))
    · exact h.mp (not_blocked6_of_mapped hmapped) (.inr (.inr (.inr ⟨hmapped, hr⟩)))
  · rintro ⟨hne, hmapped⟩
    refine not_congr ⟨?_, ?_⟩
    · rintro (h | h | h | h)
      · exact .inl h
      · exact absurd h hne
      · exact .inr (.inl h)
      · exact .inr (.inr (.inl h))
    · rintro (h | h | h | ⟨h, hr⟩)
      · exact .inl h
      · exact .inr (.inr (.inl h))
      · exact .inr (.inr (.inr h))
      · exact absurd hr (hmapped h)

/-- The guards agree on a URL exactly if it is not one of those. -/
theorem agree_iff {u : ParsedUrl} (hu : u.Lawful) :
    (¬ u.Refused ↔ isInternalEndpointStrict (some u.toUrl) = false) ↔ u.Agreed := by
  rw [isInternalEndpointStrict_iff]
  by_cases hhttp : u.IsHttp
  · rw [and_iff_right hhttp]
    have hagreed : u.Agreed ↔ (∀ ip, u.host = some (.ipv4 ip) → FirstBits 8 ip 0 → ip = 0) ∧
        u.host ≠ some (.ipv6 0) ∧ ∀ ip, u.host = some (.ipv6 ip) → Mapped ip →
          isInternalIpv4 (ip.setWidth 32) = false :=
      ⟨fun h => ⟨h.zeroNetwork hhttp, h.unspecified hhttp, h.mapped hhttp⟩,
        fun h => ⟨.inl hhttp, fun _ => h.1, fun _ => h.2.1, fun _ => h.2.2⟩⟩
    rw [hagreed, ParsedUrl.Refused]
    cases hhost : u.host with
    | none => simp
    | some host =>
        cases host with
        | domain name =>
            have hname := hu.special hhttp name hhost
            generalize "localhost".toList = localhost
            simp [hname]
        | ipv4 ip =>
            refine (agree4_iff ip).trans ?_
            simp
        | ipv6 ip =>
            refine (agree6_iff ip).trans ?_
            simp
  · have hagreed : u.Agreed ↔ u.Refused :=
      ⟨fun h => h.scheme.resolve_left hhttp, fun h => ⟨.inr h, fun h => absurd h hhttp,
        fun h => absurd h hhttp, fun h => absurd h hhttp⟩⟩
    rw [hagreed]
    simp [hhttp]

/-- On a text that does not parse they agree, and on a URL exactly if it has none of
what only one of them knows. -/
theorem guards_agree_iff {parse : UrlCrate} (hparse : ∀ url u, parse url = .ok u → u.Lawful)
    (url : String) :
    (validateUrl (toolkitParser parse) url = .ok () ↔
        isInternalEndpointStrict (policyParser parse url) = false) ↔
      ∀ u, parse url = .ok u → u.Agreed := by
  cases h : parse url with
  | error e =>
      have hview : toolkitParser parse url = .error e := by rw [toolkitParser, h]; rfl
      have hpolicy : policyParser parse url = none := by rw [policyParser, h]; rfl
      rw [validateUrl, hview, hpolicy]
      simp [isInternalEndpointStrict]
  | ok u =>
      have hu := hparse url u h
      have hpolicy : policyParser parse url = some u.toUrl := by rw [policyParser, h]; rfl
      rw [validateUrl_iff h hu, hpolicy, agree_iff hu]
      simp

/-- The crate, on two URLs. -/
def exampleCrate : UrlCrate := fun url =>
  if url = "http://10.0.0.1/" then .ok ⟨⟨"http", some (.ipv4 0x0a000001)⟩, some "10.0.0.1"⟩
  else if url = "http://[::ffff:10.0.0.1]/" then
    .ok ⟨⟨"http", some (.ipv6 0xffff0a000001)⟩, some "[::ffff:a00:1]"⟩
  else .error "relative URL without a base"

theorem lawful_exampleCrate (url : String) (u : ParsedUrl) (h : exampleCrate url = .ok u) :
    u.Lawful := by
  unfold exampleCrate at h
  split at h
  · cases h
    refine ⟨fun h => (by cases h), fun _ h => (by cases h), fun ip h => ?_, fun _ h => (by cases h),
      fun _ _ h => (by cases h)⟩
    cases h
    have hall : ("10.0.0.1".toList.all fun c => decide (c.isDigit = true ∨ c = '.')) = true := by
      decide
    exact ⟨_, rfl, fun c hc => of_decide_eq_true (List.all_eq_true.mp hall c hc), by decide⟩
  · split at h
    · cases h
      refine ⟨fun h => (by cases h), fun _ h => (by cases h), fun _ h => (by cases h),
        fun ip h => ?_, fun _ _ h => (by cases h)⟩
      cases h
      exact ⟨_, rfl, by decide, by decide⟩
    · cases h

/-- A private address is refused by both. -/
theorem guards_agree_private :
    validateUrl (toolkitParser exampleCrate) "http://10.0.0.1/" = .ok () ↔
      isInternalEndpointStrict (policyParser exampleCrate "http://10.0.0.1/") = false := by
  refine (guards_agree_iff lawful_exampleCrate _).mpr fun u h => ?_
  cases h
  refine ⟨.inl (.inl rfl), fun _ ip h hzero => ?_, fun _ h => (by cases h),
    fun _ ip h => (by cases h)⟩
  cases h
  rw [zeroNetwork_toNat] at hzero
  exact absurd hzero (by decide)

/-- And in its mapped form by one. -/
theorem not_guards_agree : ¬ ∀ (parse : UrlCrate), (∀ url u, parse url = .ok u → u.Lawful) →
    ∀ url, validateUrl (toolkitParser parse) url = .ok () ↔
      isInternalEndpointStrict (policyParser parse url) = false := by
  intro h
  have hagree := h exampleCrate lawful_exampleCrate "http://[::ffff:10.0.0.1]/"
  have hparse : exampleCrate "http://[::ffff:10.0.0.1]/" =
      .ok ⟨⟨"http", some (.ipv6 0xffff0a000001)⟩, some "[::ffff:a00:1]"⟩ := rfl
  rw [validateUrl_iff hparse (lawful_exampleCrate _ _ hparse)] at hagree
  have hstrict : isInternalEndpointStrict (policyParser exampleCrate
      "http://[::ffff:10.0.0.1]/") = true := by
    rw [policyParser, hparse]
    decide
  rw [hstrict] at hagree
  refine absurd (hagree.mp ?_) (by simp)
  show ¬ Blocked6 0xffff0a000001
  rw [← isBlockedIpv6_iff]
  decide

end Pandaria.Toolkit
