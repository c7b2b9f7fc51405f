import Pandaria.Agent.Ssrf

/-!
# What the SSRF policy lets through

A rule covers what it says: the first bits of an address, or a name and what is
below it. The strict check knows its ranges but for two endpoints that are as
internal as any of them, `localhost.` and the unspecified address of IPv6. And
since the allowlist is asked first, the scheme of a URL is only looked at when
no rule covers its host.
-/

namespace Pandaria.Agent

open Pandaria.Ai
open Pandaria.Lib

/-! ## The ranges -/

/-- Loopback, unspecified, private and link-local addresses of IPv4. -/
def Reserved4 (ip : Ipv4Addr) : Prop :=
  FirstBits 8 ip (Ipv4Addr.new 127 0 0 0) ∨ ip = 0 ∨ FirstBits 8 ip (Ipv4Addr.new 10 0 0 0) ∨
    FirstBits 12 ip (Ipv4Addr.new 172 16 0 0) ∨ FirstBits 16 ip (Ipv4Addr.new 192 168 0 0) ∨
    FirstBits 16 ip (Ipv4Addr.new 169 254 0 0)

/-- Loopback, unspecified, unique local and link-local addresses of IPv6, and
the reserved ones of IPv4 in their mapped form. -/
def Reserved6 (ip : Ipv6Addr) : Prop :=
  ip = 1 ∨ ip = 0 ∨ FirstBits 7 ip (Ipv6Addr.ofSegments [0xfc00, 0, 0, 0, 0, 0, 0, 0]) ∨
    FirstBits 10 ip (Ipv6Addr.ofSegments [0xfe80, 0, 0, 0, 0, 0, 0, 0]) ∨
    FirstBits 96 ip (Ipv6Addr.ofSegments [0, 0, 0, 0, 0, 0xffff, 0, 0]) ∧
      Reserved4 (ip.setWidth 32)

/-- What a rule is there to cover. -/
def Covers : AllowedRange → Host → Prop
  | .cidrV4 network prefixLen, .ipv4 ip => FirstBits prefixLen ip network
  | .cidrV6 network prefixLen, .ipv6 ip => FirstBits prefixLen ip network
  | .domain suffix, .domain name =>
      toAsciiLowercase name.toList = suffix ∨
        ∃ label, toAsciiLowercase name.toList = label ++ '.' :: suffix
  | _, _ => False

theorem octet_toNat (ip : Ipv4Addr) (i : Nat) :
    (ip.octet i).toNat = ip.toNat / 2 ^ (24 - 8 * i) % 256 := by
  rw [Ipv4Addr.octet, BitVec.extractLsb'_toNat, Nat.shiftRight_eq_div_pow]

theorem segment_toNat (ip : Ipv6Addr) (i : Nat) :
    (ip.segment i).toNat = ip.toNat / 2 ^ (112 - 16 * i) % 65536 := by
  rw [Ipv6Addr.segment, BitVec.extractLsb'_toNat, Nat.shiftRight_eq_div_pow]

/-- The reserved ranges by their numbers. -/
theorem reserved4_toNat (ip : Ipv4Addr) :
    Reserved4 ip ↔ ip.toNat / 2 ^ 24 = 127 ∨ ip.toNat = 0 ∨ ip.toNat / 2 ^ 24 = 10 ∨
      ip.toNat / 2 ^ 20 = 2753 ∨ ip.toNat / 2 ^ 16 = 49320 ∨ ip.toNat / 2 ^ 16 = 43518 := by
  have hzero : ip = 0 ↔ ip.toNat = 0 := by rw [← BitVec.toNat_inj]; rfl
  have e1 : (Ipv4Addr.new 127 0 0 0).toNat = 2130706432 := by decide
  have e2 : (Ipv4Addr.new 10 0 0 0).toNat = 167772160 := by decide
  have e3 : (Ipv4Addr.new 172 16 0 0).toNat = 2886729728 := by decide
  have e4 : (Ipv4Addr.new 192 168 0 0).toNat = 3232235520 := by decide
  have e5 : (Ipv4Addr.new 169 254 0 0).toNat = 2851995648 := by decide
  rw [Reserved4, hzero]
  iterate 5 rw [firstBits_iff_div (by decide)]
  rw [e1, e2, e3, e4, e5]
  simp only [Nat.reduceSub, Nat.reducePow, Nat.reduceDiv]

theorem zeroNetwork_toNat (ip : Ipv4Addr) : FirstBits 8 ip 0 ↔ ip.toNat / 2 ^ 24 = 0 := by
  rw [firstBits_iff_div (by decide)]
  rfl

/-- The strict check takes all of `0.0.0.0/8` besides the reserved ranges. -/
theorem isInternalIpv4_iff (ip : Ipv4Addr) :
    isInternalIpv4 ip = true ↔ Reserved4 ip ∨ FirstBits 8 ip 0 := by
  have hlt := ip.isLt
  have h0 := octet_toNat ip 0
  have h1 := octet_toNat ip 1
  have hoctets : isInternalIpv4 ip = true ↔
      (ip.octet 0).toNat = 127 ∨ (ip.octet 0).toNat = 10 ∨
      ((ip.octet 0).toNat = 172 ∧ 16 ≤ (ip.octet 1).toNat ∧ (ip.octet 1).toNat ≤ 31) ∨
      ((ip.octet 0).toNat = 192 ∧ (ip.octet 1).toNat = 168) ∨
      ((ip.octet 0).toNat = 169 ∧ (ip.octet 1).toNat = 254) ∨ (ip.octet 0).toNat = 0 := by
    simp only [isInternalIpv4, ← BitVec.toNat_inj, BitVec.le_def]
    split_ifs <;> simp_all
  rw [hoctets, h0, h1, reserved4_toNat, zeroNetwork_toNat]
  omega

theorem append_toNat {m n : Nat} (a : BitVec m) (b : BitVec n) :
    (a ++ b).toNat = a.toNat * 2 ^ n + b.toNat := by
  rw [BitVec.toNat_append, ← Nat.shiftLeft_add_eq_or_of_lt b.isLt, Nat.shiftLeft_eq]

/-- The octets of the last two segments are the address they stand for. -/
theorem mapped_eq (ip : Ipv6Addr) :
    Ipv4Addr.new ((ip.segment 6 >>> 8).setWidth 8) ((ip.segment 6 &&& 0xff).setWidth 8)
      ((ip.segment 7 >>> 8).setWidth 8) ((ip.segment 7 &&& 0xff).setWidth 8) =
      ip.setWidth 32 := by
  have hlow : ∀ s : BitVec 16, (s &&& 0xff).setWidth 8 = s.setWidth 8 := by
    intro s
    rw [BitVec.setWidth_and, show (0xff : BitVec 16).setWidth 8 = BitVec.allOnes 8 by decide,
      BitVec.and_allOnes]
  have h6 := segment_toNat ip 6
  have h7 := segment_toNat ip 7
  rw [hlow, hlow, ← BitVec.toNat_inj, Ipv4Addr.new, append_toNat, append_toNat, append_toNat]
  simp only [BitVec.toNat_setWidth, BitVec.toNat_ushiftRight, Nat.shiftRight_eq_div_pow, h6, h7,
    Nat.reduceSub, Nat.reduceMul, Nat.reducePow]
  omega

/-- The first `m` segments are zero for the addresses below a power of two. -/
theorem segments_zero_iff (ip : Ipv6Addr) {m : Nat} (hm : m ≤ 8) :
    (∀ i < m, ip.segment i = 0) ↔ ip.toNat < 2 ^ (128 - 16 * m) := by
  induction m with
  | zero => exact iff_of_true nofun ip.isLt
  | succ m ih =>
      have hseg : ip.segment m = 0 ↔ ip.toNat / 2 ^ (112 - 16 * m) % 65536 = 0 := by
        rw [← BitVec.toNat_inj, segment_toNat]
        rfl
      have hpow : 2 ^ (128 - 16 * m) = 65536 * 2 ^ (112 - 16 * m) := by
        rw [show 128 - 16 * m = 16 + (112 - 16 * m) by omega, Nat.pow_add]
      have hpos : 0 < 2 ^ (112 - 16 * m) := Nat.two_pow_pos _
      rw [Nat.forall_lt_succ_right, ih (by omega), hseg, hpow,
        show 128 - 16 * (m + 1) = 112 - 16 * m by omega]
      constructor
      · intro ⟨hlt, hzero⟩
        have hquot : ip.toNat / 2 ^ (112 - 16 * m) < 65536 :=
          (Nat.div_lt_iff_lt_mul hpos).mpr hlt
        rw [Nat.mod_eq_of_lt hquot] at hzero
        exact (Nat.div_eq_zero_iff_lt hpos).mp hzero
      · intro hlt
        rw [Nat.div_eq_of_lt hlt]
        exact ⟨by omega, rfl⟩

/-- An equation between lists of segments, one by one. -/
theorem segment_of_map {ip : Ipv6Addr} {n i : Nat} {l : List (BitVec 16)}
    (h : (List.range n).map ip.segment = l) (hi : i < n) : l[i]? = some (ip.segment i) := by
  rw [← h, List.getElem?_map, List.getElem?_range hi]
  rfl

theorem segment_eq_zero {ip : Ipv6Addr} {m n : Nat} {l : List (BitVec 16)}
    (h : (List.range n).map ip.segment = l) (hmn : m ≤ n) (hl : ∀ i < m, l[i]? = some 0) :
    ∀ i < m, ip.segment i = 0 := by
  intro i hi
  have hget := segment_of_map h (Nat.lt_of_lt_of_le hi hmn)
  rw [hl i hi] at hget
  exact (Option.some.inj hget).symm

theorem segments_one (ip : Ipv6Addr) :
    (List.range 8).map ip.segment = [0, 0, 0, 0, 0, 0, 0, 1] ↔ ip = 1 := by
  constructor
  · intro h
    have hzero : ∀ i < 7, ip.segment i = 0 := segment_eq_zero h (by decide) (by decide)
    have hlast : 1 = ip.segment 7 := Option.some.inj (segment_of_map h (by decide : 7 < 8))
    have hsmall := (segments_zero_iff ip (by decide)).mp hzero
    have hone := segment_toNat ip 7
    rw [← hlast] at hone
    rw [← BitVec.toNat_inj]
    have h1 : (1 : BitVec 16).toNat = 1 := rfl
    have h2 : (1 : Ipv6Addr).toNat = 1 := rfl
    rw [h1] at hone
    rw [h2]
    omega
  · rintro rfl
    decide

theorem segments_mapped (ip : Ipv6Addr) :
    ((List.range 5).map ip.segment = [0, 0, 0, 0, 0] ∧ ip.segment 5 = 0xffff) ↔
      FirstBits 96 ip (Ipv6Addr.ofSegments [0, 0, 0, 0, 0, 0xffff, 0, 0]) := by
  have hrange : (Ipv6Addr.ofSegments [0, 0, 0, 0, 0, 0xffff, 0, 0]).toNat = 65535 * 2 ^ 32 := by
    decide
  have hzero : (List.range 5).map ip.segment = [0, 0, 0, 0, 0] ↔ ∀ i < 5, ip.segment i = 0 := by
    constructor
    · exact fun h => segment_eq_zero h (Nat.le_refl 5) (by decide)
    · intro h
      show [ip.segment 0, ip.segment 1, ip.segment 2, ip.segment 3, ip.segment 4] = _
      rw [h 0 (by decide), h 1 (by decide), h 2 (by decide), h 3 (by decide), h 4 (by decide)]
  have hseg : ip.segment 5 = 0xffff ↔ ip.toNat / 2 ^ 32 % 65536 = 65535 := by
    rw [← BitVec.toNat_inj, segment_toNat]
    rfl
  rw [hzero, segments_zero_iff ip (by decide), hseg, firstBits_iff_div (by decide), hrange]
  omega

/-- A mask on the first segment looks at the first bits of the address. -/
theorem segment_mask (ip : Ipv6Addr) {n : Nat} (hn : n ≤ 16) (first : Nat)
    (hfirst : first < 65536) :
    ip.segment 0 &&& mask 16 n = BitVec.ofNat 16 first &&& mask 16 n ↔
      FirstBits n ip (Ipv6Addr.ofSegments [first, 0, 0, 0, 0, 0, 0, 0]) := by
  have hrange : (Ipv6Addr.ofSegments [first, 0, 0, 0, 0, 0, 0, 0]).toNat = first * 2 ^ 112 := by
    have hlt : first * 2 ^ 112 < 65536 * 2 ^ 112 :=
      (Nat.mul_lt_mul_right (Nat.two_pow_pos 112)).mpr hfirst
    rw [Ipv6Addr.ofSegments, BitVec.toNat_ofNat, ← Nat.mod_eq_of_lt hlt]
    simp only [List.foldl_cons, List.foldl_nil, Nat.zero_mul, Nat.zero_add, Nat.add_zero,
      Nat.mul_assoc, Nat.reduceMul, Nat.reducePow]
  have hpow : 2 ^ (128 - n) = 2 ^ 112 * 2 ^ (16 - n) := by
    rw [show 128 - n = 112 + (16 - n) by omega, Nat.pow_add]
  have hlt : ip.toNat / 2 ^ 112 < 65536 := by
    have hip := ip.isLt
    omega
  rw [mask_eq_iff hn, firstBits_iff_div hn, firstBits_iff_div (by omega), hrange, segment_toNat,
    BitVec.toNat_ofNat, hpow, ← Nat.div_div_eq_div_mul, ← Nat.div_div_eq_div_mul,
    Nat.mul_div_cancel _ (Nat.two_pow_pos 112), Nat.mod_eq_of_lt hfirst]
  show ip.toNat / 2 ^ 112 % 65536 / _ = _ ↔ _
  rw [Nat.mod_eq_of_lt hlt]

theorem uniqueLocal_iff (ip : Ipv6Addr) : ip.segment 0 &&& 0xfe00 = 0xfc00 ↔
    FirstBits 7 ip (Ipv6Addr.ofSegments [0xfc00, 0, 0, 0, 0, 0, 0, 0]) := by
  rw [← segment_mask ip (by decide) 0xfc00 (by decide)]
  exact Iff.rfl

theorem linkLocal_iff (ip : Ipv6Addr) : ip.segment 0 &&& 0xffc0 = 0xfe80 ↔
    FirstBits 10 ip (Ipv6Addr.ofSegments [0xfe80, 0, 0, 0, 0, 0, 0, 0]) := by
  rw [← segment_mask ip (by decide) 0xfe80 (by decide)]
  exact Iff.rfl

/-- The strict check knows all the reserved ranges but the unspecified address,
and takes `0.0.0.0/8` of IPv4 with them. -/
theorem isInternalIpv6_iff (ip : Ipv6Addr) :
    isInternalIpv6 ip = true ↔
      ip = 1 ∨ FirstBits 7 ip (Ipv6Addr.ofSegments [0xfc00, 0, 0, 0, 0, 0, 0, 0]) ∨
        FirstBits 10 ip (Ipv6Addr.ofSegments [0xfe80, 0, 0, 0, 0, 0, 0, 0]) ∨
        FirstBits 96 ip (Ipv6Addr.ofSegments [0, 0, 0, 0, 0, 0xffff, 0, 0]) ∧
          (Reserved4 (ip.setWidth 32) ∨ FirstBits 8 (ip.setWidth 32) 0) := by
  -- A mapped address has nothing in its first segment.
  have hfirst : FirstBits 96 ip (Ipv6Addr.ofSegments [0, 0, 0, 0, 0, 0xffff, 0, 0]) →
      ip.segment 0 = 0 := by
    intro h
    have hmapped := (segments_mapped ip).mpr h
    exact (Option.some.inj (segment_of_map hmapped.1 (by decide : 0 < 5))).symm
  rw [← uniqueLocal_iff, ← linkLocal_iff]
  simp only [isInternalIpv6, segments_one, mapped_eq]
  by_cases hone : ip = 1
  · rw [if_pos hone]
    exact iff_of_true rfl (.inl hone)
  · rw [if_neg hone]
    by_cases hmapped : FirstBits 96 ip (Ipv6Addr.ofSegments [0, 0, 0, 0, 0, 0xffff, 0, 0])
    · rw [if_pos ((segments_mapped ip).mpr hmapped), isInternalIpv4_iff, hfirst hmapped]
      have hnot : ¬ (0 : BitVec 16) &&& 0xfe00 = 0xfc00 ∧
          ¬ (0 : BitVec 16) &&& 0xffc0 = 0xfe80 := by
        decide
      simp only [hone, hnot.1, hnot.2, hmapped, true_and, false_or]
    · rw [if_neg fun h => hmapped ((segments_mapped ip).mp h)]
      simp only [hone, hmapped, false_and, or_false, false_or]
      by_cases hu : ip.segment 0 &&& 0xfe00 = 0xfc00
      · rw [if_pos hu]
        exact iff_of_true rfl (.inl hu)
      · rw [if_neg hu]
        by_cases hl : ip.segment 0 &&& 0xffc0 = 0xfe80
        · rw [if_pos hl]
          exact iff_of_true rfl (.inr hl)
        · rw [if_neg hl]
          exact iff_of_false Bool.false_ne_true (not_or.mpr ⟨hu, hl⟩)

theorem not_reserved4 {ip : Ipv4Addr} (h : isInternalIpv4 ip = false) : ¬ Reserved4 ip := by
  intro hr
  rw [(isInternalIpv4_iff ip).mpr (.inl hr)] at h
  cases h

/-- The unspecified address is the one reserved address that is not internal. -/
theorem not_reserved6 {ip : Ipv6Addr} (h : isInternalIpv6 ip = false) (hne : ip ≠ 0) :
    ¬ Reserved6 ip := by
  intro hr
  have hinternal : isInternalIpv6 ip = true := by
    rw [isInternalIpv6_iff]
    rcases hr with hr | hr | hr | hr | ⟨hr, hr4⟩
    · exact .inl hr
    · exact absurd hr hne
    · exact .inr (.inl hr)
    · exact .inr (.inr (.inl hr))
    · exact .inr (.inr (.inr ⟨hr, .inl hr4⟩))
  rw [hinternal] at h
  cases h

/-! ## The rules -/

/-- The length of a rule is at most the width of its addresses. -/
def AllowedRange.Bounded : AllowedRange → Prop
  | .cidrV4 _ prefixLen => prefixLen ≤ 32
  | .cidrV6 _ prefixLen => prefixLen ≤ 128
  | .domain _ => True

theorem cidr_iff {w n : Nat} (hn : n ≤ w) (ip network : BitVec w) :
    (if n = 0 then true
      else if w < n then false
      else
        let mask := if n = w then BitVec.allOnes w else BitVec.allOnes w <<< (w - n)
        decide (ip &&& mask = network &&& mask)) = true ↔ FirstBits n ip network := by
  by_cases hzero : n = 0
  · subst hzero
    exact iff_of_true rfl nofun
  · have hmask : (if n = w then BitVec.allOnes w else BitVec.allOnes w <<< (w - n)) = mask w n := by
      split
      next heq =>
        subst heq
        rw [mask, Nat.sub_self, BitVec.shiftLeft_zero]
      next => rfl
    rw [if_neg hzero, if_neg (Nat.not_lt.mpr hn), hmask, decide_eq_true_iff]
    exact mask_eq_iff hn

/-- A rule covers what it is there to cover. -/
theorem covers_iff {rule : AllowedRange} (h : rule.Bounded) (host : Host) :
    rule.covers host = true ↔ Covers rule host := by
  cases rule with
  | cidrV4 network prefixLen =>
      cases host with
      | ipv4 ip => exact cidr_iff h ip network
      | domain | ipv6 => exact iff_of_false Bool.false_ne_true id
  | cidrV6 network prefixLen =>
      cases host with
      | ipv6 ip => exact cidr_iff h ip network
      | domain | ipv4 => exact iff_of_false Bool.false_ne_true id
  | domain suffix =>
      cases host with
      | domain name =>
          simp only [AllowedRange.covers, Covers, Bool.or_eq_true, decide_eq_true_iff]
          exact or_congr_right (exists_congr fun label => eq_comm)
      | ipv4 | ipv6 => exact iff_of_false Bool.false_ne_true id

theorem parseCidr_ok {α : Type} {fromStr : List Char → Option α} {width : Nat}
    {range : α → Nat → AllowedRange} {s : List Char} {rule : AllowedRange}
    (h : parseCidr fromStr width range s = .ok rule) :
    ∃ network prefixLen, prefixLen ≤ width ∧ rule = range network prefixLen := by
  rw [parseCidr] at h
  split at h
  next => cases h
  next =>
    split at h
    next network prefixLen _ _ =>
      split at h
      next => cases h
      next hle =>
        injection h with h
        exact ⟨network, prefixLen, Nat.not_lt.mp hle, h.symm⟩
    next => cases h

theorem bounded_of_parseAllowed {s : List Char} {rule : AllowedRange}
    (h : parseAllowed s = .ok rule) : rule.Bounded := by
  simp only [parseAllowed] at h
  split_ifs at h
  next =>
    obtain ⟨network, prefixLen, hle, rfl⟩ := parseCidr_ok h
    exact hle
  next =>
    obtain ⟨network, prefixLen, hle, rfl⟩ := parseCidr_ok h
    exact hle
  next =>
    injection h with h
    subst h
    trivial

/-- An allowlist that is accepted is made of bounded rules, and is enabled
unless it is empty. -/
theorem fromCsv_ok {raw : String} {p : SsrfPolicy} (h : SsrfPolicy.fromCsv raw = .ok p) :
    (∀ rule ∈ p.allowlist, rule.Bounded) ∧ p.allowlistEnabled = !p.allowlist.isEmpty := by
  simp only [SsrfPolicy.fromCsv] at h
  split at h
  next => cases h
  next =>
    injection h with h
    subst h
    refine ⟨fun rule hrule => ?_, rfl⟩
    obtain ⟨entry, _, hentry⟩ := List.mem_filterMap.mp hrule
    cases hparse : parseAllowed entry with
    | error e =>
        rw [hparse] at hentry
        cases hentry
    | ok rule' =>
        rw [hparse] at hentry
        injection hentry with hentry
        subst hentry
        exact bounded_of_parseAllowed hparse

/-! ## The policy -/

/-- Some rule of the allowlist covers the host. -/
def SsrfPolicy.Covered (p : SsrfPolicy) (host : Host) : Prop :=
  ∃ rule ∈ p.allowlist, Covers rule host

/-- A host that may be asked without being listed. -/
def Public : Host → Prop
  | .domain name =>
      toAsciiLowercase name.toList ≠ "localhost".toList ∧
        toAsciiLowercase name.toList ≠ "localhost.".toList
  | .ipv4 ip => ¬ Reserved4 ip
  | .ipv6 ip => ¬ Reserved6 ip

def Url.IsHttp (url : Url) : Prop := url.scheme = "http" ∨ url.scheme = "https"

/-- An endpoint a policy may let through. -/
def SsrfPolicy.Admits (p : SsrfPolicy) (url : Url) : Prop :=
  url.IsHttp ∧ ∃ host, url.host = some host ∧ (p.Covered host ∨ Public host)

/-- The hosts the strict check misses. -/
def Missed : Host → Prop
  | .domain name => toAsciiLowercase name.toList = "localhost.".toList
  | .ipv4 _ => False
  | .ipv6 ip => ip = 0

/-- A covered host comes with the right scheme, and one that is not covered is
neither `localhost.` nor the unspecified address of IPv6. -/
def SsrfPolicy.Ok (p : SsrfPolicy) (url : Url) : Prop :=
  ∀ host, url.host = some host →
    (p.Covered host → url.IsHttp) ∧ (¬ p.Covered host → url.IsHttp → ¬ Missed host)

theorem isInAllowlist_iff {p : SsrfPolicy} {raw : String} (h : SsrfPolicy.fromCsv raw = .ok p)
    {url : Url} {host : Host} (hhost : url.host = some host) :
    p.isInAllowlist (some url) = true ↔ p.Covered host := by
  obtain ⟨hbounded, henabled⟩ := fromCsv_ok h
  rw [SsrfPolicy.isInAllowlist, henabled, Bool.not_not]
  simp only [hhost]
  split
  next hempty =>
    refine iff_of_false Bool.false_ne_true fun ⟨rule, hrule, _⟩ => ?_
    rw [List.isEmpty_iff.mp hempty] at hrule
    cases hrule
  next =>
    rw [List.any_eq_true]
    refine exists_congr fun rule => and_congr_right fun hrule => ?_
    exact covers_iff (hbounded rule hrule) host

/-- What the strict check lets through is public, or missed. -/
theorem public_of_strict {url : Url} (h : isInternalEndpointStrict (some url) = false) :
    url.IsHttp ∧ ∃ host, url.host = some host ∧ (Public host ∨ Missed host) := by
  simp only [isInternalEndpointStrict] at h
  split at h
  next => cases h
  next hscheme =>
    have hhttp : url.IsHttp := by
      by_cases hs : url.scheme = "http"
      · exact .inl hs
      · exact .inr (not_not.mp fun hs' => hscheme ⟨hs, hs'⟩)
    refine ⟨hhttp, ?_⟩
    split at h
    next name hhost =>
      refine ⟨_, hhost, ?_⟩
      by_cases hmissed : toAsciiLowercase name.toList = "localhost.".toList
      · exact .inr hmissed
      · exact .inl ⟨of_decide_eq_false h, hmissed⟩
    next ip hhost => exact ⟨_, hhost, .inl (not_reserved4 h)⟩
    next ip hhost =>
      refine ⟨_, hhost, ?_⟩
      by_cases hzero : ip = 0
      · exact .inr hzero
      · exact .inl (not_reserved6 h hzero)
    next => cases h

theorem strict_of_missed {url : Url} {host : Host} (hhttp : url.IsHttp)
    (hhost : url.host = some host) (hmissed : Missed host) :
    isInternalEndpointStrict (some url) = false := by
  have hscheme : ¬ (url.scheme ≠ "http" ∧ url.scheme ≠ "https") := by
    intro ⟨h1, h2⟩
    exact hhttp.elim h1 h2
  simp only [isInternalEndpointStrict, if_neg hscheme, hhost]
  cases host with
  | domain name =>
      have hlower : toAsciiLowercase name.toList = "localhost.".toList := hmissed
      show decide (toAsciiLowercase name.toList = "localhost".toList) = false
      rw [hlower]
      decide
  | ipv4 ip => exact hmissed.elim
  | ipv6 ip =>
      have hzero : ip = 0 := hmissed
      subst hzero
      show isInternalIpv6 0 = false
      decide

theorem not_public_of_missed {host : Host} (h : Missed host) : ¬ Public host := by
  intro hpublic
  cases host with
  | domain name => exact hpublic.2 h
  | ipv4 ip => exact h
  | ipv6 ip => exact hpublic (.inr (.inl h))

section
variable {raw : String} {p : SsrfPolicy} (hp : SsrfPolicy.fromCsv raw = .ok p)
  {parse : String → Option Url} {url : String} {u : Url} {host : Host}
/-- Without a host no rule is asked, and the strict check refuses. -/
theorem host_of_passes (h : p.isInternalEndpoint parse url = false) :
    ∃ u host, parse url = some u ∧ u.host = some host := by
  rw [SsrfPolicy.isInternalEndpoint] at h
  cases hparse : parse url with
  | none =>
      rw [hparse] at h
      simp only [SsrfPolicy.isInAllowlist, isInternalEndpointStrict, ite_self,
        Bool.false_eq_true, if_false] at h
      cases h
  | some u =>
      cases hhost : u.host with
      | some host => exact ⟨u, host, rfl, hhost⟩
      | none =>
          rw [hparse] at h
          simp only [SsrfPolicy.isInAllowlist, isInternalEndpointStrict, hhost, ite_self,
            Bool.false_eq_true, if_false] at h
          cases h

include hp

theorem passes_of_covered (hparse : parse url = some u) (hhost : u.host = some host)
    (hcovered : p.Covered host) : p.isInternalEndpoint parse url = false := by
  rw [SsrfPolicy.isInternalEndpoint, hparse, (isInAllowlist_iff hp hhost).mpr hcovered, if_pos rfl]

theorem strict_of_not_covered (hparse : parse url = some u) (hhost : u.host = some host)
    (hcovered : ¬ p.Covered host) :
    p.isInternalEndpoint parse url = isInternalEndpointStrict (some u) := by
  have hnot : p.isInAllowlist (some u) ≠ true := mt (isInAllowlist_iff hp hhost).mp hcovered
  rw [SsrfPolicy.isInternalEndpoint, hparse, if_neg hnot]

/-- The policy lets only admissible endpoints through just in case a covered
host comes with the right scheme and the host is not one the strict check
misses. The rules cover what they should. -/
theorem admits_iff_ok (parse : String → Option Url) (url : String) :
    ((p.isInternalEndpoint parse url = false → ∃ u, parse url = some u ∧ p.Admits u) ↔
        ∀ u, parse url = some u → p.Ok u) ∧
      ∀ rule ∈ p.allowlist, ∀ host, rule.covers host = true ↔ Covers rule host := by
  refine ⟨⟨fun hadmits u hparse host hhost => ?_, fun hok hpasses => ?_⟩,
    fun rule hrule => covers_iff ((fromCsv_ok hp).1 rule hrule)⟩
  · have hpasses : p.isInternalEndpoint parse url = false → p.Admits u := by
      intro h
      obtain ⟨u', hparse', hu'⟩ := hadmits h
      rw [hparse] at hparse'
      cases hparse'
      exact hu'
    constructor
    · intro hcovered
      exact (hpasses (passes_of_covered hp hparse hhost hcovered)).1
    · intro hcovered hhttp hmissed
      have hstrict := strict_of_not_covered hp hparse hhost hcovered
      rw [strict_of_missed hhttp hhost hmissed] at hstrict
      obtain ⟨_, host', hhost', hor⟩ := hpasses hstrict
      rw [hhost] at hhost'
      cases hhost'
      exact hor.elim hcovered (not_public_of_missed hmissed)
  · obtain ⟨u, host, hparse, hhost⟩ := host_of_passes hpasses
    have hu := hok u hparse host hhost
    refine ⟨u, hparse, ?_⟩
    by_cases hcovered : p.Covered host
    · exact ⟨hu.1 hcovered, host, hhost, .inl hcovered⟩
    · rw [strict_of_not_covered hp hparse hhost hcovered] at hpasses
      obtain ⟨hhttp, host', hhost', hor⟩ := public_of_strict hpasses
      rw [hhost] at hhost'
      cases hhost'
      exact ⟨hhttp, host, hhost, .inr (hor.resolve_right (hu.2 hcovered hhttp))⟩

end

/-- A table for a parser of URLs. -/
def parsed (table : List (String × Url)) (url : String) : Option Url :=
  (table.find? (·.1 = url)).map (·.2)

/-- The policy of the allowlist `10.0.0.0/8`. -/
def tenPolicy : SsrfPolicy := ⟨[.cidrV4 (.new 10 0 0 0) 8], true⟩

theorem fromCsv_ten : SsrfPolicy.fromCsv "10.0.0.0/8" = .ok tenPolicy := by rfl

theorem admits_iff_ok_private :
    let parse := parsed [("https://10.1.2.3/", ⟨"https", some (.ipv4 (.new 10 1 2 3))⟩)]
    tenPolicy.isInternalEndpoint parse "https://10.1.2.3/" = false ∧
      ((tenPolicy.isInternalEndpoint parse "https://10.1.2.3/" = false →
          ∃ u, parse "https://10.1.2.3/" = some u ∧ tenPolicy.Admits u) ↔
        ∀ u, parse "https://10.1.2.3/" = some u → tenPolicy.Ok u) := by
  intro parse
  exact ⟨by decide, (admits_iff_ok fromCsv_ten parse _).1⟩

/-- A listed address asked over FTP, `localhost` with a trailing dot, and the
unspecified address of IPv6. -/
def missedUrls : List (String × Url) :=
  [("ftp://10.0.0.5/", ⟨"ftp", some (.ipv4 (.new 10 0 0 5))⟩),
   ("http://localhost./", ⟨"http", some (.domain "localhost.")⟩),
   ("http://[::]/", ⟨"http", some (.ipv6 0)⟩)]

theorem not_admits_missed :
    SsrfPolicy.fromCsv "10.0.0.0/8" = .ok tenPolicy ∧
      ∀ entry ∈ missedUrls,
        tenPolicy.isInternalEndpoint (parsed missedUrls) entry.1 = false ∧
          ¬ ∃ u, parsed missedUrls entry.1 = some u ∧ tenPolicy.Admits u := by
  have hcovered : ∀ host, tenPolicy.Covered host → ∃ ip, host = .ipv4 ip := by
    intro host ⟨rule, hrule, hcovers⟩
    cases List.mem_singleton.mp hrule
    cases host with
    | ipv4 ip => exact ⟨ip, rfl⟩
    | domain name => exact hcovers.elim
    | ipv6 ip => exact hcovers.elim
  refine ⟨fromCsv_ten, ?_⟩
  rw [missedUrls, List.forall_mem_cons, List.forall_mem_cons, List.forall_mem_singleton]
  refine ⟨⟨by decide, ?_⟩, ⟨by decide, ?_⟩, by decide, ?_⟩
  · rintro ⟨u, hu, hhttp, _⟩
    cases hu
    have hscheme : ¬ ("ftp" = "http" ∨ "ftp" = "https") := by decide
    exact hscheme hhttp
  · rintro ⟨u, hu, _, host, hhost, hor⟩
    cases hu
    cases hhost
    rcases hor with hlisted | hpublic
    · obtain ⟨ip, hip⟩ := hcovered _ hlisted
      cases hip
    · exact hpublic.2 (by decide)
  · rintro ⟨u, hu, _, host, hhost, hor⟩
    cases hu
    cases hhost
    rcases hor with hlisted | hpublic
    · obtain ⟨ip, hip⟩ := hcovered _ hlisted
      cases hip
    · exact hpublic (.inr (.inl rfl))

end Pandaria.Agent
