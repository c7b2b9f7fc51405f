import Mathlib.Data.BitVec
import Pandaria.Ai.Types
import Pandaria.Lib.Bits

/-!
# The SSRF policy

`agent-core/src/utils/ssrf.rs`: which endpoints a tool or a webhook may not
have. The parser of URLs is that of the crate `url`, a parameter here; what it
has to say is the scheme and the host.
-/

/-! ## Addresses and how they are read

`Ipv4Addr` and `Ipv6Addr` of the standard library, as words with the first
octet or segment at the top, and their `FromStr`. A parser takes what it needs
from the front of the text and returns the rest with what it has read. -/

namespace Pandaria.Agent

abbrev Ipv4Addr := BitVec 32

abbrev Ipv6Addr := BitVec 128

namespace Ipv4Addr

def new (a b c d : BitVec 8) : Ipv4Addr := a ++ b ++ c ++ d

/-- `octets()[i]`. -/
def octet (ip : Ipv4Addr) (i : Nat) : BitVec 8 := ip.extractLsb' (24 - 8 * i) 8

end Ipv4Addr

namespace Ipv6Addr

/-- `segments()[i]`. -/
def segment (ip : Ipv6Addr) (i : Nat) : BitVec 16 := ip.extractLsb' (112 - 16 * i) 16

def ofSegments (segments : List Nat) : Ipv6Addr :=
  BitVec.ofNat 128 (segments.foldl (fun n s => n * 65536 + s) 0)

end Ipv6Addr

/-! ## Reading -/

/-- `char::to_digit`. -/
def toDigit (radix : Nat) (c : Char) : Option Nat :=
  let n := c.toNat
  let digit :=
    if 48 ≤ n ∧ n ≤ 57 then n - 48
    else if 97 ≤ n ∧ n ≤ 122 then n - 87
    else if 65 ≤ n ∧ n ≤ 90 then n - 55
    else radix
  if digit < radix then some digit else none

/-- `read_number`, for numbers up to `max`. -/
def readNumber (radix maxDigits max : Nat) (allowZeroPrefix : Bool) (text : List Char) :
    Option (Nat × List Char) :=
  let digits := text.takeWhile fun c => (toDigit radix c).isSome
  let value := (digits.filterMap (toDigit radix)).foldl (fun n d => n * radix + d) 0
  if digits = [] ∨ maxDigits < digits.length ∨ max < value then none
  else if !allowZeroPrefix && decide (digits.head? = some '0' ∧ 1 < digits.length) then none
  else some (value, text.drop digits.length)

/-- `read_separator`: all but the first one have `sep` before them. -/
def readSeparator {α : Type} (sep : Char) (index : Nat) (inner : List Char → Option α)
    (text : List Char) : Option α :=
  if index = 0 then inner text
  else match text with
    | c :: rest => if c = sep then inner rest else none
    | [] => none

/-- `read_ipv4_addr`. -/
def readIpv4 (text : List Char) : Option (Ipv4Addr × List Char) := do
  let octet := fun i => readSeparator '.' i (readNumber 10 3 255 false)
  let (a, text) ← octet 0 text
  let (b, text) ← octet 1 text
  let (c, text) ← octet 2 text
  let (d, text) ← octet 3 text
  some (.new (.ofNat 8 a) (.ofNat 8 b) (.ofNat 8 c) (.ofNat 8 d), text)

/-- `read_groups`: up to `left` more groups, the last two of them possibly an
IPv4 address. -/
def readGroups : (left : Nat) → (groups : List Nat) → List Char → List Nat × Bool × List Char
  | 0, groups, text => (groups, false, text)
  | left + 1, groups, text =>
      let ipv4 := if 0 < left then readSeparator ':' groups.length readIpv4 text else none
      match ipv4 with
      | some (ip, text) => (groups ++ [ip.toNat / 65536, ip.toNat % 65536], true, text)
      | none =>
          match readSeparator ':' groups.length (readNumber 16 4 65535 true) text with
          | some (group, text) => readGroups left (groups ++ [group]) text
          | none => (groups, false, text)

/-- `read_ipv6_addr`. -/
def readIpv6 (text : List Char) : Option (Ipv6Addr × List Char) :=
  let (head, headIpv4, text) := readGroups 8 [] text
  if head.length = 8 then some (.ofSegments head, text)
  else if headIpv4 then none
  else match text with
    | ':' :: ':' :: text =>
        let (tail, _, text) := readGroups (8 - (head.length + 1)) [] text
        let zeroes := List.replicate (8 - tail.length - head.length) 0
        some (.ofSegments (head ++ zeroes ++ tail), text)
    | _ => none

/-- The whole text has to be read. -/
def parseWith {α : Type} (inner : List Char → Option (α × List Char)) (text : List Char) :
    Option α :=
  match inner text with
  | some (a, []) => some a
  | _ => none

/-- `Ipv4Addr::from_str`. -/
def Ipv4Addr.fromStr (text : List Char) : Option Ipv4Addr :=
  if 15 < text.length then none else parseWith readIpv4 text

/-- `Ipv6Addr::from_str`. -/
def Ipv6Addr.fromStr (text : List Char) : Option Ipv6Addr := parseWith readIpv6 text

/-- `str::parse::<u8>`. -/
def parseU8 (text : List Char) : Option Nat :=
  let digits := match text with
    | '+' :: rest => rest
    | _ => text
  let value := (digits.filterMap (toDigit 10)).foldl (fun n d => n * 10 + d) 0
  if digits = [] ∨ digits.any (fun c => (toDigit 10 c).isNone) ∨ 255 < value then none
  else some value

example : Ipv4Addr.fromStr "192.168.0.1".toList = some 0xc0a80001 := by decide
example : Ipv4Addr.fromStr "192.168.00.1".toList = none := by decide
example : Ipv6Addr.fromStr "::ffff:10.0.0.1".toList = some 0xffff0a000001 := by decide
example : Ipv6Addr.fromStr "fe80::1:2".toList = some 0xfe800000000000000000000000010002 := by
  decide

end Pandaria.Agent

/-! ## Hosts and URLs -/

namespace Pandaria.Agent

open Pandaria.Ai
open Pandaria.Lib

/-- `url::Host`. -/
inductive Host where
  | domain (name : String)
  | ipv4 (ip : Ipv4Addr)
  | ipv6 (ip : Ipv6Addr)
deriving DecidableEq

/-- `url::Url`, as far as the policy looks at it. -/
structure Url where
  scheme : String
  host : Option Host
deriving DecidableEq

/-! ## The allowlist -/

inductive AllowedRange where
  | cidrV4 (network : Ipv4Addr) (prefixLen : Nat)
  | cidrV6 (network : Ipv6Addr) (prefixLen : Nat)
  | domain (suffix : List Char)
deriving DecidableEq

inductive SsrfParseError where
  | empty
  | invalidCidr
  | invalidDomain
  | allInvalid
deriving DecidableEq

/-- `str::to_ascii_lowercase`. -/
def toAsciiLowercase (s : List Char) : List Char := s.map Char.toLower

/-- `str::split_once('/')`. -/
def splitOnce (s : List Char) : Option (List Char × List Char) :=
  if '/' ∈ s then
    let addr := s.takeWhile (· ≠ '/')
    some (addr, s.drop (addr.length + 1))
  else none

/-- The two kinds of CIDR entry: an address and a length of at most `width`. -/
def parseCidr {α : Type} (fromStr : List Char → Option α) (width : Nat)
    (range : α → Nat → AllowedRange) (s : List Char) : Except SsrfParseError AllowedRange :=
  match splitOnce s with
  | none => .error .invalidCidr
  | some (addr, len) =>
      match fromStr addr, parseU8 len with
      | some network, some prefixLen =>
          if width < prefixLen then .error .invalidCidr else .ok (range network prefixLen)
      | _, _ => .error .invalidCidr

def parseAllowed (input : List Char) : Except SsrfParseError AllowedRange :=
  let s := trim input
  if s = [] then .error .empty
  else if ':' ∈ s then parseCidr Ipv6Addr.fromStr 128 .cidrV6 s
  else if '/' ∈ s then parseCidr Ipv4Addr.fromStr 32 .cidrV4 s
  else if (Ipv4Addr.fromStr s).isSome then .error .invalidCidr
  else if '/' ∈ s then .error .invalidDomain
  else .ok (.domain (toAsciiLowercase s))

structure SsrfPolicy where
  allowlist : List AllowedRange
  allowlistEnabled : Bool

namespace SsrfPolicy

/-- `from_csv`: entries that cannot be parsed are skipped, unless all are. -/
def fromCsv (raw : String) : Except SsrfParseError SsrfPolicy :=
  let entries := ((raw.toList.splitOn ',').map trim).filter (· ≠ [])
  let allowlist := entries.filterMap fun entry => (parseAllowed entry).toOption
  if entries ≠ [] ∧ allowlist = [] then .error .allInvalid
  else .ok { allowlist := allowlist, allowlistEnabled := !allowlist.isEmpty }

end SsrfPolicy

def ipv4Matches (ip network : Ipv4Addr) (prefixLen : Nat) : Bool :=
  if prefixLen = 0 then true
  else if 32 < prefixLen then false
  else
    let mask :=
      if prefixLen = 32 then BitVec.allOnes 32 else BitVec.allOnes 32 <<< (32 - prefixLen)
    ip &&& mask = network &&& mask

def ipv6Matches (ip network : Ipv6Addr) (prefixLen : Nat) : Bool :=
  if prefixLen = 0 then true
  else if 128 < prefixLen then false
  else
    let mask :=
      if prefixLen = 128 then BitVec.allOnes 128 else BitVec.allOnes 128 <<< (128 - prefixLen)
    ip &&& mask = network &&& mask

/-- The body of the loop of `is_in_allowlist`. -/
def AllowedRange.covers (rule : AllowedRange) (host : Host) : Bool :=
  match rule, host with
  | .cidrV4 network prefixLen, .ipv4 ip => ipv4Matches ip network prefixLen
  | .cidrV6 network prefixLen, .ipv6 ip => ipv6Matches ip network prefixLen
  | .domain suffix, .domain name =>
      let lower := toAsciiLowercase name.toList
      decide (lower = suffix) || decide ('.' :: suffix <:+ lower)
  | _, _ => false

/-! ## The strict check -/

/-- The branch of `is_internal_ip` for IPv4. -/
def isInternalIpv4 (ip : Ipv4Addr) : Bool :=
  let o := ip.octet
  if o 0 = 127 then true
  else if o 0 = 10 then true
  else if o 0 = 172 ∧ 16 ≤ o 1 ∧ o 1 ≤ 31 then true
  else if o 0 = 192 ∧ o 1 = 168 then true
  else if o 0 = 169 ∧ o 1 = 254 then true
  else if o 0 = 0 then true
  else false

/-- The branch for IPv6. -/
def isInternalIpv6 (ip : Ipv6Addr) : Bool :=
  let s := ip.segment
  if (List.range 8).map s = [0, 0, 0, 0, 0, 0, 0, 1] then true
  else if (List.range 5).map s = [0, 0, 0, 0, 0] ∧ s 5 = 0xffff then
    isInternalIpv4 (.new ((s 6 >>> 8).setWidth 8) ((s 6 &&& 0xff).setWidth 8)
      ((s 7 >>> 8).setWidth 8) ((s 7 &&& 0xff).setWidth 8))
  else if s 0 &&& 0xfe00 = 0xfc00 then true
  else if s 0 &&& 0xffc0 = 0xfe80 then true
  else false

/-- `is_internal_endpoint_strict`, of a URL the parser has taken apart, or has
rejected. -/
def isInternalEndpointStrict (parsed : Option Url) : Bool :=
  match parsed with
  | none => true
  | some url =>
      if url.scheme ≠ "http" ∧ url.scheme ≠ "https" then true
      else match url.host with
        | some (.domain name) => toAsciiLowercase name.toList = "localhost".toList
        | some (.ipv4 ip) => isInternalIpv4 ip
        | some (.ipv6 ip) => isInternalIpv6 ip
        | none => true

namespace SsrfPolicy

/-- `is_in_allowlist`. -/
def isInAllowlist (p : SsrfPolicy) (parsed : Option Url) : Bool :=
  if !p.allowlistEnabled then false
  else match parsed with
    | none => false
    | some url =>
        match url.host with
        | none => false
        | some host => p.allowlist.any fun rule => rule.covers host

/-- `is_internal_endpoint`, with the parser of URLs. -/
def isInternalEndpoint (p : SsrfPolicy) (parse : String → Option Url) (url : String) : Bool :=
  if p.isInAllowlist (parse url) then false else isInternalEndpointStrict (parse url)

end SsrfPolicy

end Pandaria.Agent

/-!
## The toolkit's check of URLs

`validate_url` of `pawbun-toolkit/src/tools/url_utils.rs`. The parser of URLs is
a parameter: of a URL that parses the check reads what `host_str` gives.
-/

namespace Pandaria.Toolkit

open Pandaria.Agent

/-- `reqwest::Url::parse`, down to `host_str`. -/
abbrev UrlParser := String → Except String (Option String)

/-- Why a URL is refused. -/
inductive UrlError where
  | invalid (e : String)
  | missingHost
  | localhost
  | blockedV4 (ip : Ipv4Addr)
  | blockedV6 (ip : Ipv6Addr)
deriving DecidableEq

def isBlockedIpv4 (ip : Ipv4Addr) : Bool :=
  let o := ip.octet
  o 0 = 127 || (o 0 = 10 || (o 0 = 172 && decide (16 ≤ o 1 ∧ o 1 ≤ 31)) ||
    (o 0 = 192 && o 1 = 168)) || (o 0 = 169 && o 1 = 254) || ip = 0

/-- `fc00::/7`. -/
def isIpv6UniqueLocal (ip : Ipv6Addr) : Bool := ip.segment 0 &&& 0xfe00 = 0xfc00

/-- `fe80::/10`. -/
def isIpv6LinkLocal (ip : Ipv6Addr) : Bool := ip.segment 0 &&& 0xffc0 = 0xfe80

def isBlockedIpv6 (ip : Ipv6Addr) : Bool :=
  ip = 1 || ip = 0 || isIpv6UniqueLocal ip || isIpv6LinkLocal ip

/-- An IPv6 literal is written in brackets. -/
def ipCandidate (host : List Char) : List Char :=
  if host.head? = some '[' then (host.dropWhile (· = '[')).takeWhile (· ≠ ']') else host

def validateUrl (parse : UrlParser) (url : String) : Except UrlError Unit :=
  match parse url with
  | .error e => .error (.invalid e)
  | .ok none => .error .missingHost
  | .ok (some host) =>
      if toAsciiLowercase host.toList = "localhost".toList then .error .localhost
      else
        let candidate := ipCandidate host.toList
        match parseWith readIpv4 candidate, Ipv6Addr.fromStr candidate with
        | some ip, _ => if isBlockedIpv4 ip then .error (.blockedV4 ip) else .ok ()
        | none, some ip => if isBlockedIpv6 ip then .error (.blockedV6 ip) else .ok ()
        | none, none => .ok ()

end Pandaria.Toolkit
