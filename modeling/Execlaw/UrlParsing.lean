import Execlaw.Utf8Text
import Execlaw.WebHosts
import Mathlib.Data.List.DropRight
/-!
# UrlParsing — where a URL has its host

The parser of URLs with the schemes of the web, up to the path.  White space at the ends of a text and tabs and newlines
anywhere are dropped, a backslash counts as a slash, and any number of slashes may stand in front of the authority; the
host is what stands between the last `@` of the authority and the colon of its port.  The parts put together are the
text (`splitUrl_text`).  A host is decoded, made ASCII, and read as an IPv4 address when it ends in a number: of one to
four decimal, octal or hexadecimal parts.
-/
namespace WebUrl

open AddressText

/-! ## Parts of the text -/

def controlOrSpace (c : Char) : Bool := decide (c.toNat ≤ 0x20)

def tabOrNewline (c : Char) : Bool := ['\t', '\n', '\r'].contains c

def stripped (s : List Char) : List Char := (s.dropWhile controlOrSpace).rdropWhile controlOrSpace

def withoutTabs (s : List Char) : List Char := s.filter fun c => !tabOrNewline c

def cleaned (s : List Char) : List Char := withoutTabs (stripped s)

/-- The parts of a URL, as written: the credentials with their `@`, the port with its colon, and the rest from the path
on. -/
structure Parts where
  scheme : List Char
  slashes : List Char
  userinfo : List Char
  host : List Char
  port : List Char
  rest : List Char
deriving DecidableEq

def Parts.before (parts : Parts) : List Char := parts.scheme ++ ':' :: (parts.slashes ++ parts.userinfo)

def Parts.after (parts : Parts) : List Char := parts.port ++ parts.rest

def Parts.text (parts : Parts) : List Char := parts.before ++ parts.host ++ parts.after

def schemeChar (c : Char) : Bool := c.isAlphanum || ['+', '-', '.'].contains c

def slash (c : Char) : Bool := ['/', '\\'].contains c

def inAuthority (c : Char) : Bool := !(['/', '\\', '?', '#'].contains c)

def notAt (c : Char) : Bool := c != '@'

def splitPort : Bool → List Char → List Char × List Char
  | _, [] => ([], [])
  | inside, c :: s =>
    if c = ':' ∧ inside = false then ([], c :: s)
    else
      let more := splitPort (if c = '[' then true else if c = ']' then false else inside) s
      (c :: more.1, more.2)

def splitAuthority (scheme rest : List Char) : Parts :=
  let behind := rest.dropWhile slash
  let authority := behind.takeWhile inAuthority
  let hostPort := splitPort false (authority.rtakeWhile notAt)
  { scheme := scheme, slashes := rest.takeWhile slash, userinfo := authority.rdropWhile notAt,
    host := hostPort.1, port := hostPort.2, rest := behind.dropWhile inAuthority }

def splitUrl (s : List Char) : Option Parts :=
  if s.head?.any Char.isAlpha then
    match s.dropWhile schemeChar with
    | ':' :: rest => some (splitAuthority (s.takeWhile schemeChar) rest)
    | _ => none
  else none

inductive ParseError
  | relativeUrlWithoutBase | emptyHost | idnaError | invalidPort | invalidIpv4Address | invalidIpv6Address
  | invalidDomainCharacter

def hexNibble (b : UInt8) : Option UInt8 :=
  if 0x30 ≤ b && b ≤ 0x39 then some (b - 0x30)
  else if 0x61 ≤ b && b ≤ 0x66 then some (b - 0x61 + 10)
  else if 0x41 ≤ b && b ≤ 0x46 then some (b - 0x41 + 10)
  else none

/-- The byte of the two digits behind a `%`. -/
def afterPercentSign : List UInt8 → Option UInt8
  | h :: l :: _ => (hexNibble h).bind fun hi => (hexNibble l).map fun lo => hi <<< 4 ||| lo
  | _ => none

def percentDecodeFrom : Nat → List UInt8 → List UInt8
  | _, [] => []
  | skip + 1, _ :: bs => percentDecodeFrom skip bs
  | 0, b :: bs =>
    match if b = 0x25 then afterPercentSign bs else none with
    | some value => value :: percentDecodeFrom 2 bs
    | none => b :: percentDecodeFrom 0 bs

def percentDecode (bs : List UInt8) : List UInt8 := percentDecodeFrom 0 bs

def ipv4Parts (s : List Char) : List (List Char) :=
  match (s.splitOn '.').reverse with
  | [] :: part :: parts => (part :: parts).reverse
  | parts => parts.reverse

def ipv4OfValue (value : Nat) : Ipv4 :=
  ⟨.ofNat (value / 2 ^ 24), .ofNat (value / 2 ^ 16), .ofNat (value / 2 ^ 8), .ofNat value⟩

def ipv4Number (numbers : List Nat) : Option Nat :=
  match numbers.reverse with
  | [] => none
  | last :: firsts =>
    if 4 < numbers.length ∨ firsts.any (255 < ·) ∨ 256 ^ (5 - numbers.length) ≤ last then none
    else some (last + (firsts.reverse.zipIdx.map fun p => p.1 * 256 ^ (3 - p.2)).sum)

def parseIpv4 (s : List Char) : Option Ipv4 :=
  ((ipv4Parts s).mapM parseNumber).bind fun numbers => (ipv4Number numbers).map ipv4OfValue

structure Target where
  scheme : List Char
  username : List Char
  password : Option (List Char)
  host : Option Host
  port : Option Nat

structure UrlLib where
  toAscii : List UInt8 → Option (List Char)
  parseIpv6 : List Char → Option Ipv6
  otherScheme : List Char → Except ParseError Target
  toAscii_lower : ∀ bytes text, toAscii bytes = some text → text.map Char.toLower = text

section Lib

variable (lib : UrlLib)

def parseHost (host : List Char) : Except ParseError Host :=
  match host with
  | '[' :: inner =>
    if inner.getLast? = some ']' then
      match lib.parseIpv6 inner.dropLast with
      | some address => .ok (.ipv6 address)
      | none => .error .invalidIpv6Address
    else .error .invalidIpv6Address
  | _ =>
    match h : lib.toAscii (percentDecode (Utf8Text.bytes host)) with
    | none => .error .idnaError
    | some text =>
      if hne : text = [] then .error .emptyHost
      else if hallowed : text.any forbidden = true then .error .invalidDomainCharacter
      else if hnumber : endsInNumber text = true then
        match parseIpv4 text with
        | some address => .ok (.ipv4 address)
        | none => .error .invalidIpv4Address
      else .ok (.domain ⟨text, hne, eq_false_of_ne_true hallowed, lib.toAscii_lower _ _ h,
        eq_false_of_ne_true hnumber⟩)

/-! ## URLs -/

def defaultPort (scheme : List Char) : Option Nat :=
  if scheme = "http".toList ∨ scheme = "ws".toList then some 80
  else if scheme = "https".toList ∨ scheme = "wss".toList then some 443
  else if scheme = "ftp".toList then some 21
  else none

def Target.portOrKnownDefault (target : Target) : Option Nat := target.port.or (defaultPort target.scheme)

def readPort (scheme : List Char) : List Char → Except ParseError (Option Nat)
  | [] | [_] => .ok none
  | _ :: digits =>
    let port := digitsValue 10 digits 0
    if digits.all Char.isDigit && decide (port ≤ 65535) then
      .ok (if defaultPort scheme = some port then none else some port)
    else .error .invalidPort

def usernameOf (userinfo : List Char) : List Char := userinfo.dropLast.takeWhile (· != ':')

def passwordOf (userinfo : List Char) : Option (List Char) :=
  match userinfo.dropLast.dropWhile (· != ':') with
  | _ :: c :: password => some (c :: password)
  | _ => none

def isWeb (scheme : List Char) : Prop := scheme = "http".toList ∨ scheme = "https".toList

instance (scheme : List Char) : Decidable (isWeb scheme) := inferInstanceAs (Decidable (_ ∨ _))

def parse (s : List Char) : Except ParseError Target :=
  match splitUrl (cleaned s) with
  | none => .error .relativeUrlWithoutBase
  | some parts =>
    let scheme := parts.scheme.map Char.toLower
    if isWeb scheme then
      if parts.host = [] then .error .emptyHost
      else do
        let host ← parseHost lib parts.host
        let port ← readPort scheme parts.port
        pure { scheme := scheme, username := usernameOf parts.userinfo, password := passwordOf parts.userinfo,
               host := some host, port := port }
    else lib.otherScheme (cleaned s)

end Lib

/-! ## The parts are the text -/

variable {s : List Char} {parts : Parts}

theorem splitPort_append : ∀ (inside : Bool) (s : List Char), (splitPort inside s).1 ++ (splitPort inside s).2 = s
  | _, [] => rfl
  | inside, c :: s => by
    rw [splitPort]
    by_cases hc : c = ':' ∧ inside = false
    · rw [if_pos hc]
      rfl
    · rw [if_neg hc]
      exact congrArg (c :: ·) (splitPort_append _ s)

theorem splitAuthority_text (scheme rest : List Char) : (splitAuthority scheme rest).text = scheme ++ ':' :: rest := by
  have hhost := splitPort_append false (((rest.dropWhile slash).takeWhile inAuthority).rtakeWhile notAt)
  calc (splitAuthority scheme rest).text
    _ = scheme ++ ':' :: (rest.takeWhile slash ++ (((rest.dropWhile slash).takeWhile inAuthority).rdropWhile notAt ++
          ((splitPort false (((rest.dropWhile slash).takeWhile inAuthority).rtakeWhile notAt)).1 ++
            (splitPort false (((rest.dropWhile slash).takeWhile inAuthority).rtakeWhile notAt)).2)) ++
          (rest.dropWhile slash).dropWhile inAuthority) := by
        simp [Parts.text, Parts.before, Parts.after, splitAuthority]
    _ = scheme ++ ':' :: rest := by
        rw [hhost, List.rdropWhile_append_rtakeWhile, List.append_assoc, List.takeWhile_append_dropWhile,
          List.takeWhile_append_dropWhile]

theorem splitUrl_eq_some (h : splitUrl s = some parts) :
    ∃ scheme rest, s = scheme ++ ':' :: rest ∧ ':' ∉ scheme ∧ parts = splitAuthority scheme rest := by
  rw [splitUrl] at h
  obtain ⟨-, h⟩ := Option.ite_none_right_eq_some.1 h
  split at h
  · next rest hrest =>
    refine ⟨s.takeWhile schemeChar, rest, ?_, fun hcolon => ?_, (Option.some.inj h).symm⟩
    · rw [← hrest, List.takeWhile_append_dropWhile]
    · have hchar := List.all_eq_true.1 List.all_takeWhile ':' hcolon
      revert hchar
      decide
  · cases h

theorem splitUrl_text (h : splitUrl s = some parts) : parts.text = s := by
  obtain ⟨scheme, rest, rfl, -, rfl⟩ := splitUrl_eq_some h
  exact splitAuthority_text scheme rest

/-- **Where the host is written**: a piece of the text that stands between what is read in front of the host and what is
read behind it. -/
def WritesHost (s w : List Char) : Prop :=
  ∃ parts pre post, splitUrl (cleaned s) = some parts ∧ stripped s = pre ++ w ++ post ∧
    withoutTabs pre = parts.before ∧ withoutTabs post = parts.after

theorem WritesHost.host {w : List Char} (h : WritesHost s w) (hparts : splitUrl (cleaned s) = some parts) :
    withoutTabs w = parts.host := by
  obtain ⟨parts', pre, post, hparts', hs, hpre, hpost⟩ := h
  cases hparts'.symm.trans hparts
  have htext := splitUrl_text hparts'
  rw [cleaned, hs, withoutTabs, List.filter_append, List.filter_append] at htext
  rw [withoutTabs] at hpre hpost
  rw [hpre, hpost, Parts.text] at htext
  exact (List.append_cancel_left (List.append_cancel_right htext)).symm

theorem writesHost_iff {w : List Char} (hs : withoutTabs (stripped s) = stripped s)
    (hparts : splitUrl (cleaned s) = some parts) : WritesHost s w ↔ w = parts.host := by
  have hnone : ∀ c ∈ stripped s, (!tabOrNewline c) = true := List.filter_eq_self.1 hs
  have htext := splitUrl_text hparts
  rw [cleaned, hs] at htext
  constructor
  · intro h
    rw [← h.host hparts]
    obtain ⟨-, pre, post, -, hpieces, -⟩ := h
    refine (List.filter_eq_self.2 fun c hc => hnone c ?_).symm
    rw [hpieces]
    simp [hc]
  · rintro rfl
    refine ⟨parts, parts.before, parts.after, hparts, htext.symm, ?_, ?_⟩
    · exact List.filter_eq_self.2 fun c hc => hnone c (by rw [← htext, Parts.text]; simp [hc])
    · exact List.filter_eq_self.2 fun c hc => hnone c (by rw [← htext, Parts.text]; simp [hc])

end WebUrl
