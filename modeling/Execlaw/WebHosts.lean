import Execlaw.AddressTexts
/-!
# WebHosts — the host of a URL

The host of a URL with a scheme of the web is an address or a name.  A text whose last part is a number is read as an
IPv4 address, so a name never ends in one (`endsInNumber`), and a name has no character that ends a host.  A URL writes
its host as text (`Host.str`): the text of a name is no address, and that of an IPv6 address stands in brackets, so only
an IPv4 address is read back (`parse_str`).
-/
namespace WebUrl

open AddressText

def numberOf (radix : Nat) (digits : List Char) : Option Nat :=
  if digits.all fun c => (toDigit radix c).isSome then some (digitsValue radix digits 0) else none

/-- A part of an IPv4 address: decimal, octal behind `0`, hexadecimal behind `0x`. -/
def parseNumber : List Char → Option Nat
  | [] => none
  | ['0'] => some 0
  | '0' :: c :: digits => if c = 'x' ∨ c = 'X' then numberOf 16 digits else numberOf 8 (c :: digits)
  | digits => numberOf 10 digits

def lastPart (s : List Char) : Option (List Char) :=
  match (s.splitOn '.').reverse with
  | [] :: parts => parts.head?
  | parts => parts.head?

def endsInNumber (s : List Char) : Bool :=
  match lastPart s with
  | none => false
  | some part => (part ≠ [] && part.all Char.isDigit) || (parseNumber part).isSome

def forbidden (c : Char) : Bool :=
  decide (c.toNat ≤ 0x1f) || c.toNat == 0x7f ||
    [' ', '#', '%', '/', ':', '<', '>', '?', '@', '[', '\\', ']', '^', '|'].contains c

structure DomainName where
  text : List Char
  ne_nil : text ≠ []
  allowed : text.any forbidden = false
  lower : text.map Char.toLower = text
  notNumber : endsInNumber text = false

inductive Host
  | domain (name : DomainName)
  | ipv4 (address : Ipv4)
  | ipv6 (address : Ipv6)

def Host.str : Host → List Char
  | .domain name => name.text
  | .ipv4 address => dotted address
  | .ipv6 address => '[' :: (ipv6Text address ++ [']'])

structure Url where
  scheme : String
  username : String
  password : Option String
  host : Option Host
  query : Option String
  fragment : Option String

theorem endsInNumber_of_digits (pre : List Char) {ds : List Char} (hne : ds ≠ []) (hds : ∀ c ∈ ds, c.isDigit = true) :
    endsInNumber (pre ++ '.' :: ds) = true := by
  have hdot : '.' ∉ ds := fun h => by
    have := hds _ h
    revert this
    decide
  have hlast : lastPart (pre ++ '.' :: ds) = some ds := by
    rw [lastPart, List.splitOn_append_cons_self, List.splitOn_eq_singleton hdot, List.reverse_append,
      List.reverse_singleton, List.singleton_append]
    cases ds with
    | nil => exact absurd rfl hne
    | cons c ds => rfl
  have hall : ds.all Char.isDigit = true := List.all_eq_true.2 hds
  rw [endsInNumber, hlast]
  simp [hne, hall]

theorem parse_name (name : DomainName) : parse name.text = none := by
  rw [Option.eq_none_iff_forall_ne_some]
  intro address h
  rcases parse_shape h with ⟨pre, ds, htext, hne, hds⟩ | hcolon
  · have hnumber := endsInNumber_of_digits pre hne hds
    rw [← htext, name.notNumber] at hnumber
    cases hnumber
  · have hallowed := name.allowed
    rw [List.any_eq_false] at hallowed
    exact hallowed ':' hcolon (by decide)

theorem parse_str : ∀ host : Host, parse host.str = match host with
    | .ipv4 address => some (.v4 address)
    | .domain _ | .ipv6 _ => none
  | .domain name => parse_name name
  | .ipv4 address => parse_dotted address
  | .ipv6 _ => parse_bracket _

theorem toLower_digitChar : ∀ d < 16, (Nat.digitChar d).toLower = Nat.digitChar d := by decide

theorem map_toLower_eq {s : List Char} (h : ∀ c ∈ s, c.toLower = c) : s.map Char.toLower = s :=
  (List.map_congr_left h).trans (List.map_id' s)

theorem map_toLower_str : ∀ host : Host, host.str.map Char.toLower = host.str
  | .domain name => name.lower
  | .ipv4 address => by
    refine map_toLower_eq fun c hc => ?_
    rcases mem_dotted hc with rfl | ⟨d, hd, rfl⟩
    · rfl
    · exact toLower_digitChar d (by omega)
  | .ipv6 address => by
    refine map_toLower_eq fun c hc => ?_
    rcases List.mem_cons.1 hc with rfl | hc
    · rfl
    · rcases List.mem_append.1 hc with hc | hc
      · rcases mem_ipv6Text hc with rfl | ⟨d, hd, rfl⟩
        · rfl
        · exact toLower_digitChar d hd
      · rw [List.mem_singleton.1 hc]
        rfl

end WebUrl
