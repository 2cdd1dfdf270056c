import Execlaw.AddressRanges
import Execlaw.PairedHostRuns
import Execlaw.WebHosts
/-!
# LocalEndpoints — the endpoints a paired host may have (`core/src/paired_hosts.rs`)

An endpoint is judged by the host its URL writes, read again as an address (`isLocalHost`).  An IPv4 address and a name
are judged by what they are; the text of an IPv6 address stands in brackets, is no address to the second parser, and no
name either, so the branch for IPv6 addresses is never reached from a URL (`accepted_iff`).  On a text that is read as
an IPv6 address that branch is right (`isLocalHost_address`).
-/
namespace Execlaw

open AddressText WebUrl
open PairedHostStore (isLocalIpv4 isLocalIpv6 isLocalHost validateLocalEndpoint)

/-! ## What is local -/

def localRanges : List Cidr :=
  [⟨.v4 ⟨10, 0, 0, 0⟩, 8⟩, ⟨.v4 ⟨172, 16, 0, 0⟩, 12⟩, ⟨.v4 ⟨192, 168, 0, 0⟩, 16⟩, ⟨.v4 ⟨127, 0, 0, 0⟩, 8⟩,
    ⟨.v4 ⟨169, 254, 0, 0⟩, 16⟩, ⟨.v4 ⟨100, 64, 0, 0⟩, 10⟩, ⟨.v6 (.ofList [0, 0, 0, 0, 0, 0, 0, 1]), 128⟩,
    ⟨.v6 (.ofList [0xfc00]), 7⟩, ⟨.v6 (.ofList [0xfe80]), 10⟩]

/-- **The address is local.** -/
def LocalAddress (address : Address) : Prop := ∃ range ∈ localRanges, range.contains address = true

instance (address : Address) : Decidable (LocalAddress address) := inferInstanceAs (Decidable (∃ range ∈ _, _))

/-- **The host is local**: a local address, or a name of the machine itself. -/
def LocalHost : Host → Prop
  | .domain name => name.text = "localhost".toList ∨ ".localhost".toList <:+ name.text
  | .ipv4 address => LocalAddress (.v4 address)
  | .ipv6 address => LocalAddress (.v6 address)

theorem localAddress_v4 (address : Ipv4) : LocalAddress (.v4 address) ↔
    address.value / 2 ^ 24 = 10 ∨ address.value / 2 ^ 20 = 2753 ∨ address.value / 2 ^ 16 = 49320 ∨
      address.value / 2 ^ 24 = 127 ∨ address.value / 2 ^ 16 = 43518 ∨ address.value / 2 ^ 22 = 401 := by
  simp [LocalAddress, localRanges, Cidr.contains, Ipv4.value]

theorem localAddress_v6 (address : Ipv6) : LocalAddress (.v6 address) ↔
    address.value = 1 ∨ address.value / 2 ^ 121 = 126 ∨ address.value / 2 ^ 118 = 1018 := by
  simp [LocalAddress, localRanges, Cidr.contains, Ipv6.value, Ipv6.ofList]

theorem isLocalIpv4_iff (address : Ipv4) :
    isLocalIpv4 address.a.toNat address.b.toNat = true ↔ LocalAddress (.v4 address) := by
  have hb := address.b.toNat_lt
  have hc := address.c.toNat_lt
  have hd := address.d.toNat_lt
  rw [localAddress_v4, isLocalIpv4, Ipv4.value]
  simp only [Bool.or_eq_true, Bool.and_eq_true, beq_iff_eq, decide_eq_true_eq]
  omega

theorem isLocalIpv6_iff (address : Ipv6) :
    isLocalIpv6 (address.segments.map UInt16.toNat) = true ↔ LocalAddress (.v6 address) := by
  obtain ⟨s₀, s₁, s₂, s₃, s₄, s₅, s₆, s₇, hsegments⟩ := address.exists_segments
  have h₀ := s₀.toNat_lt
  have h₁ := s₁.toNat_lt
  have h₂ := s₂.toNat_lt
  have h₃ := s₃.toNat_lt
  have h₄ := s₄.toNat_lt
  have h₅ := s₅.toNat_lt
  have h₆ := s₆.toNat_lt
  have h₇ := s₇.toNat_lt
  -- the masks leave the leading bits of the first segment
  have hunique : s₀.toNat &&& 0xfe00 = s₀.toNat / 2 ^ 9 * 2 ^ 9 := and_mask _ 7 9 h₀
  have hlink : s₀.toNat &&& 0xffc0 = s₀.toNat / 2 ^ 6 * 2 ^ 6 := and_mask _ 10 6 h₀
  rw [localAddress_v6, Ipv6.value, hsegments]
  simp only [isLocalIpv6, List.map_cons, List.map_nil, List.headD_cons, hunique, hlink, Bool.or_eq_true, beq_iff_eq,
    List.cons.injEq, List.foldl_cons, List.foldl_nil, and_true, Nat.reducePow]
  omega

/-! ## The URL, its host, and the host's text -/

def ipAddr : Address → IpAddr
  | .v4 address => .v4 address.a.toNat address.b.toNat address.c.toNat address.d.toNat
  | .v6 address => .v6 (address.segments.map UInt16.toNat)

def parsedUrl (url : Url) : ParsedUrl :=
  ⟨url.scheme, url.username, url.password, url.query, url.fragment, url.host.map fun host => String.ofList host.str⟩

section Lib

variable {V SK PK : Type} (lib : HostLib V SK PK)

def HostLib.reading (parseUrl : String → Except String Url) : HostLib V SK PK :=
  { lib with
    parseUrl := fun value => (parseUrl value).map parsedUrl
    parseIp := fun host => (AddressText.parse host.toList).map ipAddr }

variable (parseUrl : String → Except String Url)

def Accepted (value : String) : Prop := validateLocalEndpoint (lib.reading parseUrl) value = .ok ()

/-- An `https` URL without credentials, query and fragment. -/
structure PlainHttps (url : Url) : Prop where
  scheme : url.scheme = "https"
  username : url.username = ""
  password : url.password = none
  query : url.query = none
  fragment : url.fragment = none

variable {lib parseUrl}

theorem accepted_iff_isLocalHost {value : String} {url : Url} {host : Host} (hparse : parseUrl value = .ok url)
    (hplain : PlainHttps url) (hhost : url.host = some host) :
    Accepted lib parseUrl value ↔ isLocalHost (lib.reading parseUrl) (String.ofList host.str) = true := by
  have hurl : (lib.reading parseUrl).parseUrl value = .ok (parsedUrl url) := by
    simp only [HostLib.reading, hparse, Except.map]
  rw [Accepted, validateLocalEndpoint, hurl]
  simp only [parsedUrl, hplain.scheme, hplain.username, hplain.password, hplain.query, hplain.fragment, hhost,
    Option.map_some, String.toList_ofList, map_toLower_str]
  simp

theorem isLocalHost_address {text : List Char} {address : Address} (h : AddressText.parse text = some address) :
    isLocalHost (lib.reading parseUrl) (String.ofList text) = true ↔ LocalAddress address := by
  have hip : (lib.reading parseUrl).parseIp (String.ofList text) = some (ipAddr address) := by
    simp only [HostLib.reading, String.toList_ofList, h, Option.map_some]
  rw [isLocalHost, hip]
  cases address with
  | v4 address => exact isLocalIpv4_iff address
  | v6 address => exact isLocalIpv6_iff address

theorem isLocalHost_name {text : List Char} (h : AddressText.parse text = none) :
    isLocalHost (lib.reading parseUrl) (String.ofList text) = true ↔
      text = "localhost".toList ∨ ".localhost".toList <:+ text := by
  have hip : (lib.reading parseUrl).parseIp (String.ofList text) = none := by
    simp only [HostLib.reading, String.toList_ofList, h, Option.map_none]
  rw [isLocalHost, hip]
  simp only [Bool.or_eq_true, beq_iff_eq, List.isSuffixOf_iff_suffix, String.toList_ofList, ← String.toList_inj]

/-- **What is taken**: a local IPv4 address and a name of the machine itself, and no IPv6 address. -/
theorem accepted_iff {value : String} {url : Url} {host : Host} (hparse : parseUrl value = .ok url)
    (hplain : PlainHttps url) (hhost : url.host = some host) :
    Accepted lib parseUrl value ↔ LocalHost host ∧ ∀ address, host ≠ .ipv6 address := by
  have hread := parse_str host
  rw [accepted_iff_isLocalHost hparse hplain hhost]
  cases host with
  | domain name =>
    rw [isLocalHost_name hread]
    exact (and_iff_left nofun).symm
  | ipv4 address =>
    rw [isLocalHost_address hread]
    exact (and_iff_left nofun).symm
  | ipv6 address =>
    rw [isLocalHost_name hread]
    refine iff_of_false ?_ (fun h => h.2 address rfl)
    -- a text that ends with a bracket is no name of the machine
    have hlast : (Host.ipv6 address).str.getLast? = some ']' := by
      rw [Host.str, ← List.cons_append, List.getLast?_concat]
    rintro (h | ⟨pre, h⟩)
    · cases congrArg List.head? h
    · rw [← h, List.getLast?_append_of_ne_nil _ (by decide)] at hlast
      revert hlast
      decide

/-- **An endpoint is judged by what its host is**, but for a local IPv6 address. -/
theorem judged_iff {value : String} {url : Url} {host : Host} (hparse : parseUrl value = .ok url)
    (hplain : PlainHttps url) (hhost : url.host = some host) :
    (Accepted lib parseUrl value ↔ LocalHost host) ↔
      ¬ ∃ address, host = .ipv6 address ∧ LocalAddress (.v6 address) := by
  rw [accepted_iff hparse hplain hhost]
  cases host with
  | ipv6 address => simp [LocalHost]
  | _ => simp

end Lib

def readsOnly (text : String) (url : Url) : String → Except String Url := fun value =>
  if value = text then .ok url else .error "relative URL without a base"

/-- An `https` URL of a host. -/
def httpsUrl (host : Host) : Url := ⟨"https", "", none, some host, none, none⟩

theorem plainHttps_httpsUrl (host : Host) : PlainHttps (httpsUrl host) := ⟨rfl, rfl, rfl, rfl, rfl⟩

theorem judged_sample :
    (Accepted PairedHostStore.sampleLib (readsOnly "https://10.0.0.2:3131" (httpsUrl (.ipv4 ⟨10, 0, 0, 2⟩)))
        "https://10.0.0.2:3131" ↔
      LocalHost (.ipv4 ⟨10, 0, 0, 2⟩)) ↔
      ¬ ∃ address, Host.ipv4 ⟨10, 0, 0, 2⟩ = .ipv6 address ∧ LocalAddress (.v6 address) :=
  judged_iff (if_pos rfl) (plainHttps_httpsUrl _) rfl

/-- **The loopback address of IPv6 is refused.** -/
theorem loopback_refused :
    ¬ (Accepted PairedHostStore.sampleLib (readsOnly "https://[::1]:8443/" (httpsUrl (.ipv6 (.ofList [0, 0, 0, 0, 0, 0, 0, 1]))))
        "https://[::1]:8443/" ↔ LocalHost (.ipv6 (.ofList [0, 0, 0, 0, 0, 0, 0, 1]))) := by
  have hlocal : LocalHost (.ipv6 (.ofList [0, 0, 0, 0, 0, 0, 0, 1])) :=
    ⟨⟨.v6 (.ofList [0, 0, 0, 0, 0, 0, 0, 1]), 128⟩, by decide, by decide⟩
  intro h
  have haccepted := h.2 hlocal
  rw [accepted_iff (if_pos rfl) (plainHttps_httpsUrl _) rfl] at haccepted
  exact haccepted.2 _ rfl

end Execlaw
