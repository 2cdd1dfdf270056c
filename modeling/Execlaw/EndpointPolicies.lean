import Execlaw.AddressRanges
import Execlaw.Table
import Execlaw.UrlParsing
import Mathlib.Data.List.Dedup
/-!
# EndpointPolicies — which URLs a policy lets through (`local-endpoint-policy/src/lib.rs`)

A URL is looked at twice: its raw text is split by hand and its host searched for numbers written another way
(`alternateNumericHost`), and then the URL is parsed, its host resolved, and the addresses checked.  The check of the
addresses is what it should be; the two readings of the text need not find one host, and of the spellings of an IPv4
address the first knows some.
-/
namespace Execlaw

open AddressText WebUrl

def isLoopback : Address → Bool
  | .v4 address => address.a == 127
  | .v6 address => address == .ofList [0, 0, 0, 0, 0, 0, 0, 1]

def toIpv4Mapped (address : Ipv6) : Option Ipv4 :=
  match address.segments.take 6 == [0, 0, 0, 0, 0, 0xffff], address.segments.drop 6 with
  | true, [ab, cd] =>
    some ⟨.ofNat (ab.toNat / 256), .ofNat (ab.toNat % 256), .ofNat (cd.toNat / 256), .ofNat (cd.toNat % 256)⟩
  | _, _ => none

def normalizeMappedIp : Address → Address
  | .v4 address => .v4 address
  | .v6 address => ((toIpv4Mapped address).map Address.v4).getD (.v6 address)

def addressRank : Address → Nat
  | .v4 address => address.value
  | .v6 address => 2 ^ 32 + address.value

/-- A `BTreeSet` of addresses. -/
def addressSet (addresses : List Address) : List Address := Table.orderBy addressRank addresses.dedup

def specialIpv4 : List Cidr :=
  [⟨.v4 ⟨0, 0, 0, 0⟩, 8⟩, ⟨.v4 ⟨10, 0, 0, 0⟩, 8⟩, ⟨.v4 ⟨100, 64, 0, 0⟩, 10⟩, ⟨.v4 ⟨127, 0, 0, 0⟩, 8⟩,
    ⟨.v4 ⟨169, 254, 0, 0⟩, 16⟩, ⟨.v4 ⟨172, 16, 0, 0⟩, 12⟩, ⟨.v4 ⟨192, 0, 0, 0⟩, 24⟩, ⟨.v4 ⟨192, 0, 2, 0⟩, 24⟩,
    ⟨.v4 ⟨192, 88, 99, 0⟩, 24⟩, ⟨.v4 ⟨192, 168, 0, 0⟩, 16⟩, ⟨.v4 ⟨198, 18, 0, 0⟩, 15⟩, ⟨.v4 ⟨198, 51, 100, 0⟩, 24⟩,
    ⟨.v4 ⟨203, 0, 113, 0⟩, 24⟩, ⟨.v4 ⟨224, 0, 0, 0⟩, 4⟩, ⟨.v4 ⟨240, 0, 0, 0⟩, 4⟩]

def globalUnicast : Cidr := ⟨.v6 (.ofList [0x2000]), 3⟩

def specialIpv6 : List Cidr :=
  [⟨.v6 (.ofList [0x2001]), 23⟩, ⟨.v6 (.ofList [0x2001, 0xdb8]), 32⟩, ⟨.v6 (.ofList [0x2002]), 16⟩,
    ⟨.v6 (.ofList [0x3fff]), 20⟩, ⟨.v6 (.ofList [0x64, 0xff9b]), 96⟩, ⟨.v6 (.ofList [0x64, 0xff9b, 1]), 48⟩]

def isGloballyRoutable (address : Address) : Bool :=
  match normalizeMappedIp address with
  | .v4 v4 => !specialIpv4.any (·.contains (.v4 v4))
  | .v6 v6 => globalUnicast.contains (.v6 v6) && !specialIpv6.any (·.contains (.v6 v6))

/-! ## The host in the raw text -/

def splitOnceText (sep : List Char) : List Char → Option (List Char × List Char)
  | [] => none
  | c :: s =>
    if sep <+: c :: s then some ([], (c :: s).drop sep.length)
    else (splitOnceText sep s).map fun p => (c :: p.1, p.2)

def checkedHost (rawUrl : List Char) : List Char :=
  let rest := ((splitOnceText "://".toList rawUrl).map Prod.snd).getD rawUrl
  let authority := rest.takeWhile fun c => !(['/', '?', '#'].contains c)
  let hostPort := authority.rtakeWhile notAt
  let host :=
    if hostPort.head? = some '[' then
      if ']' ∈ hostPort then hostPort.takeWhile (· != ']') ++ [']'] else hostPort
    else hostPort.takeWhile (· != ':')
  host.map Char.toLower

/-- A spelling the check knows: digits without a full stop, `0x` in front, or a part with a zero in front. -/
def alternateSpelling (lower : List Char) : Bool :=
  let dottedLeadingZero := (lower.splitOn '.').any fun part =>
    decide (1 < part.length) && part.head? == some '0' && part.all Char.isDigit
  let integerForm := !lower.contains '.' && lower.all Char.isDigit
  let hexOrOctal := "0x".toList.isPrefixOf lower || dottedLeadingZero
  integerForm || hexOrOctal

def alternateNumericHost (rawUrl : List Char) : Bool := alternateSpelling (checkedHost rawUrl)

def KnownForm (lower : List Char) : Prop :=
  ('.' ∉ lower ∧ ∀ c ∈ lower, c.isDigit = true) ∨ "0x".toList <+: lower ∨
    ∃ part ∈ lower.splitOn '.', 1 < part.length ∧ part.head? = some '0' ∧ ∀ c ∈ part, c.isDigit = true

theorem alternateSpelling_iff {lower : List Char} : alternateSpelling lower = true ↔ KnownForm lower := by
  simp [alternateSpelling, KnownForm, and_assoc]

inductive PolicyError
  | invalidUrl (message : String)
  | scheme
  | userinfo
  | alternateNumericHost
  | unapprovedDns (name : List Char)
  | unapprovedAddress (address : Address)
  | prohibitedPublicAddress (address : Address)
  | emptyResolution (host : List Char)
  | resolution (host : List Char) (message : String)

def parseErrorText : ParseError → String
  | .relativeUrlWithoutBase => "relative URL without a base"
  | .emptyHost => "empty host"
  | .idnaError => "invalid international domain name"
  | .invalidPort => "invalid port number"
  | .invalidIpv4Address => "invalid IPv4 address"
  | .invalidIpv6Address => "invalid IPv6 address"
  | .invalidDomainCharacter => "invalid domain character"

inductive EndpointClassification | loopback | approvedCidr | approvedDns

structure EndpointResolution where
  url : Target
  classification : EndpointClassification
  addresses : List Address

structure PublicEgressResolution where
  url : Target
  addresses : List Address

abbrev Resolver := List Char → Nat → Except String (List Address)

structure LocalEndpointPolicy where
  approvedCidrs : List Cidr
  approvedDnsNames : List (List Char)

def LocalEndpointPolicy.loopbackOnly : LocalEndpointPolicy := ⟨[], []⟩

def LocalEndpointPolicy.allows (policy : LocalEndpointPolicy) (address : Address) : Bool :=
  isLoopback address || policy.approvedCidrs.any (·.contains address)

def hostStr (url : Target) : List Char := (url.host.map Host.str).getD []

section Lib

variable (lib : UrlLib)

def checkedTarget (rawUrl : List Char) : Except PolicyError (Target × Host × Nat) :=
  if alternateNumericHost rawUrl then .error .alternateNumericHost
  else
    match WebUrl.parse lib rawUrl with
    | .error e => .error (.invalidUrl (parseErrorText e))
    | .ok url =>
      if ¬ isWeb url.scheme then .error .scheme
      else if url.username ≠ [] ∨ url.password.isSome then .error .userinfo
      else
        match url.host with
        | none => .error (.invalidUrl "missing host")
        | some host =>
          match url.portOrKnownDefault with
          | none => .error (.invalidUrl "missing port")
          | some port => .ok (url, host, port)

namespace LocalEndpointPolicy

def validateAddresses (policy : LocalEndpointPolicy) (url : Target) (addresses : List Address) (dns : Bool) :
    Except PolicyError EndpointResolution :=
  let addresses := addressSet (addresses.map normalizeMappedIp)
  if addresses = [] then .error (.emptyResolution (hostStr url))
  else
    match addresses.find? fun address => !policy.allows address with
    | some address => .error (.unapprovedAddress address)
    | none =>
      let classification :=
        if dns then .approvedDns
        else if addresses.all isLoopback then .loopback
        else .approvedCidr
      .ok { url, classification, addresses }

def validateWith (policy : LocalEndpointPolicy) (rawUrl : List Char) (resolver : Resolver) :
    Except PolicyError EndpointResolution :=
  match checkedTarget lib rawUrl with
  | .error e => .error e
  | .ok (url, .ipv4 address, _) => policy.validateAddresses url [.v4 address] false
  | .ok (url, .ipv6 address, _) => policy.validateAddresses url [.v6 address] false
  | .ok (url, .domain name, port) =>
    let normalized := (name.text.rdropWhile (· == '.')).map Char.toLower
    if normalized ≠ "localhost".toList ∧ normalized ∉ policy.approvedDnsNames then .error (.unapprovedDns normalized)
    else
      match resolver name.text port with
      | .error message => .error (.resolution name.text message)
      | .ok sockets => policy.validateAddresses url (addressSet sockets) true

end LocalEndpointPolicy

namespace PublicEgressPolicy

def addressesOf (host : Host) (port : Nat) (resolver : Resolver) : Except PolicyError (List Address) :=
  match host with
  | .ipv4 address => .ok [.v4 address]
  | .ipv6 address => .ok [normalizeMappedIp (.v6 address)]
  | .domain name =>
    match resolver name.text port with
    | .error message => .error (.resolution name.text message)
    | .ok sockets => .ok (addressSet (sockets.map normalizeMappedIp))

def resolveWith (rawUrl : List Char) (resolver : Resolver) : Except PolicyError PublicEgressResolution :=
  match checkedTarget lib rawUrl with
  | .error e => .error e
  | .ok (url, host, port) =>
    match addressesOf host port resolver with
    | .error e => .error e
    | .ok addresses =>
      if addresses = [] then .error (.emptyResolution (hostStr url))
      else
        match addresses.find? fun address => !isGloballyRoutable address with
        | some address => .error (.prohibitedPublicAddress address)
        | none => .ok { url, addresses }

end PublicEgressPolicy

/-! ## What is accepted -/

variable {lib} {rawUrl : List Char} {resolver : Resolver} {policy : LocalEndpointPolicy} {url : Target} {host : Host}
  {port : Nat} {addresses : List Address}

@[simp] theorem mem_addressSet {x : Address} : x ∈ addressSet addresses ↔ x ∈ addresses := by
  rw [addressSet, Table.mem_orderBy, List.mem_dedup]

structure Plain (url : Target) : Prop where
  web : isWeb url.scheme
  username : url.username = []
  password : url.password = none

theorem checkedTarget_ok (h : checkedTarget lib rawUrl = .ok (url, host, port)) :
    alternateNumericHost rawUrl = false ∧ WebUrl.parse lib rawUrl = .ok url ∧ Plain url ∧ url.host = some host ∧
      url.portOrKnownDefault = some port := by
  rw [checkedTarget] at h
  split at h
  · cases h
  · next hcheck =>
    split at h
    · cases h
    · next url' hparse =>
      split at h
      · cases h
      · next hweb =>
        split at h
        · cases h
        · next hcredentials =>
          split at h
          · cases h
          · next host' hhost =>
            split at h
            · cases h
            · next port' hport =>
              obtain ⟨rfl, rfl, rfl⟩ : url' = url ∧ host' = host ∧ port' = port := by simpa using h
              obtain ⟨husername, hpassword⟩ := not_or.1 hcredentials
              exact ⟨eq_false_of_ne_true hcheck, hparse, ⟨not_not.1 hweb, not_not.1 husername, by simpa using hpassword⟩,
                hhost, hport⟩

theorem portOrKnownDefault_web (hweb : isWeb url.scheme) : ∃ port, url.portOrKnownDefault = some port := by
  rw [Target.portOrKnownDefault]
  cases url.port with
  | some port => exact ⟨port, rfl⟩
  | none => rcases hweb with h | h <;> rw [h] <;> exact ⟨_, rfl⟩

theorem checkedTarget_of (hcheck : alternateNumericHost rawUrl = false) (hparse : WebUrl.parse lib rawUrl = .ok url)
    (hplain : Plain url) (hhost : url.host = some host) :
    ∃ port, checkedTarget lib rawUrl = .ok (url, host, port) := by
  obtain ⟨port, hport⟩ := portOrKnownDefault_web hplain.web
  refine ⟨port, ?_⟩
  rw [checkedTarget, if_neg (by simp [hcheck]), hparse]
  simp only
  rw [if_neg (not_not.2 hplain.web), if_neg (by simp [hplain.username, hplain.password]), hhost, hport]

theorem validateAddresses_ok {dns : Bool} {r : EndpointResolution}
    (h : policy.validateAddresses url addresses dns = .ok r) :
    r.url = url ∧ r.addresses ≠ [] ∧ (∀ x, x ∈ r.addresses ↔ ∃ y ∈ addresses, normalizeMappedIp y = x) ∧
      ∀ x ∈ r.addresses, policy.allows x = true := by
  rw [LocalEndpointPolicy.validateAddresses] at h
  simp only at h
  split at h
  · cases h
  · next hne =>
    split at h
    · cases h
    · next hall =>
      cases h
      refine ⟨rfl, hne, fun x => by simp, fun x hx => ?_⟩
      simpa using List.find?_eq_none.1 hall x hx

theorem normalizeMappedIp_idem (address : Address) :
    normalizeMappedIp (normalizeMappedIp address) = normalizeMappedIp address := by
  cases address with
  | v4 address => rfl
  | v6 address =>
    cases h : toIpv4Mapped address with
    | none | some v4 => simp [normalizeMappedIp, h]

structure AddressesOf (host : Host) (port : Nat) (resolver : Resolver) (addresses : List Address) : Prop where
  ipv4 : ∀ a, host = .ipv4 a → .v4 a ∈ addresses
  domain : ∀ name sockets, host = .domain name → resolver name.text port = .ok sockets →
    ∀ s ∈ sockets, normalizeMappedIp s ∈ addresses

theorem validateWith_ok {r : EndpointResolution} (h : policy.validateWith lib rawUrl resolver = .ok r) :
    ∃ host port, checkedTarget lib rawUrl = .ok (r.url, host, port) ∧ r.addresses ≠ [] ∧
      AddressesOf host port resolver r.addresses ∧ ∀ x ∈ r.addresses, policy.allows x = true := by
  rw [LocalEndpointPolicy.validateWith] at h
  split at h
  · cases h
  · next url address port hchecked =>
    obtain ⟨rfl, hne, hmem, hall⟩ := validateAddresses_ok h
    refine ⟨_, _, hchecked, hne, ⟨fun a ha => ?_, nofun⟩, hall⟩
    obtain rfl := Host.ipv4.inj ha
    exact (hmem _).2 ⟨_, List.mem_singleton.2 rfl, rfl⟩
  · next url address port hchecked =>
    obtain ⟨rfl, hne, -, hall⟩ := validateAddresses_ok h
    exact ⟨_, _, hchecked, hne, ⟨nofun, nofun⟩, hall⟩
  · next url name port hchecked =>
    simp only at h
    split at h
    · cases h
    · split at h
      · cases h
      · next sockets hsockets =>
        obtain ⟨rfl, hne, hmem, hall⟩ := validateAddresses_ok h
        refine ⟨_, _, hchecked, hne, ⟨nofun, fun name' sockets' hname hsockets' s hs => ?_⟩, hall⟩
        obtain rfl := Host.domain.inj hname
        cases hsockets.symm.trans hsockets'
        exact (hmem _).2 ⟨s, mem_addressSet.2 hs, rfl⟩

theorem addressesOf_ok (h : PublicEgressPolicy.addressesOf host port resolver = .ok addresses) :
    AddressesOf host port resolver addresses ∧ ∀ x ∈ addresses, normalizeMappedIp x = x := by
  cases host with
  | ipv4 address =>
    cases h
    refine ⟨⟨fun a ha => ?_, nofun⟩, fun x hx => by rw [List.mem_singleton.1 hx]; rfl⟩
    rw [Host.ipv4.inj ha]
    exact List.mem_singleton.2 rfl
  | ipv6 address =>
    cases h
    exact ⟨⟨nofun, nofun⟩, fun x hx => by rw [List.mem_singleton.1 hx, normalizeMappedIp_idem]⟩
  | domain name =>
    rw [PublicEgressPolicy.addressesOf] at h
    split at h
    · cases h
    · next sockets hsockets =>
      cases h
      refine ⟨⟨nofun, fun name' sockets' hname hsockets' s hs => ?_⟩, fun x hx => ?_⟩
      · obtain rfl := Host.domain.inj hname
        cases hsockets.symm.trans hsockets'
        exact mem_addressSet.2 (List.mem_map_of_mem hs)
      · obtain ⟨s, -, rfl⟩ := List.mem_map.1 (mem_addressSet.1 hx)
        exact normalizeMappedIp_idem s

theorem resolveWith_ok {r : PublicEgressResolution} (h : PublicEgressPolicy.resolveWith lib rawUrl resolver = .ok r) :
    ∃ host port, checkedTarget lib rawUrl = .ok (r.url, host, port) ∧ r.addresses ≠ [] ∧
      AddressesOf host port resolver r.addresses ∧
      ∀ x ∈ r.addresses, normalizeMappedIp x = x ∧ isGloballyRoutable x = true := by
  rw [PublicEgressPolicy.resolveWith] at h
  split at h
  · cases h
  · next url host port hchecked =>
    split at h
    · cases h
    · next addresses haddresses =>
      obtain ⟨hof, hnormal⟩ := addressesOf_ok haddresses
      split at h
      · cases h
      · next hne =>
        split at h
        · cases h
        · next hall =>
          cases h
          exact ⟨host, port, hchecked, hne, hof,
            fun x hx => ⟨hnormal x hx, by simpa using List.find?_eq_none.1 hall x hx⟩⟩

theorem validateWith_v4 (resolver : Resolver) {a : Ipv4}
    (hchecked : checkedTarget lib rawUrl = .ok (url, .ipv4 a, port)) (hallows : policy.allows (.v4 a) = true) :
    ∃ r, policy.validateWith lib rawUrl resolver = .ok r ∧ r.url = url := by
  have haddresses : addressSet ([Address.v4 a].map normalizeMappedIp) = [.v4 a] := by
    simp [addressSet, normalizeMappedIp, Table.orderBy_cons]
  rw [LocalEndpointPolicy.validateWith, hchecked]
  simp only [LocalEndpointPolicy.validateAddresses, haddresses]
  rw [if_neg (by simp), List.find?_eq_none.2 (by simp [hallows])]
  exact ⟨_, rfl, rfl⟩

theorem resolveWith_v4 (resolver : Resolver) {a : Ipv4} (hchecked : checkedTarget lib rawUrl = .ok (url, .ipv4 a, port))
    (hroutable : isGloballyRoutable (.v4 a) = true) :
    ∃ r, PublicEgressPolicy.resolveWith lib rawUrl resolver = .ok r ∧ r.url = url := by
  rw [PublicEgressPolicy.resolveWith, hchecked]
  simp only [PublicEgressPolicy.addressesOf]
  rw [if_neg (by simp), List.find?_eq_none.2 (by simp [hroutable])]
  exact ⟨_, rfl, rfl⟩

/-! ## Where both readings find one host -/

/-- **The URL is plainly written**: no white space at its ends, no tabs, two slashes, no backslash behind the authority,
and no bracket in its host. -/
structure PlainlyWritten (rawUrl : List Char) (parts : Parts) : Prop where
  reads : splitUrl (cleaned rawUrl) = some parts
  stripped : stripped rawUrl = rawUrl
  tabs : withoutTabs rawUrl = rawUrl
  slashes : parts.slashes = "//".toList
  rest : parts.rest.head? ≠ some '\\'
  host : '[' ∉ parts.host

theorem splitOnceText_append {p : List Char} (hp : ':' ∉ p) (s : List Char) :
    splitOnceText "://".toList (p ++ ':' :: '/' :: '/' :: s) = some (p, s) := by
  induction p with
  | nil => rfl
  | cons c p ih =>
    rw [List.mem_cons, not_or] at hp
    obtain ⟨hc, hp⟩ := hp
    have hprefix : ¬ "://".toList <+: c :: (p ++ ':' :: '/' :: '/' :: s) := fun h => hc (List.cons_prefix_cons.1 h).1
    rw [List.cons_append, splitOnceText, if_neg hprefix, ih hp]
    rfl

theorem takeWhile_eq_of_stops {p q : Char → Bool} (hpq : ∀ c, p c = true → q c = true) : ∀ {s : List Char},
    (∀ c, (s.dropWhile p).head? = some c → q c = false) → s.takeWhile q = s.takeWhile p
  | [], _ => rfl
  | c :: s, h => by
    by_cases hc : p c = true
    · rw [List.takeWhile_cons_of_pos hc, List.takeWhile_cons_of_pos (hpq c hc)]
      rw [List.dropWhile_cons_of_pos hc] at h
      rw [takeWhile_eq_of_stops hpq h]
    · rw [List.dropWhile_cons_of_neg hc] at h
      rw [List.takeWhile_cons_of_neg hc, List.takeWhile_cons_of_neg (by simp [h c rfl])]

theorem takeWhile_splitPort : ∀ {s : List Char}, '[' ∉ (splitPort false s).1 →
    s.takeWhile (· != ':') = (splitPort false s).1
  | [], _ => rfl
  | c :: s, h => by
    rw [splitPort] at h ⊢
    by_cases hc : c = ':'
    · simp [hc]
    · have hne : ¬ (c = ':' ∧ false = false) := fun h => hc h.1
      rw [if_neg hne] at h ⊢
      rw [List.mem_cons, not_or] at h
      obtain ⟨hbracket, h⟩ := h
      have hinside : (if c = '[' then true else if c = ']' then false else false) = false := by
        rw [if_neg (Ne.symm hbracket), ite_self]
      rw [hinside] at h ⊢
      rw [List.takeWhile_cons_of_pos (by simpa using hc), takeWhile_splitPort h]

theorem checkedHost_eq {parts : Parts} (h : PlainlyWritten rawUrl parts) :
    checkedHost rawUrl = parts.host.map Char.toLower := by
  have hreads := h.reads
  rw [cleaned, h.stripped, h.tabs] at hreads
  obtain ⟨scheme, rest, hraw, hscheme, rfl⟩ := splitUrl_eq_some hreads
  have hslashes : rest.takeWhile slash = "//".toList := h.slashes
  have hrest : rest = '/' :: '/' :: rest.dropWhile slash := by
    conv => lhs; rw [← List.takeWhile_append_dropWhile (p := slash) (l := rest), hslashes]
    rfl
  rw [hrest] at hraw
  -- the authority ends where the check ends it
  have hauthority : (rest.dropWhile slash).takeWhile (fun c => !(['/', '?', '#'].contains c)) =
      (rest.dropWhile slash).takeWhile inAuthority := by
    refine takeWhile_eq_of_stops (fun c hc => ?_) fun c hc => ?_
    · simp [inAuthority] at hc ⊢
      tauto
    · have hstop : inAuthority c = false := by
        have hhead := List.head?_dropWhile_not inAuthority (rest.dropWhile slash)
        rwa [hc] at hhead
      have hbackslash : c ≠ '\\' := fun heq => h.rest (heq ▸ hc)
      simp [inAuthority] at hstop ⊢
      tauto
  have hhead : (((rest.dropWhile slash).takeWhile inAuthority).rtakeWhile notAt).head? ≠ some '[' := by
    intro hhead
    obtain ⟨s, hs⟩ := List.head?_eq_some_iff.1 hhead
    refine h.host ?_
    rw [splitAuthority, hs]
    simp [splitPort]
  rw [checkedHost, hraw, splitOnceText_append hscheme]
  simp only [Option.map_some, Option.getD_some]
  rw [hauthority, if_neg hhead, takeWhile_splitPort h.host]
  rfl

theorem checkedHost_plain {parts : Parts} (h : PlainlyWritten rawUrl parts) :
    checkedHost rawUrl = parts.host.map Char.toLower := checkedHost_eq h

theorem checkedHost_plain_example : checkedHost "https://Example.org:8443/a".toList = "example.org".toList :=
  @checkedHost_plain _ ⟨"https".toList, "//".toList, [], "Example.org".toList, ":8443".toList, "/a".toList⟩
    ⟨by decide, by decide, by decide, by decide, by decide, by decide⟩

/-! ## What should hold of it -/

def LocalEndpointPolicy.Approved (policy : LocalEndpointPolicy) (x : Address) : Prop :=
  isLoopback x = true ∨ ∃ range ∈ policy.approvedCidrs, range.contains x = true

def Public (x : Address) : Prop := ∀ range ∈ specialIpv4 ++ specialIpv6, range.contains x = false

/-- **What an accepted URL should be**: an IPv4 host is written in its usual spelling, and there are addresses, with all
that the resolver returned, and each of them allowed. -/
structure Vetted (rawUrl : List Char) (resolver : Resolver) (allowed : Address → Prop) (url : Target)
    (addresses : List Address) : Prop where
  spelled : ∀ a, url.host = some (.ipv4 a) → WritesHost rawUrl (dotted a)
  nonempty : addresses ≠ []
  resolved : ∀ name port sockets, url.host = some (.domain name) → url.portOrKnownDefault = some port →
    resolver name.text port = .ok sockets → ∀ s ∈ sockets, normalizeMappedIp s ∈ addresses
  allowed : ∀ x ∈ addresses, allowed x

variable (lib policy rawUrl resolver)

/-- **What both policies accept is vetted.** -/
structure PoliciesVet : Prop where
  onlyLocal : ∀ r, policy.validateWith lib rawUrl resolver = .ok r →
    Vetted rawUrl resolver policy.Approved r.url r.addresses
  onlyPublic : ∀ r, PublicEgressPolicy.resolveWith lib rawUrl resolver = .ok r →
    Vetted rawUrl resolver Public r.url r.addresses

/-- Where the parser reads an IPv4 address that a policy allows, its usual spelling is `written`, or the text `looked` at
is of a form that the check knows. -/
def SpellingKnown (written : List Char → Prop) (looked : List Char) : Prop :=
  ∀ url a, WebUrl.parse lib rawUrl = .ok url → Plain url → url.host = some (.ipv4 a) →
    (policy.allows (.v4 a) = true ∨ isGloballyRoutable (.v4 a) = true) → written (dotted a) ∨ KnownForm looked

variable {lib policy rawUrl resolver}

theorem public_of_routable {x : Address} (hnormal : normalizeMappedIp x = x) (h : isGloballyRoutable x = true) :
    Public x := by
  have hfamily : (∀ (a : Ipv4), ∀ range ∈ specialIpv6, range.contains (.v4 a) = false) ∧
      ∀ (a : Ipv6), ∀ range ∈ specialIpv4, range.contains (.v6 a) = false := by
    simp [specialIpv4, specialIpv6, Cidr.contains]
  rw [isGloballyRoutable, hnormal] at h
  intro range hrange
  rcases List.mem_append.1 hrange with hrange | hrange
  · cases x with
    | v4 a => simpa using List.any_eq_false.1 (Bool.not_eq_true' _ ▸ h) range hrange
    | v6 a => exact hfamily.2 a range hrange
  · cases x with
    | v4 a => exact hfamily.1 a range hrange
    | v6 a => simpa using List.any_eq_false.1 (Bool.not_eq_true' _ ▸ (Bool.and_eq_true _ _ ▸ h).2) range hrange

theorem spelled_of_known (hknown : SpellingKnown lib rawUrl policy (WritesHost rawUrl) (checkedHost rawUrl))
    {host : Host} {port : Nat} (hchecked : checkedTarget lib rawUrl = .ok (url, host, port)) {a : Ipv4}
    (hurl : url.host = some (.ipv4 a))
    (hallowed : host = .ipv4 a → policy.allows (.v4 a) = true ∨ isGloballyRoutable (.v4 a) = true) :
    WritesHost rawUrl (dotted a) := by
  obtain ⟨hcheck, hparse, hplain, hhost, -⟩ := checkedTarget_ok hchecked
  have hsame := Option.mem_unique hhost hurl
  refine (hknown url a hparse hplain hurl (hallowed hsame)).resolve_right fun hform => ?_
  rw [alternateNumericHost, alternateSpelling_iff.2 hform] at hcheck
  cases hcheck

theorem PoliciesVet.known (hvet : PoliciesVet lib rawUrl resolver policy) :
    SpellingKnown lib rawUrl policy (WritesHost rawUrl) (checkedHost rawUrl) := by
  intro url a hparse hplain hhost hallowed
  by_cases hcheck : alternateNumericHost rawUrl = true
  · exact .inr (alternateSpelling_iff.1 hcheck)
  · obtain ⟨port, hchecked⟩ := checkedTarget_of (eq_false_of_ne_true hcheck) hparse hplain hhost
    rcases hallowed with hallows | hroutable
    · obtain ⟨r, hr, rfl⟩ := validateWith_v4 resolver hchecked hallows
      exact .inl ((hvet.onlyLocal r hr).spelled a hhost)
    · obtain ⟨r, hr, rfl⟩ := resolveWith_v4 resolver hchecked hroutable
      exact .inl ((hvet.onlyPublic r hr).spelled a hhost)

theorem vetted_of_known (hknown : SpellingKnown lib rawUrl policy (WritesHost rawUrl) (checkedHost rawUrl))
    {allowed : Address → Prop} (hchecked : checkedTarget lib rawUrl = .ok (url, host, port)) (hne : addresses ≠ [])
    (hof : AddressesOf host port resolver addresses) (hallowed : ∀ x ∈ addresses, allowed x)
    (hv4 : ∀ a, .v4 a ∈ addresses → policy.allows (.v4 a) = true ∨ isGloballyRoutable (.v4 a) = true) :
    Vetted rawUrl resolver allowed url addresses := by
  obtain ⟨-, -, -, hhost, hport⟩ := checkedTarget_ok hchecked
  refine ⟨fun a ha => spelled_of_known hknown hchecked ha fun h => hv4 a (hof.ipv4 a h), hne,
    fun name port' sockets hname hport' hsockets => ?_, hallowed⟩
  cases hport.symm.trans hport'
  exact hof.domain name sockets (Option.mem_unique hhost hname) hsockets

theorem policiesVet_iff : PoliciesVet lib rawUrl resolver policy ↔
    SpellingKnown lib rawUrl policy (WritesHost rawUrl) (checkedHost rawUrl) := by
  refine ⟨PoliciesVet.known, fun hknown => ⟨fun r hr => ?_, fun r hr => ?_⟩⟩
  · obtain ⟨host, port, hchecked, hne, hof, hall⟩ := validateWith_ok hr
    refine vetted_of_known hknown hchecked hne hof (fun x hx => ?_) fun a ha => .inl (hall _ ha)
    simpa [LocalEndpointPolicy.allows, LocalEndpointPolicy.Approved] using hall x hx
  · obtain ⟨host, port, hchecked, hne, hof, hall⟩ := resolveWith_ok hr
    refine vetted_of_known hknown hchecked hne hof (fun x hx => ?_) fun a ha => .inr (hall _ ha).2
    exact public_of_routable (hall x hx).1 (hall x hx).2

/-- **Alternate spellings never pass** where the check knows their form, and only there: it looks for one in its own split
of the text, which is the host of a URL plainly written.  The addresses are always vetted. -/
theorem policies_vet_iff :
    (PoliciesVet lib rawUrl resolver policy ↔
      SpellingKnown lib rawUrl policy (WritesHost rawUrl) (checkedHost rawUrl)) ∧
    ∀ parts, PlainlyWritten rawUrl parts →
      (PoliciesVet lib rawUrl resolver policy ↔
        SpellingKnown lib rawUrl policy (parts.host = ·) (parts.host.map Char.toLower)) := by
  refine ⟨policiesVet_iff, fun parts h => ?_⟩
  have hwrites : WritesHost rawUrl = (parts.host = ·) := by
    funext w
    exact propext ((writesHost_iff (by rw [h.stripped, h.tabs]) h.reads).trans eq_comm)
  rw [policiesVet_iff, hwrites, checkedHost_eq h]

end Lib

def asciiUrls : UrlLib where
  toAscii := fun bytes =>
    let text := bytes.map fun b => Char.ofNat b.toNat
    if bytes.all (· < 128) ∧ text.map Char.toLower = text then some text else none
  parseIpv6 := fun _ => none
  otherScheme := fun _ => .error .relativeUrlWithoutBase
  toAscii_lower := fun bytes text h => by
    obtain ⟨hif, rfl⟩ := Option.ite_none_right_eq_some.1 h |>.imp_right Option.some.inj
    exact hif.2

def loopbackTarget : Target := ⟨"http".toList, [], none, some (.ipv4 ⟨127, 0, 0, 1⟩), none⟩

theorem not_vet {rawUrl : List Char} {parts : Parts} {resolver : Resolver}
    (hparts : splitUrl (cleaned rawUrl) = some parts) (hparse : WebUrl.parse asciiUrls rawUrl = .ok loopbackTarget)
    (hcheck : alternateNumericHost rawUrl = false) (hhost : dotted ⟨127, 0, 0, 1⟩ ≠ parts.host) :
    ¬ PoliciesVet asciiUrls rawUrl resolver .loopbackOnly := by
  intro hvet
  have hknown := hvet.known loopbackTarget ⟨127, 0, 0, 1⟩ hparse ⟨.inl rfl, rfl, rfl⟩ rfl (.inl rfl)
  rw [← alternateSpelling_iff, ← alternateNumericHost, hcheck] at hknown
  exact hhost ((hknown.resolve_right Bool.false_ne_true).host hparts)

def hostOnly (slashes host : String) : Parts := ⟨"http".toList, slashes.toList, [], host.toList, [], ['/']⟩

theorem parse_hostOnly {rawUrl : List Char} {slashes host : String}
    (hparts : splitUrl (cleaned rawUrl) = some (hostOnly slashes host)) (hne : host.toList ≠ [])
    (hhost : parseHost asciiUrls host.toList = .ok (.ipv4 ⟨127, 0, 0, 1⟩)) :
    WebUrl.parse asciiUrls rawUrl = .ok loopbackTarget := by
  have hweb : isWeb ((hostOnly slashes host).scheme.map Char.toLower) := .inl rfl
  have hnonempty : (hostOnly slashes host).host ≠ [] := hne
  have hread : parseHost asciiUrls (hostOnly slashes host).host = .ok (.ipv4 ⟨127, 0, 0, 1⟩) := hhost
  rw [WebUrl.parse, hparts]
  simp only [if_pos hweb, if_neg hnonempty, hread]
  rfl

/-- **Other spellings pass**: a short form, a hexadecimal part behind the first, a full stop at the end, an escaped
digit, and any form where the check looks elsewhere. -/
theorem alternate_spellings_pass :
    ¬ PoliciesVet asciiUrls "http://127.1/".toList (fun _ _ => .ok []) .loopbackOnly ∧
      ¬ PoliciesVet asciiUrls "http://127.0.0.0x1/".toList (fun _ _ => .ok []) .loopbackOnly ∧
      ¬ PoliciesVet asciiUrls "http://127.0.0.1./".toList (fun _ _ => .ok []) .loopbackOnly ∧
      ¬ PoliciesVet asciiUrls "http://%3127.0.0.1/".toList (fun _ _ => .ok []) .loopbackOnly ∧
      ¬ PoliciesVet asciiUrls "http:\\\\2130706433/".toList (fun _ _ => .ok []) .loopbackOnly := by
  have short : splitUrl (cleaned "http://127.1/".toList) = some (hostOnly "//" "127.1") := by decide
  have hex : splitUrl (cleaned "http://127.0.0.0x1/".toList) = some (hostOnly "//" "127.0.0.0x1") := by decide
  have stop : splitUrl (cleaned "http://127.0.0.1./".toList) = some (hostOnly "//" "127.0.0.1.") := by decide
  have escaped : splitUrl (cleaned "http://%3127.0.0.1/".toList) = some (hostOnly "//" "%3127.0.0.1") := by decide
  have backslashes :
      splitUrl (cleaned "http:\\\\2130706433/".toList) = some (hostOnly "\\\\" "2130706433") := by decide
  exact ⟨not_vet short (parse_hostOnly short (by decide) rfl) (by decide) (by decide),
    not_vet hex (parse_hostOnly hex (by decide) rfl) (by decide) (by decide),
    not_vet stop (parse_hostOnly stop (by decide) rfl) (by decide) (by decide),
    not_vet escaped (parse_hostOnly escaped (by decide) rfl) (by decide) (by decide),
    not_vet backslashes (parse_hostOnly backslashes (by decide) rfl) (by decide) (by decide)⟩

end Execlaw
