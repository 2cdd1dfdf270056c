import Execlaw.Wildcards
import Mathlib.Order.Lattice
/-!
# InformationLabels — where data may go

A label carries what is known about where data came from and where it may go.  `combine` joins the labels of everything a
result was made from; the join is exact, whatever the order and the steps, unless one label allows a pattern of another
with a second wildcard behind it (`combine_joins_iff`).
-/
namespace Execlaw

open Wildcards

/-! ## The code -/

inductive Sensitivity where
  | public_
  | internal
  | sensitive
  | secret
deriving DecidableEq

def Sensitivity.rank : Sensitivity → Nat
  | .public_ => 0
  | .internal => 1
  | .sensitive => 2
  | .secret => 3

/-- `Ord::max`: the second of two equal values. -/
def Sensitivity.max (a b : Sensitivity) : Sensitivity := if b.rank < a.rank then a else b

structure ProvenanceEntry where
  sourceKind : String
  sourceId : String
  ownerId : Option String
  trustClass : String
  transformation : Option String
deriving DecidableEq

structure DeclassificationRecord where
  actorId : String
  destination : List Char
  scope : String
  authorizedAt : Int

structure InformationLabel where
  sensitivity : Sensitivity
  ownerId : Option String
  sourceTrustClass : String
  allowedDestinations : List (List Char)
  provenance : List ProvenanceEntry
  declassification : Option DeclassificationRecord := none
  authorityPrincipalId : Option String := none
  authorityFingerprint : Option String := none
  authorityPolicyRevision : Option Int := none

def destinationIntersection (left right : List (List Char)) : List (List Char) := inter '*' left right

def trustRank : String → Nat
  | "Controller" => 5
  | "Delegated" => 4
  | "KnownTrusted" => 3
  | "KnownLimited" => 2
  | "UnknownPending" => 1
  | _ => 0

namespace InformationLabel

def observed (sensitivity : Sensitivity) (ownerId : Option String) (trustClass sourceKind sourceId : String)
    (allowedDestinations : List (List Char)) : InformationLabel where
  sensitivity := sensitivity
  ownerId := ownerId
  sourceTrustClass := trustClass
  allowedDestinations := allowedDestinations
  provenance := [⟨sourceKind, sourceId, ownerId, trustClass, none⟩]

def withAuthority (l : InformationLabel) (principalId fingerprint : String) : InformationLabel :=
  { l with authorityPrincipalId := some principalId, authorityFingerprint := some fingerprint }

def withPolicyRevision (l : InformationLabel) (revision : Int) : InformationLabel :=
  { l with authorityPolicyRevision := some revision }

/-- One round of the loop of `combine`. -/
def combineStep (combined label : InformationLabel) : InformationLabel :=
  { combined with
    sensitivity := combined.sensitivity.max label.sensitivity
    ownerId := if combined.ownerId ≠ label.ownerId then none else combined.ownerId
    sourceTrustClass :=
      if trustRank label.sourceTrustClass < trustRank combined.sourceTrustClass then label.sourceTrustClass
      else combined.sourceTrustClass
    allowedDestinations := destinationIntersection combined.allowedDestinations label.allowedDestinations
    provenance := label.provenance.foldl (fun ps entry => if entry ∈ ps then ps else ps ++ [entry]) combined.provenance }

def sameRevision (left right : Option Int) : Option Int := if left = right then left else none

def combine (labels : List InformationLabel) (operation : String) : Option InformationLabel :=
  match labels with
  | [] => none
  | first :: rest =>
    let combined := rest.foldl combineStep first
    some { combined with
      provenance := combined.provenance.map fun entry => { entry with transformation := some operation }
      declassification := none
      authorityPolicyRevision :=
        (rest.map authorityPolicyRevision).foldl sameRevision first.authorityPolicyRevision }

def declassify (label : InformationLabel) (actorId destination scope : String) (authorizedAt : Int) :
    Except String InformationLabel :=
  if actorId.isEmpty || destination.isEmpty || scope.isEmpty then
    .error "declassification requires actor, destination, and scope"
  else .ok { label with declassification := some ⟨actorId, destination.toList, scope, authorizedAt⟩ }

def permitsDestination (label : InformationLabel) (destination : List Char) : Bool :=
  label.allowedDestinations.any (fun allowed =>
    allowed = destination || (stripSuffix '*' allowed).any (· <+: destination)) ||
  label.declassification.any (·.destination = destination)

end InformationLabel

/-! ## What a join is -/

def ProvenanceEntry.source (e : ProvenanceEntry) : String × String × Option String × String :=
  (e.sourceKind, e.sourceId, e.ownerId, e.trustClass)

namespace InformationLabel

def sources (l : InformationLabel) : List (String × String × Option String × String) := l.provenance.map (·.source)

/-- **The join of some labels.** -/
structure Joins (c : InformationLabel) (ls : List InformationLabel) : Prop where
  permits : ∀ d, c.permitsDestination d ↔ ∀ l ∈ ls, l.permitsDestination d
  highest : (∀ l ∈ ls, l.sensitivity.rank ≤ c.sensitivity.rank) ∧ ∃ l ∈ ls, c.sensitivity = l.sensitivity
  lowest : (∀ l ∈ ls, trustRank c.sourceTrustClass ≤ trustRank l.sourceTrustClass) ∧
    ∃ l ∈ ls, c.sourceTrustClass = l.sourceTrustClass
  owner : ∀ o, c.ownerId = some o ↔ ∀ l ∈ ls, l.ownerId = some o
  revision : ∀ r, c.authorityPolicyRevision = some r ↔ ∀ l ∈ ls, l.authorityPolicyRevision = some r
  sources : ∀ e, e ∈ c.sources ↔ ∃ l ∈ ls, e ∈ l.sources

structure Alike (c c' : InformationLabel) : Prop where
  permits : ∀ d, c.permitsDestination d = c'.permitsDestination d
  sensitivity : c.sensitivity = c'.sensitivity
  trust : trustRank c.sourceTrustClass = trustRank c'.sourceTrustClass
  owner : c.ownerId = c'.ownerId
  revision : c.authorityPolicyRevision = c'.authorityPolicyRevision
  sources : ∀ e, e ∈ c.sources ↔ e ∈ c'.sources

/-- What `combine` makes of some labels, at once or in any steps: the labels it started from, and the result. -/
inductive Built : List InformationLabel → InformationLabel → Prop
  | one (l : InformationLabel) : Built [l] l
  | combine {c : InformationLabel} (parts : List (List InformationLabel × InformationLabel)) (operation : String)
      (hparts : ∀ p ∈ parts, Built p.1 p.2) (hc : combine (parts.map Prod.snd) operation = some c) :
      Built (parts.map Prod.fst).flatten c

/-- **Combining is exact on the labels of a list**: it always has a result, which is the join of the labels it started
from and depends on nothing else, not on their order or repetition nor on the steps. -/
structure JoinsAll (ls : List InformationLabel) : Prop where
  total : ∀ (used : List InformationLabel) (operation : String), used ≠ [] →
    ∃ c, combine used operation = some c ∧ Built used c
  joins : ∀ used c, Built used c → used ⊆ ls → Joins c used
  alike : ∀ used used' c c', Built used c → Built used' c' → used ⊆ ls → (∀ l, l ∈ used ↔ l ∈ used') → Alike c c'

def NoClash (ls : List InformationLabel) : Prop :=
  ∀ x ∈ ls, ∀ y ∈ ls, ¬ Clash '*' x.allowedDestinations y.allowedDestinations

variable {c first l : InformationLabel} {ls rest : List InformationLabel} {operation : String}

theorem Sensitivity.rank_inj : ∀ {a b : Sensitivity}, a.rank = b.rank → a = b
  | .public_, .public_, _ | .internal, .internal, _ | .sensitive, .sensitive, _ | .secret, .secret, _ => rfl

theorem permits_iff (h : l.declassification = none) (d : List Char) :
    l.permitsDestination d = true ↔ Permits '*' l.allowedDestinations d := by
  simp [permitsDestination, h, Permits, Matches, Option.any_eq_true]

theorem destinations_foldl : ∀ (rest : List InformationLabel) (first : InformationLabel),
    (rest.foldl combineStep first).allowedDestinations =
      interAll '*' first.allowedDestinations (rest.map (·.allowedDestinations))
  | [], _ => rfl
  | l :: rest, first => destinations_foldl rest (combineStep first l)

theorem field_foldl {β : Type} {field : InformationLabel → β} {R : β → β → Prop} (hrefl : ∀ b, R b b)
    (htrans : ∀ {a b c}, R a b → R b c → R a c)
    (hstep : ∀ x y, R (field (combineStep x y)) (field x) ∧ R (field (combineStep x y)) (field y) ∧
      (field (combineStep x y) = field x ∨ field (combineStep x y) = field y)) :
    ∀ (rest : List InformationLabel) (first : InformationLabel),
      (∀ l ∈ first :: rest, R (field (rest.foldl combineStep first)) (field l)) ∧
        ∃ l ∈ first :: rest, field (rest.foldl combineStep first) = field l
  | [], first => by simp [hrefl]
  | y :: rest, first => by
    obtain ⟨hfirst, hy, heither⟩ := hstep first y
    obtain ⟨hle, l, hl, heq⟩ := field_foldl hrefl htrans hstep rest (combineStep first y)
    have hhead := hle _ List.mem_cons_self
    rw [List.foldl_cons]
    constructor
    · rintro l' (_ | ⟨_, _ | ⟨_, hl'⟩⟩)
      · exact htrans hhead hfirst
      · exact htrans hhead hy
      · exact hle l' (List.mem_cons_of_mem _ hl')
    · rcases List.mem_cons.1 hl with rfl | hl
      · rcases heither with hfield | hfield
        · exact ⟨first, by simp, heq.trans hfield⟩
        · exact ⟨y, by simp, heq.trans hfield⟩
      · exact ⟨l, by simp [hl], heq⟩

theorem sensitivity_foldl (rest : List InformationLabel) (first : InformationLabel) :
    (∀ l ∈ first :: rest, l.sensitivity.rank ≤ (rest.foldl combineStep first).sensitivity.rank) ∧
      ∃ l ∈ first :: rest, (rest.foldl combineStep first).sensitivity = l.sensitivity := by
  refine @field_foldl _ sensitivity (fun s t => t.rank ≤ s.rank) (fun _ => le_rfl) (fun h h' => h'.trans h) ?_ rest first
  intro x y
  have hmax : (combineStep x y).sensitivity = x.sensitivity.max y.sensitivity := rfl
  rw [hmax, Sensitivity.max]
  split
  · exact ⟨le_rfl, by omega, .inl rfl⟩
  · exact ⟨by omega, le_rfl, .inr rfl⟩

theorem trust_foldl (rest : List InformationLabel) (first : InformationLabel) :
    (∀ l ∈ first :: rest, trustRank (rest.foldl combineStep first).sourceTrustClass ≤ trustRank l.sourceTrustClass) ∧
      ∃ l ∈ first :: rest, (rest.foldl combineStep first).sourceTrustClass = l.sourceTrustClass := by
  refine @field_foldl _ sourceTrustClass (fun s t => trustRank s ≤ trustRank t) (fun _ => le_rfl) (fun h h' => h.trans h') ?_
    rest first
  intro x y
  have hmin : (combineStep x y).sourceTrustClass =
      if trustRank y.sourceTrustClass < trustRank x.sourceTrustClass then y.sourceTrustClass else x.sourceTrustClass := rfl
  rw [hmin]
  split
  · exact ⟨by omega, le_rfl, .inr rfl⟩
  · exact ⟨le_rfl, by omega, .inl rfl⟩

theorem foldl_agree {β γ : Type} [DecidableEq γ] (f : β → Option γ) (step : Option γ → β → Option γ)
    (hstep : ∀ o b, step o b = if o = f b then o else none) (v : γ) :
    ∀ (l : List β) (o : Option γ), l.foldl step o = some v ↔ o = some v ∧ ∀ b ∈ l, f b = some v
  | [], o => by simp
  | b :: l, o => by
    rw [List.foldl_cons, foldl_agree f step hstep v l, hstep]
    by_cases h : o = f b
    · simp only [h, if_true, List.mem_cons, forall_eq_or_imp]
      tauto
    · rw [if_neg h]
      simp only [List.mem_cons, forall_eq_or_imp]
      constructor
      · rintro ⟨h0, -⟩
        cases h0
      · rintro ⟨ho, hb, -⟩
        exact absurd (ho.trans hb.symm) h

theorem owner_foldl (o : String) : ∀ (rest : List InformationLabel) (first : InformationLabel),
    (rest.foldl combineStep first).ownerId = some o ↔ ∀ l ∈ first :: rest, l.ownerId = some o := by
  have hproj : ∀ (rest : List InformationLabel) (first : InformationLabel), (rest.foldl combineStep first).ownerId =
      rest.foldl (fun o l => if o = l.ownerId then o else none) first.ownerId := by
    intro rest
    induction rest with
    | nil => exact fun _ => rfl
    | cons y rest ih =>
      intro first
      rw [List.foldl_cons, List.foldl_cons, ih]
      congr 1
      simp [combineStep]
  intro rest first
  rw [hproj, foldl_agree (fun l : InformationLabel => l.ownerId) _ (fun _ _ => rfl)]
  simp

theorem revision_foldl (r : Int) (rest : List InformationLabel) (first : InformationLabel) :
    (rest.map authorityPolicyRevision).foldl sameRevision first.authorityPolicyRevision = some r ↔
      ∀ l ∈ first :: rest, l.authorityPolicyRevision = some r := by
  rw [foldl_agree id sameRevision (fun _ _ => rfl)]
  simp

theorem mem_foldl_push {e : ProvenanceEntry} : ∀ (more ps : List ProvenanceEntry),
    e ∈ more.foldl (fun ps entry => if entry ∈ ps then ps else ps ++ [entry]) ps ↔ e ∈ ps ∨ e ∈ more
  | [], ps => by simp
  | entry :: more, ps => by
    rw [List.foldl_cons, mem_foldl_push more]
    by_cases h : entry ∈ ps
    · rw [if_pos h, List.mem_cons]
      constructor
      · rintro (h1 | h1) <;> simp [h1]
      · rintro (h1 | rfl | h1) <;> simp_all
    · rw [if_neg h]
      simp [or_assoc]

theorem provenance_foldl {e : ProvenanceEntry} : ∀ (rest : List InformationLabel) (first : InformationLabel),
    e ∈ (rest.foldl combineStep first).provenance ↔ ∃ l ∈ first :: rest, e ∈ l.provenance
  | [], first => by simp
  | y :: rest, first => by
    rw [List.foldl_cons, provenance_foldl rest]
    have hstep : e ∈ (combineStep first y).provenance ↔ e ∈ first.provenance ∨ e ∈ y.provenance := mem_foldl_push _ _
    simp only [List.mem_cons, exists_eq_or_imp, hstep, or_assoc]

/-! ## Combining once -/

theorem declassification_combine (h : combine ls operation = some c) : c.declassification = none := by
  cases ls with
  | nil => cases h
  | cons first rest => obtain rfl := Option.some.inj h; rfl

theorem destinations_combine (h : combine (first :: rest) operation = some c) :
    c.allowedDestinations = interAll '*' first.allowedDestinations (rest.map (·.allowedDestinations)) := by
  cases h
  exact destinations_foldl rest first

theorem sources_combine (h : combine ls operation = some c) {e : String × String × Option String × String} :
    e ∈ c.sources ↔ ∃ l ∈ ls, e ∈ l.sources := by
  cases ls with
  | nil => cases h
  | cons first rest =>
    cases h
    simp only [sources, List.mem_map]
    constructor
    · rintro ⟨e', ⟨e0, he0, rfl⟩, rfl⟩
      obtain ⟨l, hl, hmem⟩ := (provenance_foldl rest first).1 he0
      exact ⟨l, hl, e0, hmem, rfl⟩
    · rintro ⟨l, hl, e0, hmem, rfl⟩
      exact ⟨_, ⟨e0, (provenance_foldl rest first).2 ⟨l, hl, hmem⟩, rfl⟩, rfl⟩

theorem joins_combine (h : combine ls operation = some c) (hdecl : ∀ l ∈ ls, l.declassification = none)
    (hclash : NoClash ls) : Joins c ls := by
  have hcdecl := declassification_combine h
  cases ls with
  | nil => cases h
  | cons first rest =>
    refine ⟨fun d => ?_, ?_, ?_, fun o => ?_, fun r => ?_, fun e => sources_combine h⟩
    · rw [permits_iff hcdecl, destinations_combine h,
        permits_interAll (S := (first :: rest).map (·.allowedDestinations)) ?_ (by simp) (by simp; tauto)]
      · simp only [← List.map_cons (f := fun l : InformationLabel => l.allowedDestinations), List.forall_mem_map]
        exact forall₂_congr fun l hl => (permits_iff (hdecl l hl) d).symm
      · simpa only [NoClash, List.forall_mem_map] using hclash
    · cases h
      exact sensitivity_foldl rest first
    · cases h
      exact trust_foldl rest first
    · cases h
      exact owner_foldl o rest first
    · cases h
      exact revision_foldl r rest first

/-! ## Combining in steps -/

theorem built_combine (h : combine ls operation = some c) : Built ls c := by
  have hb : Built ((ls.map fun l => ([l], l)).map Prod.fst).flatten c := by
    refine .combine (ls.map fun l => ([l], l)) operation (fun p hp => ?_) ?_
    · obtain ⟨l, -, rfl⟩ := List.mem_map.1 hp
      exact .one l
    · simpa [Function.comp_def] using h
  have hflat : ∀ ls : List InformationLabel, ((ls.map fun l => ([l], l)).map Prod.fst).flatten = ls := by
    intro ls
    induction ls with
    | nil => rfl
    | cons l ls ih => simpa using ih
  rwa [hflat] at hb

theorem Built.declassification (h : Built ls c) (hdecl : ∀ l ∈ ls, l.declassification = none) :
    c.declassification = none := by
  cases h with
  | one l => exact hdecl c (by simp)
  | combine parts operation _ hc => exact declassification_combine hc

variable {parts : List (List InformationLabel × InformationLabel)}

theorem mem_leaves : l ∈ (parts.map Prod.fst).flatten ↔ ∃ p ∈ parts, l ∈ p.1 := by
  rw [← List.flatMap_def, List.mem_flatMap]

theorem Built.mem_destinations (h : Built ls c) : ∀ {g : List Char}, g ∈ c.allowedDestinations →
    ∃ l ∈ ls, g ∈ l.allowedDestinations := by
  induction h with
  | one l => exact fun hg => ⟨l, by simp, hg⟩
  | @combine c parts operation _ hc ih =>
    intro g hg
    obtain ⟨p, hp, hgp⟩ : ∃ p ∈ parts, g ∈ p.2.allowedDestinations := by
      cases hparts : parts.map Prod.snd with
      | nil => rw [hparts] at hc; cases hc
      | cons first rest =>
        rw [hparts] at hc
        rw [destinations_combine hc] at hg
        obtain ⟨x, hx, hgx⟩ := mem_interAll hg
        obtain ⟨l, hl, rfl⟩ : ∃ l ∈ first :: rest, l.allowedDestinations = x := by
          simpa only [← List.map_cons (f := fun l : InformationLabel => l.allowedDestinations), List.mem_map] using hx
        rw [← hparts] at hl
        obtain ⟨p, hp, rfl⟩ := List.mem_map.1 hl
        exact ⟨p, hp, hgx⟩
    obtain ⟨l, hl, hgl⟩ := ih p hp hgp
    exact ⟨l, mem_leaves.2 ⟨p, hp, hl⟩, hgl⟩

theorem Joins.flatten (h : Joins c (parts.map Prod.snd)) (hparts : ∀ p ∈ parts, Joins p.2 p.1) :
    Joins c (parts.map Prod.fst).flatten := by
  have hall : ∀ {P : InformationLabel → Prop}, (∀ p ∈ parts, (P p.2 ↔ ∀ l ∈ p.1, P l)) →
      ((∀ l ∈ parts.map Prod.snd, P l) ↔ ∀ l ∈ (parts.map Prod.fst).flatten, P l) := by
    intro P hP
    constructor
    · intro hl l hleaf
      obtain ⟨p, hp, hlp⟩ := mem_leaves.1 hleaf
      exact (hP p hp).1 (hl p.2 (List.mem_map_of_mem hp)) l hlp
    · rintro hl _ hsnd
      obtain ⟨p, hp, rfl⟩ := List.mem_map.1 hsnd
      exact (hP p hp).2 fun l hlp => hl l (mem_leaves.2 ⟨p, hp, hlp⟩)
  refine ⟨fun d => ?_, ⟨?_, ?_⟩, ⟨?_, ?_⟩, fun o => ?_, fun r => ?_, fun e => ?_⟩
  · rw [h.permits d, hall fun p hp => (hparts p hp).permits d]
  · intro l hl
    obtain ⟨p, hp, hlp⟩ := mem_leaves.1 hl
    exact ((hparts p hp).highest.1 l hlp).trans (h.highest.1 p.2 (List.mem_map_of_mem hp))
  · obtain ⟨l', hl', heq⟩ := h.highest.2
    obtain ⟨p, hp, rfl⟩ := List.mem_map.1 hl'
    obtain ⟨l, hl, heq'⟩ := (hparts p hp).highest.2
    exact ⟨l, mem_leaves.2 ⟨p, hp, hl⟩, heq.trans heq'⟩
  · intro l hl
    obtain ⟨p, hp, hlp⟩ := mem_leaves.1 hl
    exact (h.lowest.1 p.2 (List.mem_map_of_mem hp)).trans ((hparts p hp).lowest.1 l hlp)
  · obtain ⟨l', hl', heq⟩ := h.lowest.2
    obtain ⟨p, hp, rfl⟩ := List.mem_map.1 hl'
    obtain ⟨l, hl, heq'⟩ := (hparts p hp).lowest.2
    exact ⟨l, mem_leaves.2 ⟨p, hp, hl⟩, heq.trans heq'⟩
  · rw [h.owner o, hall fun p hp => (hparts p hp).owner o]
  · rw [h.revision r, hall fun p hp => (hparts p hp).revision r]
  · rw [h.sources e]
    constructor
    · rintro ⟨_, hsnd, he⟩
      obtain ⟨p, hp, rfl⟩ := List.mem_map.1 hsnd
      obtain ⟨l, hl, hel⟩ := ((hparts p hp).sources e).1 he
      exact ⟨l, mem_leaves.2 ⟨p, hp, hl⟩, hel⟩
    · rintro ⟨l, hl, hel⟩
      obtain ⟨p, hp, hlp⟩ := mem_leaves.1 hl
      exact ⟨p.2, List.mem_map_of_mem hp, ((hparts p hp).sources e).2 ⟨l, hlp, hel⟩⟩

theorem Joins.one (l : InformationLabel) : Joins l [l] := by
  constructor <;> simp

theorem Joins.alike {c' : InformationLabel} {ls' : List InformationLabel} (h : Joins c ls) (h' : Joins c' ls')
    (hsame : ∀ l, l ∈ ls ↔ l ∈ ls') : Alike c c' := by
  have hex : ∀ {P : InformationLabel → Prop}, (∃ l ∈ ls, P l) ↔ ∃ l ∈ ls', P l := by simp [hsame]
  have hall : ∀ {P : InformationLabel → Prop}, (∀ l ∈ ls, P l) ↔ ∀ l ∈ ls', P l := by simp [hsame]
  refine ⟨fun d => ?_, ?_, ?_, ?_, ?_, fun e => ?_⟩
  · rw [Bool.eq_iff_iff, h.permits d, h'.permits d, hall]
  · obtain ⟨l, hl, heq⟩ := h.highest.2
    obtain ⟨l', hl', heq'⟩ := h'.highest.2
    refine Sensitivity.rank_inj (le_antisymm ?_ ?_)
    · rw [heq]; exact h'.highest.1 l ((hsame l).1 hl)
    · rw [heq']; exact h.highest.1 l' ((hsame l').2 hl')
  · obtain ⟨l, hl, heq⟩ := h.lowest.2
    obtain ⟨l', hl', heq'⟩ := h'.lowest.2
    refine le_antisymm ?_ ?_
    · rw [heq']; exact h.lowest.1 l' ((hsame l').2 hl')
    · rw [heq]; exact h'.lowest.1 l ((hsame l).1 hl)
  · exact Option.ext fun o => by rw [h.owner o, h'.owner o, hall]
  · exact Option.ext fun r => by rw [h.revision r, h'.revision r, hall]
  · rw [h.sources e, h'.sources e, hex]

theorem Built.joins (h : Built ls c) {S : List InformationLabel} (hsub : ls ⊆ S)
    (hdecl : ∀ l ∈ S, l.declassification = none) (hclash : NoClash S) : Joins c ls := by
  induction h with
  | one l => exact .one l
  | @combine c parts operation hparts hc ih =>
    have hpsub : ∀ p ∈ parts, p.1 ⊆ S := fun p hp l hl =>
      hsub (mem_leaves.2 ⟨p, hp, hl⟩)
    have hjoins : ∀ p ∈ parts, Joins p.2 p.1 := fun p hp => ih p hp (hpsub p hp)
    have hpdecl : ∀ p ∈ parts, p.2.declassification = none := fun p hp =>
      (hparts p hp).declassification fun l hl => hdecl l (hpsub p hp hl)
    refine (joins_combine hc (by simpa only [List.forall_mem_map] using hpdecl) ?_).flatten hjoins
    simp only [NoClash, List.forall_mem_map]
    intro p hp p' hp' hcl
    obtain ⟨q, d, hx, hy, hq, hno⟩ := hcl
    obtain ⟨y, hyl, hyq⟩ := (hparts p' hp').mem_destinations hy
    -- the second pattern belongs to a label, with which the first result does not clash
    have hexact := @not_clash_of_exact _ _ '*' p.2.allowedDestinations y.allowedDestinations
      (p.1.map (·.allowedDestinations))
    refine hexact (fun d => ?_) ?_ ⟨q, d, hx, hyq, hq, hno⟩
    · rw [← permits_iff (hpdecl p hp), (hjoins p hp).permits d]
      simp only [List.forall_mem_map]
      exact forall₂_congr fun l hl => permits_iff (hdecl l (hpsub p hp hl)) d
    · simp only [List.forall_mem_map]
      exact fun l hl => hclash l (hpsub p hp hl) y (hpsub p' hp' hyl)

/-- **Combining is exact on a list of labels exactly where none of them clash.** -/
theorem combine_joins_iff (ls : List InformationLabel) (hdecl : ∀ l ∈ ls, l.declassification = none) :
    JoinsAll ls ↔ NoClash ls := by
  constructor
  · intro h x hx y hy hcl
    obtain ⟨c, hc, hb⟩ := h.total [x, y] "merge" (List.cons_ne_nil _ _)
    have hj := h.joins _ c hb (by simp [hx, hy])
    obtain ⟨d, hd, hno⟩ := hcl.widens
    have hcd : c.permitsDestination d := by
      rw [permits_iff (declassification_combine hc), destinations_combine hc]
      exact hd
    exact hno ((permits_iff (hdecl x hx) d).1 ((hj.permits d).1 hcd x (by simp)))
  · intro hclash
    refine ⟨fun used operation hne => ?_, fun used c hb hsub => hb.joins hsub hdecl hclash, ?_⟩
    · obtain ⟨first, rest, rfl⟩ := List.exists_cons_of_ne_nil hne
      exact ⟨_, rfl, built_combine rfl⟩
    · intro used used' c c' hb hb' hsub hsame
      have hsub' : used' ⊆ ls := fun l hl => hsub ((hsame l).2 hl)
      exact (hb.joins hsub hdecl hclash).alike (hb'.joins hsub' hdecl hclash) hsame

theorem combine_joins_narrowed :
    JoinsAll [observed .sensitive (some "owner-1") "Controller" "message" "run-1" ["transport:*".toList],
      observed .sensitive (some "owner-1") "Controller" "message" "effect-1" ["transport:signal:alice".toList]] := by
  refine (combine_joins_iff _ (by decide)).2 ?_
  rintro x hx y - ⟨q, d, hq, -, -, -⟩
  have hlast : ∀ p ∈ x.allowedDestinations, p.reverse.take 2 ≠ ['*', '*'] := by
    simp only [List.mem_cons, List.not_mem_nil, or_false] at hx
    rcases hx with rfl | rfl <;> decide
  exact hlast _ hq (by simp)

/-- A destination the first label forbids: `a**` allows what begins with `a*`. -/
theorem combine_leaks : ¬ ∀ (labels : List InformationLabel) (operation : String) (c : InformationLabel),
    (∀ l ∈ labels, l.declassification = none) → combine labels operation = some c →
      ∀ d, c.permitsDestination d = true ↔ ∀ l ∈ labels, l.permitsDestination d = true := by
  intro h
  have hd := (h [observed .sensitive (some "owner-1") "Controller" "message" "e1" ["a**".toList],
    observed .sensitive (some "owner-1") "Controller" "message" "e2" ["a*".toList]] "merge" _ (by decide) rfl
    "ab".toList).1 (by decide)
  exact absurd (hd _ List.mem_cons_self) (by decide)

end InformationLabel
end Execlaw
