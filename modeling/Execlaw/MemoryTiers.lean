import Execlaw.Decimals
import Execlaw.MemoryPrivacy
/-!
# MemoryTiers — hits, tiers and their promotion (`core/src/memory.rs`, `core/src/memory_lifecycle.rs`)

`get` reads the projection row of a place where its assertion may be served, and else the legacy row.  `bump_hit` and
`set_tier` write the projection row wherever there is one.  The two part where a projection row is not served
(`addressed`), and a count that does not fit an `i64` is lost to every reader.

`approve` and `reject` are statements one after the other on a shared connection; `Turn` is one of them.
-/
namespace Execlaw

open Table

/-- A row of `memory_entries`; past `i64` SQLite counts hits in reals, which no reader takes. -/
structure EntryRow where
  scope : String
  trustClass : String
  key : String
  valueBlob : List UInt8
  ttlExpires : Option Int
  updatedAt : Int
  tier : MemoryTier
  hits : Int
  lastUsedAt : Option Int
  createdAt : Int

abbrev Place := String × String × String

def EntryRow.place (r : EntryRow) : Place := (r.scope, r.trustClass, r.key)

/-- The columns as `get` reads them. -/
def EntryRow.read (r : EntryRow) : Option MemoryEntry :=
  if fitsI64 r.hits then
    some ⟨r.scope, r.trustClass, r.key, r.valueBlob, r.ttlExpires, r.updatedAt, r.tier, r.hits.toNat, r.lastUsedAt,
      r.createdAt⟩
  else none

inductive PromotionReason | frequency | recency | reflection | manual

inductive ProposedBy | sweeper | planner | controller

inductive PromotionDecision | approved | rejected
deriving DecidableEq

structure PromotionProposal where
  id : Int
  scope : String
  trustClass : String
  key : String
  fromTier : MemoryTier
  toTier : MemoryTier
  reason : PromotionReason
  proposedBy : ProposedBy
  proposedAt : Int
  decidedAt : Option Int := none
  decision : Option PromotionDecision := none
  decisionNote : Option String := none

def PromotionProposal.place (p : PromotionProposal) : Place := (p.scope, p.trustClass, p.key)

def PromotionProposal.Ok (p : PromotionProposal) : Prop := p.decidedAt.isSome = p.decision.isSome

inductive LifecycleError
  | db (e : DbError)
  | notFound (id : Int)
  | alreadyDecided (id : Int)
  | targetMissing (id : Int)
  | staleTarget (id : Int)

/-- The memory tables with the legacy entries and the proposals; `lastId` is the `AUTOINCREMENT` counter. -/
structure MemoryTierDb where
  mem : MemoryDb
  entries : Keyed EntryRow.place (fun _ => True)
  promotions : Keyed PromotionProposal.id PromotionProposal.Ok
  lastId : Int

structure Touch where
  set : ProjectionRow → ProjectionRow
  place : ∀ p, (set p).place = p.place
  serves : ∀ p, (set p).assertionId = p.assertionId

def Touch.change (c : Touch) : Change ProjectionRow.place (fun _ => True) where
  takes := fun _ => true
  set := c.set
  key_set := c.place
  keeps_ok := fun _ _ _ => trivial

theorem MemoryTables.Linked.touch {t : MemoryTables} (h : t.Linked) (place : Place) (c : Touch) :
    { t with projection := t.projection.update place c.change : MemoryTables }.Linked where
  superseded := h.superseded
  evidence := h.evidence
  reviewed := h.reviewed
  projected := by
    intro p hp
    obtain ⟨q, hq, hplace, hset⟩ := Keyed.mem_update hp
    obtain ⟨a, ha, hscope, htrust, happroved⟩ := h.projected q hq
    simp only [ProjectionRow.place, Prod.mk.injEq] at hplace
    have hid : p.assertionId = q.assertionId := by
      rcases hset with ⟨-, rfl⟩ | ⟨-, rfl⟩
      · rfl
      · exact c.serves q
    exact ⟨a, hid ▸ ha, hscope.trans hplace.1, htrust.trans hplace.2.1, happroved⟩

def MemoryDb.touch (db : MemoryDb) (place : Place) (c : Touch) : MemoryDb :=
  ⟨{ db.toMemoryTables with projection := db.projection.update place c.change }, db.linked.touch place c⟩

def Touch.bump (now : Int) : Touch where
  set := fun p => { p with hits := p.hits + 1, lastUsedAt := some now }
  place := fun _ => rfl
  serves := fun _ => rfl

def Touch.tier (tier : MemoryTier) : Touch where
  set := fun p => { p with tier }
  place := fun _ => rfl
  serves := fun _ => rfl

def EntryRow.change (set : EntryRow → EntryRow) (h : ∀ r, (set r).place = r.place) :
    Change EntryRow.place (fun _ => True) where
  takes := fun _ => true
  set := set
  key_set := h
  keeps_ok := fun _ _ _ => trivial

namespace MemoryTierDb

def empty : MemoryTierDb := ⟨.empty, .empty, .empty, 0⟩

variable (codec : MemoryCodec)

def hitsAsI64 (hits : Nat) : Int := (hits : Int).bmod (2 ^ 64)

def upsert (e : MemoryEntry) (db : MemoryTierDb) : MemoryTierDb :=
  let createdAt := if e.createdAt = 0 then e.updatedAt else e.createdAt
  { db with
    entries := db.entries.upsert
      ⟨e.scope, e.trustClass, e.key, e.valueBlob, e.ttlExpires, e.updatedAt, e.tier, hitsAsI64 e.hits, e.lastUsedAt,
        createdAt⟩ trivial
      (EntryRow.change
        (fun r => { r with valueBlob := e.valueBlob, ttlExpires := e.ttlExpires, updatedAt := e.updatedAt })
        fun _ => rfl) }

/-- The first query of `get`. -/
def projected (db : MemoryTierDb) (place : Place) : Option MemoryEntry :=
  (MemoryStore.projected db.mem place.1 place.2.1 place.2.2).bind fun x =>
    if fitsI64 x.1.hits then some (MemoryStore.entry codec x.1 x.2) else none

def legacy (db : MemoryTierDb) (place : Place) : Option MemoryEntry := (db.entries.row place).bind EntryRow.read

def get (db : MemoryTierDb) (place : Place) : Option MemoryEntry := (db.projected codec place).or (db.legacy place)

def notI64 (index : Nat) : DbError := .sqlite s!"Invalid column type Real at index: {index}, name: hits"

def bumpHit (place : Place) (now : Int) (db : MemoryTierDb) : Except DbError Nat × MemoryTierDb :=
  match db.mem.projection.row place with
  | some p =>
    (if fitsI64 (p.hits + 1) then .ok (p.hits + 1) else .error (notI64 0),
      { db with mem := db.mem.touch place (.bump now) })
  | none =>
    let entries := db.entries.update place
      (EntryRow.change (fun r => { r with hits := r.hits + 1, lastUsedAt := some now }) fun _ => rfl)
    (.ok (((entries.row place).bind fun r => if fitsI64 r.hits then some r.hits.toNat else none).getD 0),
      { db with entries })

def setTier (place : Place) (tier : MemoryTier) (db : MemoryTierDb) : MemoryTierDb :=
  match db.mem.projection.row place with
  | some _ => { db with mem := db.mem.touch place (.tier tier) }
  | none => { db with entries := db.entries.update place (EntryRow.change (fun r => { r with tier }) fun _ => rfl) }

/-! ## Proposals -/

def propose (scope trustClass key : String) (fromTier toTier : MemoryTier) (reason : PromotionReason)
    (proposedBy : ProposedBy) (now : Int) (db : MemoryTierDb) : Except LifecycleError Int × MemoryTierDb :=
  let p : PromotionProposal := ⟨db.lastId + 1, scope, trustClass, key, fromTier, toTier, reason, proposedBy, now, none,
    none, none⟩
  match db.promotions.rows.find? fun q => q.place == p.place && q.toTier == toTier && q.decidedAt.isNone with
  | some q => (.ok q.id, db)
  | none =>
    if (db.entries.row p.place).isSome then
      (.ok p.id, { db with promotions := db.promotions.insertOrIgnore p rfl, lastId := p.id })
    else (.error (.db MemoryDb.foreignKeyFailed), db)

def pending (id : Int) (db : MemoryTierDb) : Except LifecycleError PromotionProposal :=
  match db.promotions.row id with
  | none => .error (.notFound id)
  | some p => if p.decidedAt.isSome then .error (.alreadyDecided id) else .ok p

/-- The second statement of `approve`. -/
def checkTarget (p : PromotionProposal) (db : MemoryTierDb) : Except LifecycleError Unit :=
  match db.get codec p.place with
  | none => .error (.targetMissing p.id)
  | some target => if target.tier ≠ p.fromTier then .error (.staleTarget p.id) else .ok ()

def decided (now : Int) (decision : PromotionDecision) (note : Option String) :
    Change PromotionProposal.id PromotionProposal.Ok where
  takes := fun p => p.decidedAt.isNone
  set := fun p => { p with decidedAt := some now, decision := some decision, decisionNote := note }
  key_set := fun _ => rfl
  keeps_ok := fun _ _ _ => rfl

def stampDecision (id now : Int) (decision : PromotionDecision) (note : Option String) (db : MemoryTierDb) :
    MemoryTierDb :=
  { db with promotions := db.promotions.update id (decided now decision note) }

def approve (id now : Int) (note : Option String) (db : MemoryTierDb) : Except LifecycleError Unit × MemoryTierDb :=
  match pending id db with
  | .error e => (.error e, db)
  | .ok p =>
    match checkTarget codec p db with
    | .error e => (.error e, db)
    | .ok () => (.ok (), ((db.setTier p.place p.toTier).stampDecision id now .approved note))

def reject (id now : Int) (note : Option String) (db : MemoryTierDb) : Except LifecycleError Unit × MemoryTierDb :=
  match pending id db with
  | .error e => (.error e, db)
  | .ok _ => (.ok (), db.stampDecision id now .rejected note)

/-! ## One entry for readers and writers -/

/-- The projection row of the place, if there is one, is the one that `get` serves. -/
def addressed (db : MemoryTierDb) (place : Place) : Bool :=
  (db.mem.projection.row place).all fun p =>
    fitsI64 p.hits && (db.mem.assertions.row p.assertionId).any (MemoryStore.servable db.mem)

def countable (db : MemoryTierDb) (place : Place) : Bool :=
  match db.mem.projection.row place with
  | some p => fitsI64 (p.hits + 1)
  | none => (db.entries.row place).all fun r => decide (0 ≤ r.hits) && fitsI64 (r.hits + 1)

variable {codec} {db : MemoryTierDb} {place : Place}

/-- What `get` reads, and whether the updates write it. -/
inductive Reading (codec : MemoryCodec) (db : MemoryTierDb) (place : Place) : Option MemoryEntry → Bool → Prop
  | served {p : ProjectionRow} {a : MemoryAssertion} (row : db.mem.projection.row place = some p)
      (serves : MemoryStore.projected db.mem place.1 place.2.1 place.2.2 = some (p, a)) (fits : fitsI64 p.hits = true) :
      Reading codec db place (some (MemoryStore.entry codec p a)) true
  | hidden {p : ProjectionRow} (row : db.mem.projection.row place = some p)
      (unserved : ∀ q a, MemoryStore.projected db.mem place.1 place.2.1 place.2.2 = some (q, a) →
        fitsI64 q.hits = false) :
      Reading codec db place (db.legacy place) false
  | plain (row : db.mem.projection.row place = none) : Reading codec db place (db.legacy place) true

theorem projected_eq_none_of_row (db : MemoryDb) {place : Place} (h : db.projection.row place = none) :
    MemoryStore.projected db place.1 place.2.1 place.2.2 = none := by
  unfold MemoryStore.projected
  rw [show (place.1, place.2.1, place.2.2) = place from rfl, h]
  rfl

variable {p : ProjectionRow}

theorem projected_of_row (db : MemoryDb) {place : Place} (h : db.projection.row place = some p) :
    MemoryStore.projected db place.1 place.2.1 place.2.2 =
      ((db.assertions.row p.assertionId).filter (MemoryStore.servable db)).map fun a => (p, a) := by
  unfold MemoryStore.projected
  rw [show (place.1, place.2.1, place.2.2) = place from rfl, h]
  simp only [Option.bind_eq_bind, Option.bind_some]
  generalize db.assertions.row p.assertionId = o
  cases o with
  | none => rfl
  | some a =>
    rw [Option.bind_some, Option.filter_some]
    split <;> rfl

theorem get_of_projected {a : MemoryAssertion}
    (h : MemoryStore.projected db.mem place.1 place.2.1 place.2.2 = some (p, a)) (hfits : fitsI64 p.hits = true) :
    db.get codec place = some (MemoryStore.entry codec p a) := by
  rw [get, projected, h, Option.bind_some, if_pos hfits, Option.some_or]

theorem get_of_unprojected (h : ∀ p a, MemoryStore.projected db.mem place.1 place.2.1 place.2.2 = some (p, a) →
    fitsI64 p.hits = false) : db.get codec place = db.legacy place := by
  unfold get projected
  cases hserves : MemoryStore.projected db.mem place.1 place.2.1 place.2.2 with
  | none => rw [Option.bind_none, Option.none_or]
  | some x => rw [Option.bind_some, if_neg (by rw [h x.1 x.2 hserves]; exact Bool.false_ne_true), Option.none_or]

/-- **A read** is of the projection row that is served, of the legacy row behind one that is not, or of a legacy row. -/
theorem reading (codec : MemoryCodec) (db : MemoryTierDb) (place : Place) :
    Reading codec db place (db.get codec place) (db.addressed place) := by
  unfold addressed
  cases hrow : db.mem.projection.row place with
  | none =>
    have hserves := projected_eq_none_of_row db.mem hrow
    rw [get_of_unprojected (by simp only [hserves, reduceCtorEq, false_implies, implies_true])]
    exact .plain hrow
  | some p =>
    have hserves := projected_of_row db.mem hrow
    rw [Option.all_some]
    by_cases hserved : fitsI64 p.hits = true ∧
        (db.mem.assertions.row p.assertionId).any (MemoryStore.servable db.mem) = true
    · obtain ⟨hfits, hany⟩ := hserved
      obtain ⟨a, ha, hservable⟩ := (Option.any_eq_true _ _).1 hany
      rw [ha, Option.filter_some_pos hservable, Option.map_some] at hserves
      rw [hfits, hany, get_of_projected hserves hfits]
      exact .served hrow hserves hfits
    · have hunserved : ∀ q a, MemoryStore.projected db.mem place.1 place.2.1 place.2.2 = some (q, a) →
          q = p ∧ fitsI64 q.hits = false := by
        intro q a hq
        rw [hserves] at hq
        obtain ⟨b, hb, heq⟩ := Option.map_eq_some_iff.1 hq
        cases heq
        obtain ⟨hb, hservable⟩ := Option.filter_eq_some_iff.1 hb
        refine ⟨rfl, Bool.eq_false_iff.2 fun hfits => hserved ⟨hfits, ?_⟩⟩
        rw [hb]
        exact hservable
      rw [get_of_unprojected fun q a hq => (hunserved q a hq).2,
        Bool.eq_false_iff.2 fun hboth => hserved (Bool.and_eq_true_iff.1 hboth)]
      exact .hidden hrow fun q a hq => (hunserved q a hq).2

theorem projected_touch (db : MemoryDb) (place : Place) (c : Touch) :
    MemoryStore.projected (db.touch place c) place.1 place.2.1 place.2.2 =
      (MemoryStore.projected db place.1 place.2.1 place.2.2).map fun x => (c.set x.1, x.2) := by
  have htouched : (db.touch place c).projection.row place = (db.projection.row place).map c.set :=
    (Keyed.row_update_self db.projection place c.change).trans rfl
  cases hrow : db.projection.row place with
  | none =>
    rw [hrow] at htouched
    rw [projected_eq_none_of_row _ htouched, projected_eq_none_of_row _ hrow]
    rfl
  | some p =>
    rw [hrow] at htouched
    rw [projected_of_row _ htouched, projected_of_row _ hrow, c.serves, Option.map_map]
    rfl

theorem unserved_touch {c : Touch} (hcount : ∀ p, fitsI64 p.hits = false → fitsI64 (c.set p).hits = false)
    (h : ∀ q a, MemoryStore.projected db.mem place.1 place.2.1 place.2.2 = some (q, a) → fitsI64 q.hits = false) :
    { db with mem := db.mem.touch place c : MemoryTierDb }.get codec place = db.legacy place := by
  refine get_of_unprojected fun q a hq => ?_
  rw [projected_touch] at hq
  obtain ⟨x, hx, heq⟩ := Option.map_eq_some_iff.1 hq
  cases heq
  exact hcount _ (h x.1 x.2 hx)

theorem legacy_update (c : Change EntryRow.place (fun _ => True)) :
    { db with entries := db.entries.update place c : MemoryTierDb }.legacy place =
      (db.entries.row place).bind fun r => (c.apply r).read := by
  unfold legacy
  rw [Keyed.row_update_self, Option.bind_map]
  rfl

/-! ## `set_tier` -/

theorem get_setTier (tier : MemoryTier) : (db.setTier place tier).get codec place =
    if db.addressed place then (db.get codec place).map fun e => { e with tier } else db.get codec place := by
  have hreading := reading codec db place
  generalize db.get codec place = o at hreading
  generalize db.addressed place = b at hreading
  unfold setTier
  cases hreading with
  | served hrow hserves hfits =>
    rw [hrow, if_pos rfl, Option.map_some]
    refine get_of_projected (p := (Touch.tier tier).set _) ?_ hfits
    rw [projected_touch, hserves]
    rfl
  | hidden hrow hunserved =>
    rw [hrow]
    exact unserved_touch (fun _ h => h) hunserved
  | plain hrow =>
    rw [hrow, if_pos rfl]
    refine (get_of_unprojected (by simp only [projected_eq_none_of_row db.mem hrow, reduceCtorEq, false_implies,
      implies_true])).trans ((legacy_update _).trans ?_)
    unfold legacy
    rw [Option.map_bind]
    congr 1
    funext r
    simp only [EntryRow.change, Change.apply, if_true, EntryRow.read, Function.comp_apply]
    split <;> rfl

theorem addressed_setTier (tier : MemoryTier) : (db.setTier place tier).addressed place = db.addressed place := by
  unfold setTier
  cases hrow : db.mem.projection.row place with
  | none => rfl
  | some p =>
    have htouched : (db.mem.touch place (.tier tier)).projection.row place = some ((Touch.tier tier).set p) := by
      refine (Keyed.row_update_self db.mem.projection place (Touch.tier tier).change).trans ?_
      rw [hrow]
      rfl
    unfold addressed
    rw [htouched, hrow]
    rfl

/-- What `get` returned, it returns with the new tier. -/
def TierLaw (codec : MemoryCodec) (db : MemoryTierDb) (place : Place) : Prop :=
  ∀ e tier, db.get codec place = some e → (db.setTier place tier).get codec place = some { e with tier }

theorem exists_tier_ne (t : MemoryTier) : ∃ t', t ≠ t' := by
  cases t
  · exact ⟨.cold, nofun⟩
  · exact ⟨.hot, nofun⟩
  · exact ⟨.hot, nofun⟩

theorem tierLaw_iff : TierLaw codec db place ↔ db.get codec place = none ∨ db.addressed place = true := by
  unfold TierLaw
  simp only [get_setTier]
  cases hget : db.get codec place with
  | none => simp
  | some e =>
    cases db.addressed place with
    | true => simp
    | false =>
      obtain ⟨tier, htier⟩ := exists_tier_ne e.tier
      refine iff_of_false (fun h => htier ?_) (by simp)
      exact congrArg MemoryEntry.tier (Option.some.inj (h e tier rfl))

/-! ## `bump_hit` -/

/-- What `get` returned, it returns with one more hit, and the call returned that count. -/
def BumpLaw (codec : MemoryCodec) (db : MemoryTierDb) (place : Place) : Prop :=
  ∀ e now, db.get codec place = some e → (db.bumpHit place now).1 = .ok (e.hits + 1) ∧
    (db.bumpHit place now).2.get codec place = some { e with hits := e.hits + 1, lastUsedAt := some now }

theorem read_bump (r : EntryRow) (now : Int) :
    (∀ e, r.read = some e → Except.ok (ε := DbError)
        ((if fitsI64 (r.hits + 1) then some (r.hits + 1).toNat else none).getD 0) = .ok (e.hits + 1) ∧
      ({ r with hits := r.hits + 1, lastUsedAt := some now } : EntryRow).read =
        some { e with hits := e.hits + 1, lastUsedAt := some now }) ↔
      r.read = none ∨ (decide (0 ≤ r.hits) && fitsI64 (r.hits + 1)) = true := by
  unfold EntryRow.read
  cases hfits : fitsI64 r.hits with
  | false => simp
  | true =>
    cases hnext : fitsI64 (r.hits + 1) with
    | false => simp
    | true =>
      by_cases hpos : 0 ≤ r.hits
      · have hcount : (r.hits + 1).toNat = r.hits.toNat + 1 := by omega
        simp [hpos, hcount]
      · have hcount : (r.hits + 1).toNat ≠ r.hits.toNat + 1 := by omega
        simp [hpos, hcount]

theorem bumpHit_of_row (h : db.mem.projection.row place = some p) (now : Int) :
    db.bumpHit place now = (if fitsI64 (p.hits + 1) then .ok (p.hits + 1) else .error (notI64 0),
      { db with mem := db.mem.touch place (.bump now) }) := by
  unfold bumpHit
  rw [h]

theorem bumpHit_of_none (h : db.mem.projection.row place = none) (now : Int) :
    (db.bumpHit place now).1 =
        .ok (((db.entries.row place).bind fun r =>
          if fitsI64 (r.hits + 1) then some (r.hits + 1).toNat else none).getD 0) ∧
      (db.bumpHit place now).2.get codec place =
        (db.entries.row place).bind fun r =>
          ({ r with hits := r.hits + 1, lastUsedAt := some now } : EntryRow).read := by
  unfold bumpHit
  rw [h]
  constructor
  · simp only [Keyed.row_update_self, Option.bind_map]
    rfl
  · refine (get_of_unprojected fun q a hq => ?_).trans (legacy_update _)
    cases (projected_eq_none_of_row db.mem h).symm.trans hq

theorem bumpLaw_iff : BumpLaw codec db place ↔
    db.get codec place = none ∨ db.addressed place = true ∧ db.countable place = true := by
  have hreading := reading codec db place
  unfold BumpLaw
  generalize db.get codec place = o at hreading ⊢
  generalize db.addressed place = b at hreading ⊢
  cases hreading with
  | @served p a hrow hserves hfits =>
    have hcountable : db.countable place = fitsI64 (p.hits + 1) := by
      unfold countable
      rw [hrow]
    rw [hcountable]
    simp only [bumpHit_of_row hrow]
    cases hnext : fitsI64 (p.hits + 1) with
    | false =>
      refine iff_of_false (fun h => ?_) (by simp)
      cases (h _ 0 rfl).1
    | true =>
      refine iff_of_true (fun e now he => ?_) (.inr ⟨trivial, rfl⟩)
      cases he
      refine ⟨rfl, ?_⟩
      refine (get_of_projected (p := (Touch.bump now).set p) (a := a) ?_ hnext).trans rfl
      rw [projected_touch, hserves]
      rfl
  | @hidden p hrow hunserved =>
    simp only [bumpHit_of_row hrow]
    have hafter : ∀ now, { db with mem := db.mem.touch place (.bump now) : MemoryTierDb }.get codec place =
        db.legacy place := by
      intro now
      refine unserved_touch (fun q hq => ?_) hunserved
      have hlost := of_decide_eq_false hq
      exact decide_eq_false fun hfits => hlost (by simp only [Touch.bump] at hfits; omega)
    simp only [hafter]
    cases hlegacy : db.legacy place with
    | none => simp
    | some e =>
      refine iff_of_false (fun h => ?_) (by simp)
      have hhits := congrArg MemoryEntry.hits (Option.some.inj (h e 0 rfl).2)
      exact absurd hhits (Nat.ne_of_lt (Nat.lt_succ_self _))
  | plain hrow =>
    have hcountable : db.countable place =
        (db.entries.row place).all fun r => decide (0 ≤ r.hits) && fitsI64 (r.hits + 1) := by
      unfold countable
      rw [hrow]
    rw [hcountable]
    unfold legacy
    simp only [true_and]
    have hbump := fun now => @bumpHit_of_none codec db place hrow now
    simp only [(hbump _).1, (hbump _).2]
    cases db.entries.row place with
    | none => simp
    | some r =>
      simp only [Option.bind_some, Option.all_some]
      refine ⟨fun h => (read_bump r 0).1 fun e => h e 0, fun h e now => (read_bump r now).2 h e⟩

/-! ## `approve` -/

/-- The tier that `get` shows. -/
def shownTier (codec : MemoryCodec) (db : MemoryTierDb) (place : Place) : Option MemoryTier :=
  (db.get codec place).map MemoryEntry.tier

theorem shownTier_setTier (tier : MemoryTier) : shownTier codec (db.setTier place tier) place =
    if db.addressed place then (shownTier codec db place).map fun _ => tier else shownTier codec db place := by
  unfold shownTier
  rw [get_setTier]
  split
  · rw [Option.map_map, Option.map_map]
    rfl
  · rfl

theorem promotions_setTier (tier : MemoryTier) : (db.setTier place tier).promotions = db.promotions := by
  unfold setTier
  split <;> rfl

variable {p : PromotionProposal} {id : Int}

theorem pending_eq_ok : pending id db = .ok p ↔ db.promotions.row id = some p ∧ p.decidedAt = none := by
  unfold pending
  cases db.promotions.row id with
  | none => simp
  | some q =>
    cases hdecided : q.decidedAt with
    | none =>
      simp only [hdecided, Option.isSome_none, Bool.false_eq_true, if_false, Except.ok.injEq, Option.some.injEq]
      exact ⟨fun h => ⟨h, h ▸ hdecided⟩, And.left⟩
    | some now =>
      simp only [hdecided, Option.isSome_some, if_true, reduceCtorEq, Option.some.injEq, false_iff, not_and]
      rintro rfl hnone
      rw [hdecided] at hnone
      cases hnone

theorem checkTarget_eq_ok : checkTarget codec p db = .ok () ↔ shownTier codec db p.place = some p.fromTier := by
  unfold checkTarget shownTier
  cases db.get codec p.place with
  | none => simp
  | some target => by_cases h : target.tier = p.fromTier <;> simp [h]

variable {note : Option String} {decision : PromotionDecision} {id now : Int}

theorem row_stampDecision (hrow : db.promotions.row id = some p) (hpending : p.decidedAt = none) :
    (db.stampDecision id now decision note).promotions.row id =
      some { p with decidedAt := some now, decision := some decision, decisionNote := note } :=
  Keyed.row_update_of_changed hrow (by simp [decided, hpending])

theorem stampDecision_decided (hrow : db.promotions.row id = some p) (hdecided : p.decidedAt ≠ none) :
    db.stampDecision id now decision note = db := by
  have hunchanged : db.promotions.changed id (decided now decision note) = false := by
    rw [Keyed.changed, hrow, Option.any_some]
    exact Option.isNone_eq_false_iff.2 (Option.isSome_iff_ne_none.2 hdecided)
  unfold stampDecision
  rw [Keyed.update_eq_self hunchanged]

theorem approve_ok (h : (approve codec id now note db).1 = .ok ()) :
    ∃ p, pending id db = .ok p ∧ shownTier codec db p.place = some p.fromTier ∧
      (approve codec id now note db).2 = (db.setTier p.place p.toTier).stampDecision id now .approved note := by
  unfold approve at h ⊢
  cases hpending : pending id db with
  | error e => simp [hpending] at h
  | ok p =>
    cases hcheck : checkTarget codec p db with
    | error e => simp [hpending, hcheck] at h
    | ok u => exact ⟨p, rfl, checkTarget_eq_ok.1 hcheck, by simp only [hcheck]⟩

theorem approve_of_pending (hpending : pending id db = .ok p) (hshown : shownTier codec db p.place = some p.fromTier)
    (now : Int) (note : Option String) :
    approve codec id now note db = (.ok (), (db.setTier p.place p.toTier).stampDecision id now .approved note) := by
  unfold approve
  rw [hpending]
  simp [checkTarget_eq_ok.2 hshown]

/-- After an approval that succeeds, `get` shows the tier of the proposal, which is decided as approved. -/
def ApproveLaw (codec : MemoryCodec) (db : MemoryTierDb) (id : Int) : Prop :=
  ∀ p now note, db.promotions.row id = some p → (approve codec id now note db).1 = .ok () →
    shownTier codec (approve codec id now note db).2 p.place = some p.toTier ∧
      (approve codec id now note db).2.promotions.row id =
        some { p with decidedAt := some now, decision := some .approved, decisionNote := note }

theorem approveLaw_iff : ApproveLaw codec db id ↔
    ∀ p, pending id db = .ok p → shownTier codec db p.place = some p.fromTier →
      db.addressed p.place = true ∨ p.fromTier = p.toTier := by
  constructor
  · intro h p hpending hshown
    obtain ⟨hrow, hundecided⟩ := pending_eq_ok.1 hpending
    have happrove := approve_of_pending hpending hshown 0 none
    have hafter := (h p 0 none hrow (congrArg Prod.fst happrove)).1
    rw [happrove] at hafter
    have hset : shownTier codec (db.setTier p.place p.toTier) p.place = some p.toTier := hafter
    rw [shownTier_setTier, hshown] at hset
    cases haddressed : db.addressed p.place with
    | true => exact .inl rfl
    | false =>
      rw [haddressed, if_neg Bool.false_ne_true] at hset
      exact .inr (Option.some.inj hset)
  · intro h p now note hrow hok
    obtain ⟨q, hpending, hshown, hafter⟩ := approve_ok hok
    obtain ⟨hq, hundecided⟩ := pending_eq_ok.1 hpending
    cases hrow.symm.trans hq
    rw [hafter]
    refine ⟨?_, row_stampDecision (by rw [promotions_setTier, hrow]) hundecided⟩
    have hset : shownTier codec (db.setTier p.place p.toTier) p.place = some p.toTier := by
      rw [shownTier_setTier, hshown]
      rcases h p hpending hshown with haddressed | htiers
      · rw [if_pos haddressed]
        rfl
      · rw [htiers]
        split <;> rfl
    exact hset

/-! ## Approvals and rejections of one proposal at the same time -/

/-- A call of `approve` or `reject`. -/
structure Decider where
  approves : Bool
  now : Int
  note : Option String

inductive Pc
  | start
  | loaded (p : PromotionProposal)
  | checked (p : PromotionProposal)
  | applied (p : PromotionProposal)
  | done (r : Except LifecycleError Unit)

def Pc.inFlight : Pc → Bool
  | .loaded _ | .checked _ | .applied _ => true
  | _ => false

def turn (codec : MemoryCodec) (id : Int) (d : Decider) : Pc → MemoryTierDb → Pc × MemoryTierDb
  | .start, db =>
    match pending id db with
    | .error e => (.done (.error e), db)
    | .ok p => (.loaded p, db)
  | .loaded p, db =>
    if d.approves then
      match checkTarget codec p db with
      | .error e => (.done (.error e), db)
      | .ok () => (.checked p, db)
    else (.done (.ok ()), db.stampDecision id d.now .rejected d.note)
  | .checked p, db => (.applied p, db.setTier p.place p.toTier)
  | .applied _, db => (.done (.ok ()), db.stampDecision id d.now .approved d.note)
  | .done r, db => (.done r, db)

def Decider.run (codec : MemoryCodec) (id : Int) (d : Decider) (db : MemoryTierDb) :
    Except LifecycleError Unit × MemoryTierDb :=
  if d.approves then approve codec id d.now d.note db else reject id d.now d.note db

theorem turns_eq_run (codec : MemoryCodec) (id : Int) (d : Decider) (db : MemoryTierDb) :
    (fun x : Pc × MemoryTierDb => turn codec id d x.1 x.2)^[4] (.start, db) =
      (.done (d.run codec id db).1, (d.run codec id db).2) := by
  simp only [Function.iterate_succ, Function.iterate_zero, Function.comp_apply, Decider.run, approve, reject, turn]
  cases hpending : pending id db with
  | error e => cases d.approves <;> rfl
  | ok p =>
    cases happroves : d.approves with
    | false => simp
    | true => cases hcheck : checkTarget codec p db <;> simp [hcheck]

structure World where
  db : MemoryTierDb
  calls : List (Decider × Pc)

namespace World

def start (db : MemoryTierDb) (deciders : List Decider) : World := ⟨db, deciders.map fun d => (d, .start)⟩

def exec (codec : MemoryCodec) (id : Int) (w : World) (i : Nat) : Unit × World :=
  match w.calls[i]? with
  | none => ((), w)
  | some (d, pc) => ((), ⟨(turn codec id d pc w.db).2, w.calls.set i (d, (turn codec id d pc w.db).1)⟩)

def quiet (id : Int) (w : World) (i : Nat) : Bool :=
  match w.calls[i]? with
  | some (d, .loaded _) =>
    d.approves || (w.db.promotions.row id).any (fun p => p.decidedAt.isSome) ||
      w.calls.all fun c => !(c.1.approves && c.2.inFlight)
  | _ => true

def Agrees (codec : MemoryCodec) (id : Int) (place : Place) (before : Option MemoryTier) (w : World) : Prop :=
  ∀ p, w.db.promotions.row id = some p →
    (p.decision = some .rejected → shownTier codec w.db place = before) ∧
    (p.decision = some .approved → shownTier codec w.db place ≠ before)

variable {id : Int} {p₀ : PromotionProposal} {before : Option MemoryTier} {w : World}

/-- What a call knows where it stands: `shown` is the tier that `get` shows. -/
def Standing (p₀ : PromotionProposal) (before shown : Option MemoryTier) (d : Decider) : Pc → Prop
  | .loaded p => p = p₀
  | .checked p => p = p₀ ∧ d.approves = true ∧ before = some p₀.fromTier
  | .applied p => p = p₀ ∧ d.approves = true ∧ before = some p₀.fromTier ∧ shown = some p₀.toTier
  | _ => True

inductive Verdict (id : Int) (p₀ : PromotionProposal) (before shown : Option MemoryTier) (w : World) : Prop
  | pending (row : w.db.promotions.row id = some p₀)
      (tier : shown = before ∨ ∃ d, (d, Pc.applied p₀) ∈ w.calls) : Verdict id p₀ before shown w
  | approved {p : PromotionProposal} (row : w.db.promotions.row id = some p) (decidedAt : p.decidedAt ≠ none)
      (decision : p.decision = some .approved) (was : before = some p₀.fromTier) (now : shown = some p₀.toTier) :
      Verdict id p₀ before shown w
  | rejected {p : PromotionProposal} (row : w.db.promotions.row id = some p) (decidedAt : p.decidedAt ≠ none)
      (decision : p.decision = some .rejected) (tier : shown = before)
      (idle : ∀ c ∈ w.calls, c.1.approves = true → c.2.inFlight = false) : Verdict id p₀ before shown w

structure Consistent (codec : MemoryCodec) (id : Int) (p₀ : PromotionProposal) (before : Option MemoryTier)
    (w : World) : Prop where
  ready : before = some p₀.fromTier → w.db.addressed p₀.place = true ∧ p₀.fromTier ≠ p₀.toTier
  standing : ∀ c ∈ w.calls, Standing p₀ before (shownTier codec w.db p₀.place) c.1 c.2
  verdict : Verdict id p₀ before (shownTier codec w.db p₀.place) w

theorem mem_set_of_ne {α : Type} {l : List α} {i : Nat} {a b x : α} (h : l[i]? = some a) (hb : b ∈ l) (hne : b ≠ a) :
    b ∈ l.set i x := by
  obtain ⟨j, hj⟩ := List.mem_iff_getElem?.1 hb
  refine List.mem_iff_getElem?.2 ⟨j, ?_⟩
  rw [List.getElem?_set_ne, hj]
  rintro rfl
  exact hne (Option.mem_unique hj h)

namespace Consistent

variable {i : Nat} {d : Decider} {pc pc' : Pc}

theorem standing_at (h : Consistent codec id p₀ before w) (hi : w.calls[i]? = some (d, pc)) :
    Standing p₀ before (shownTier codec w.db p₀.place) d pc :=
  h.standing (d, pc) (List.mem_of_getElem? hi)

theorem shown_cases (h : Consistent codec id p₀ before w) : shownTier codec w.db p₀.place = before ∨
    before = some p₀.fromTier ∧ shownTier codec w.db p₀.place = some p₀.toTier := by
  cases h.verdict with
  | pending row tier =>
    rcases tier with hsame | ⟨d, hd⟩
    · exact .inl hsame
    · exact .inr (h.standing _ hd).2.2
  | approved row hdecided decision was now => exact .inr ⟨was, now⟩
  | rejected row hdecided decision tier idle => exact .inl tier

theorem stay (h : Consistent codec id p₀ before w) (hi : w.calls[i]? = some (d, pc))
    (hpc : ∀ p, pc ≠ .applied p) (hstanding : Standing p₀ before (shownTier codec w.db p₀.place) d pc')
    (hflight : pc'.inFlight = true → pc.inFlight = true ∨ ∃ p, pending id w.db = .ok p) :
    Consistent codec id p₀ before ⟨w.db, w.calls.set i (d, pc')⟩ where
  ready := h.ready
  standing := by
    intro c hc
    rcases List.mem_or_eq_of_mem_set hc with hc | rfl
    · exact h.standing c hc
    · exact hstanding
  verdict := by
    cases h.verdict with
    | pending row tier =>
      refine .pending row (tier.imp_right ?_)
      rintro ⟨e, he⟩
      exact ⟨e, mem_set_of_ne hi he fun heq => hpc p₀ (Prod.mk.inj heq).2.symm⟩
    | approved row hdecided decision was now => exact .approved row hdecided decision was now
    | rejected row hdecided decision tier idle =>
      refine .rejected row hdecided decision tier fun c hc happroves => ?_
      rcases List.mem_or_eq_of_mem_set hc with hc | rfl
      · exact idle c hc happroves
      · refine Bool.eq_false_iff.2 fun hfly => ?_
        rcases hflight hfly with hfly | ⟨p, hpending⟩
        · rw [idle _ (List.mem_of_getElem? hi) happroves] at hfly
          cases hfly
        · obtain ⟨hrow, hnone⟩ := pending_eq_ok.1 hpending
          exact hdecided (Option.mem_unique row hrow ▸ hnone)

theorem stop (h : Consistent codec id p₀ before w) (hi : w.calls[i]? = some (d, pc)) (hpc : ∀ p, pc ≠ .applied p)
    (r : Except LifecycleError Unit) : Consistent codec id p₀ before ⟨w.db, w.calls.set i (d, .done r)⟩ :=
  h.stay hi hpc trivial fun hflight => absurd hflight Bool.false_ne_true

theorem set_tier (h : Consistent codec id p₀ before w) (hi : w.calls[i]? = some (d, .checked p₀)) :
    Consistent codec id p₀ before ⟨w.db.setTier p₀.place p₀.toTier, w.calls.set i (d, .applied p₀)⟩ := by
  obtain ⟨-, happroves, hbefore⟩ := h.standing_at hi
  have hshown : shownTier codec (w.db.setTier p₀.place p₀.toTier) p₀.place = some p₀.toTier := by
    rw [shownTier_setTier, if_pos (h.ready hbefore).1]
    rcases h.shown_cases with hsame | ⟨-, hto⟩
    · rw [hsame, hbefore]
      rfl
    · rw [hto]
      rfl
  refine ⟨fun _ => ⟨(addressed_setTier p₀.toTier).trans (h.ready hbefore).1, (h.ready hbefore).2⟩, fun c hc => ?_, ?_⟩
  · rw [hshown]
    rcases List.mem_or_eq_of_mem_set hc with hc | rfl
    · have hc := h.standing c hc
      cases hpc : c.2 with
      | applied p =>
        rw [hpc] at hc
        exact ⟨hc.1, hc.2.1, hc.2.2.1, rfl⟩
      | _ => rwa [hpc] at hc
    · exact ⟨rfl, happroves, hbefore, rfl⟩
  · rw [hshown]
    have hrows : (w.db.setTier p₀.place p₀.toTier).promotions = w.db.promotions := promotions_setTier _
    have hrow : ∀ {p}, w.db.promotions.row id = some p → (w.db.setTier p₀.place p₀.toTier).promotions.row id = some p :=
      fun hp => hrows ▸ hp
    cases h.verdict with
    | pending row tier =>
      exact .pending (hrow row) (.inr ⟨d, List.mem_set (List.getElem?_eq_some_iff.1 hi).1 _⟩)
    | approved row hdecided decision was now => exact .approved (hrow row) hdecided decision was rfl
    | rejected row hdecided decision tier idle => cases idle _ (List.mem_of_getElem? hi) happroves

theorem stamp (h : Consistent codec id p₀ before w) (hi : w.calls[i]? = some (d, pc)) (hpending : p₀.decidedAt = none)
    (now : Int) (decision : PromotionDecision) (note : Option String) (r : Except LifecycleError Unit)
    (happlied : ∀ p, pc = .applied p → decision = .approved)
    (hverdict : w.db.promotions.row id = some p₀ → (decision = .approved → pc = .applied p₀) ∧
      (decision = .rejected → ∀ c ∈ w.calls, c.1.approves = true → c.2.inFlight = false)) :
    Consistent codec id p₀ before ⟨w.db.stampDecision id now decision note, w.calls.set i (d, .done r)⟩ := by
  have hdecided : ∀ {p}, w.db.promotions.row id = some p → p.decidedAt ≠ none →
      w.db.stampDecision id now decision note = w.db := stampDecision_decided
  have hidle : (∀ c ∈ w.calls, c.1.approves = true → c.2.inFlight = false) →
      ∀ c ∈ w.calls.set i (d, .done r), c.1.approves = true → c.2.inFlight = false := by
    intro h c hc happroves
    rcases List.mem_or_eq_of_mem_set hc with hc | rfl
    · exact h c hc happroves
    · rfl
  refine ⟨h.ready, fun c hc => ?_, ?_⟩
  · rcases List.mem_or_eq_of_mem_set hc with hc | rfl
    · exact h.standing c hc
    · trivial
  · cases h.verdict with
    | pending row tier =>
      obtain ⟨happroved, hrejected⟩ := hverdict row
      have hrow : (w.db.stampDecision id now decision note).promotions.row id =
          some { p₀ with decidedAt := some now, decision := some decision, decisionNote := note } :=
        row_stampDecision row hpending
      cases decision with
      | approved =>
        obtain ⟨-, -, hbefore, hshown⟩ := happroved rfl ▸ h.standing_at hi
        exact .approved hrow (Option.some_ne_none _) rfl hbefore hshown
      | rejected =>
        refine .rejected hrow (Option.some_ne_none _) rfl (tier.resolve_right ?_) (hidle (hrejected rfl))
        rintro ⟨e, he⟩
        have hfalse := hrejected rfl _ he (h.standing _ he).2.1
        exact Bool.false_ne_true hfalse.symm
    | approved row hdec decision was now =>
      rw [hdecided row hdec]
      exact .approved row hdec decision was now
    | rejected row hdec decision tier idle =>
      rw [hdecided row hdec]
      exact .rejected row hdec decision tier (hidle idle)

end Consistent

theorem Consistent.exec (h : Consistent codec id p₀ before w) (hpending : p₀.decidedAt = none) {i : Nat}
    (hquiet : w.quiet id i = true) : Consistent codec id p₀ before (w.exec codec id i).2 := by
  unfold World.exec
  cases hi : w.calls[i]? with
  | none => exact h
  | some c =>
    obtain ⟨d, pc⟩ := c
    have hstanding := h.standing_at hi
    cases pc with
    | start =>
      cases hread : pending id w.db with
      | error e =>
        simp only [turn, hread]
        exact h.stop hi (by simp) (.error e)
      | ok p =>
        simp only [turn, hread]
        refine h.stay hi (by simp) ?_ fun _ => .inr ⟨p, hread⟩
        obtain ⟨hrow, hnone⟩ := pending_eq_ok.1 hread
        cases h.verdict with
        | pending row tier => exact Option.mem_unique hrow row
        | approved row hdecided => exact absurd (Option.mem_unique hrow row ▸ hnone) hdecided
        | rejected row hdecided => exact absurd (Option.mem_unique hrow row ▸ hnone) hdecided
    | loaded p =>
      obtain rfl : p = p₀ := hstanding
      cases happroves : d.approves with
      | true =>
        cases hcheck : checkTarget codec p w.db with
        | error e =>
          simp only [turn, happroves, hcheck, if_true]
          exact h.stop hi (by simp) (.error e)
        | ok u =>
          simp only [turn, happroves, hcheck, if_true]
          refine h.stay hi (by simp) ⟨rfl, happroves, ?_⟩ fun _ => .inl rfl
          have hshown := checkTarget_eq_ok.1 hcheck
          rcases h.shown_cases with hsame | ⟨hbefore, -⟩
          · exact hsame.symm.trans hshown
          · exact hbefore
      | false =>
        simp only [turn, happroves, Bool.false_eq_true, if_false]
        refine h.stamp hi hpending _ _ _ _ (by simp) fun hrow => ⟨by simp, fun _ c hc happroves' => ?_⟩
        simp only [World.quiet, hi, happroves, hrow, Option.any_some, hpending, Option.isSome_none, Bool.or_false,
          Bool.false_or] at hquiet
        simpa [happroves'] using List.all_eq_true.1 hquiet c hc
    | checked p =>
      obtain ⟨rfl, -, -⟩ : p = p₀ ∧ _ := hstanding
      exact h.set_tier hi
    | applied p =>
      obtain ⟨rfl, -, -⟩ : p = p₀ ∧ _ := hstanding
      exact h.stamp hi hpending _ _ _ _ (by simp) fun _ => ⟨fun _ => rfl, by simp⟩
    | done r => exact h.stop hi (by simp) r

theorem Consistent.start {db : MemoryTierDb} (hpending : pending id db = .ok p₀)
    (hready : shownTier codec db p₀.place = some p₀.fromTier → db.addressed p₀.place = true ∧ p₀.fromTier ≠ p₀.toTier)
    (deciders : List Decider) :
    Consistent codec id p₀ (shownTier codec db p₀.place) (World.start db deciders) where
  ready := hready
  standing := by
    intro c hc
    obtain ⟨d, -, rfl⟩ := List.mem_map.1 hc
    trivial
  verdict := .pending (pending_eq_ok.1 hpending).1 (.inl rfl)

theorem Consistent.agrees (h : Consistent codec id p₀ before w) (hpending : p₀.decidedAt = none) :
    Agrees codec id p₀.place before w := by
  intro p hp
  cases h.verdict with
  | pending row tier =>
    obtain rfl := Option.mem_unique hp row
    have hok : p.Ok := Keyed.ok_of_row hp
    rw [PromotionProposal.Ok, hpending] at hok
    have hnone : p.decision = none := Option.isSome_eq_false_iff.1 hok.symm |> Option.isNone_iff_eq_none.1
    rw [hnone]
    exact ⟨nofun, nofun⟩
  | approved row hdecided decision was now =>
    cases hp.symm.trans row
    rw [decision, now, was]
    refine ⟨nofun, fun _ heq => (h.ready was).2 (Option.some.inj heq).symm⟩
  | rejected row hdecided decision tier idle =>
    cases hp.symm.trans row
    rw [decision]
    exact ⟨fun _ => tier, nofun⟩

theorem after_alone (d : Decider) (n : Nat) (pc : Pc) (db : MemoryTierDb) :
    Calls.after (World.exec codec id) ⟨db, [(d, pc)]⟩ (List.replicate n 0) =
      let x := (fun x : Pc × MemoryTierDb => turn codec id d x.1 x.2)^[n] (pc, db)
      ⟨x.2, [(d, x.1)]⟩ := by
  induction n generalizing pc db with
  | zero => rfl
  | succ n ih => exact ih _ _

theorem guarded_alone {d : Decider} (h : d.approves = true) (n : Nat) (pc : Pc) (db : MemoryTierDb) :
    Calls.Guarded (World.exec codec id) (fun w i => w.quiet id i = true) ⟨db, [(d, pc)]⟩ (List.replicate n 0) := by
  induction n generalizing pc db with
  | zero => exact Calls.guarded_nil _
  | succ n ih =>
    refine Calls.guarded_cons.2 ⟨?_, ih _ _⟩
    cases pc <;> simp [World.quiet, h]

end World

/-- Calls of both kinds, in any order of their statements in which no rejection is written while an approval is under
way, leave the decision and the tier in agreement. -/
def DecisionLaw (codec : MemoryCodec) (db : MemoryTierDb) (id : Int) : Prop :=
  ∀ p deciders schedule, pending id db = .ok p →
    Calls.Guarded (World.exec codec id) (fun w i => w.quiet id i = true) (.start db deciders) schedule →
    World.Agrees codec id p.place (shownTier codec db p.place)
      (Calls.after (World.exec codec id) (.start db deciders) schedule)

theorem decisionLaw_iff : DecisionLaw codec db id ↔
    ∀ p, pending id db = .ok p → shownTier codec db p.place = some p.fromTier →
      db.addressed p.place = true ∧ p.fromTier ≠ p.toTier := by
  constructor
  · intro h p hpending hshown
    obtain ⟨hrow, hundecided⟩ := pending_eq_ok.1 hpending
    -- one approval, with nothing between its statements
    let d : Decider := ⟨true, 0, none⟩
    have hagrees := h p [d] (List.replicate 4 0) hpending (World.guarded_alone rfl 4 .start db)
    have halone : Calls.after (World.exec codec id) (.start db [d]) (List.replicate 4 0) =
        ⟨(db.setTier p.place p.toTier).stampDecision id 0 .approved none, [(d, .done (.ok ()))]⟩ := by
      refine (World.after_alone d 4 .start db).trans ?_
      have hrun : d.run codec id db = (.ok (), (db.setTier p.place p.toTier).stampDecision id 0 .approved none) :=
        approve_of_pending hpending hshown 0 none
      rw [turns_eq_run, hrun]
    rw [halone] at hagrees
    have hset : (db.setTier p.place p.toTier).promotions.row id = some p := by rw [promotions_setTier, hrow]
    have hstamped : ((db.setTier p.place p.toTier).stampDecision id 0 .approved none).promotions.row id =
        some { p with decidedAt := some 0, decision := some .approved, decisionNote := none } :=
      row_stampDecision hset hundecided
    have hchanged : shownTier codec (db.setTier p.place p.toTier) p.place ≠ shownTier codec db p.place :=
      (hagrees _ hstamped).2 rfl
    rw [shownTier_setTier, hshown] at hchanged
    cases haddressed : db.addressed p.place with
    | true =>
      rw [haddressed, if_pos rfl] at hchanged
      exact ⟨rfl, fun htiers => hchanged (by rw [htiers]; rfl)⟩
    | false =>
      rw [haddressed, if_neg Bool.false_ne_true] at hchanged
      exact absurd rfl hchanged
  · intro h p deciders schedule hpending hguarded
    have hundecided := (pending_eq_ok.1 hpending).2
    have hrun := Calls.Guarded.invariant (I := World.Consistent codec id p (shownTier codec db p.place))
      (fun w i hw hquiet => hw.exec hundecided hquiet) (.start hpending (h p hpending) deciders) hguarded
    exact hrun.agrees hundecided

/-- **Readers and updates of memory meet in one entry** exactly where a projection row of the place, if there is one,
is the one that is served: for hits, where one more is a number; for a tier; for an approval that succeeds; and for
calls on one proposal in any order, where a rejection is not written over an approval under way. -/
theorem sameEntry_iff (codec : MemoryCodec) (db : MemoryTierDb) (place : Place) (id : Int) :
    (BumpLaw codec db place ↔ db.get codec place = none ∨ db.addressed place = true ∧ db.countable place = true) ∧
    (TierLaw codec db place ↔ db.get codec place = none ∨ db.addressed place = true) ∧
    (ApproveLaw codec db id ↔ ∀ p, pending id db = .ok p → shownTier codec db p.place = some p.fromTier →
      db.addressed p.place = true ∨ p.fromTier = p.toTier) ∧
    (DecisionLaw codec db id ↔ ∀ p, pending id db = .ok p → shownTier codec db p.place = some p.fromTier →
      db.addressed p.place = true ∧ p.fromTier ≠ p.toTier) :=
  ⟨bumpLaw_iff, tierLaw_iff, approveLaw_iff, decisionLaw_iff⟩

/-! ## A state of the store -/

inductive TierCall
  | memory (call : MemoryCall)
  | upsert (e : MemoryEntry)
  | bumpHit (place : Place) (now : Int)
  | setTier (place : Place) (tier : MemoryTier)
  | propose (place : Place) (fromTier toTier : MemoryTier) (reason : PromotionReason) (proposedBy : ProposedBy)
      (now : Int)
  | decide (id : Int) (d : Decider)

def exec (codec : MemoryCodec) (db : MemoryTierDb) : TierCall → Unit × MemoryTierDb
  | .memory call =>
    match MemoryAssertionStore.run codec db.mem call with
    | .ok mem => ((), { db with mem })
    | .error _ => ((), db)
  | .upsert e => ((), db.upsert e)
  | .bumpHit place now => ((), (db.bumpHit place now).2)
  | .setTier place tier => ((), db.setTier place tier)
  | .propose place fromTier toTier reason proposedBy now =>
    ((), (db.propose place.1 place.2.1 place.2.2 fromTier toTier reason proposedBy now).2)
  | .decide id d => ((), (d.run codec id db).2)

open MemoryAssertionStore in
def supersededRun : List TierCall :=
  remembered.map .memory ++
    [.upsert ⟨"principal", "Controller", "p:colour", [], none, 10, .warm, 0, none, 10⟩,
      .propose ("principal", "Controller", "p:colour") .warm .hot .frequency .sweeper 20,
      .memory (.append (sampleAssertion "heir" (some "root"))),
      .memory (.addEvidence (sampleEvidence "heir" 1 .directQuote))]

def proposedRun : List TierCall :=
  [.upsert ⟨"principal", "Controller", "p:colour", [], none, 10, .warm, 0, none, 10⟩,
    .propose ("principal", "Controller", "p:colour") .warm .hot .frequency .sweeper 20]

open MemoryAssertionStore in
/-- **After a supersession the updates write the projected row and `get` reads the legacy one**, an approval included;
and a rejection that is written between the check and the tier of an approval leaves the changed tier. -/
theorem superseded_row_is_written : ∃ db race : MemoryTierDb,
    db = Calls.after (exec sampleCodec) .empty supersededRun ∧ race = Calls.after (exec sampleCodec) .empty proposedRun ∧
    (db.get sampleCodec ("principal", "Controller", "p:colour")).map MemoryEntry.hits = some 0 ∧
    (db.bumpHit ("principal", "Controller", "p:colour") 50).1.toOption = some 1 ∧
    ((db.bumpHit ("principal", "Controller", "p:colour") 50).2.get sampleCodec
      ("principal", "Controller", "p:colour")).map MemoryEntry.hits = some 0 ∧
    (approve sampleCodec 1 50 none db).1.isOk = true ∧
    shownTier sampleCodec (approve sampleCodec 1 50 none db).2 ("principal", "Controller", "p:colour") = some .warm ∧
    shownTier sampleCodec race ("principal", "Controller", "p:colour") = some .warm ∧
    let w := Calls.after (World.exec sampleCodec 1) (.start race [⟨true, 50, none⟩, ⟨false, 50, none⟩])
      [0, 0, 1, 1, 0, 0]
    (w.db.promotions.row 1).bind PromotionProposal.decision = some .rejected ∧
      shownTier sampleCodec w.db ("principal", "Controller", "p:colour") = some .hot := by
  refine ⟨_, _, rfl, rfl, ?_⟩
  decide +kernel

end MemoryTierDb

end Execlaw
