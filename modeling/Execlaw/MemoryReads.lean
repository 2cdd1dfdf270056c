import Execlaw.MemoryWrites
/-!
# MemoryReads — the readers of memory (`core/src/memory_assertions.rs`, `core/src/memory.rs`)

`current_ranked` recomputes what is current at a time from the assertions, their supersession, the reviews and the
tombstones.  `MemoryStore` reads the projection instead, and the legacy `memory_entries` behind it.
-/
namespace Execlaw

open Table Closure

def MemoryTables.superseded (t : MemoryTables) (assertionId : String) : Bool :=
  t.assertions.rows.any fun newer =>
    newer.supersedesId == some assertionId && newer.status == .approved && t.evidenced newer.assertionId

namespace MemoryAssertionStore

/-- The `trusted` query of `current_ranked`. -/
def trusted (db : MemoryDb) (scope : String) (trustClasses : List String) (asOf : Int) (a : MemoryAssertion) : Bool :=
  a.scope == scope && a.validAt asOf && a.status == .approved && trustClasses.contains a.trustClass &&
    !db.tombstoned .assertion a.assertionId && !db.retractedLineage.contains a.assertionId &&
    db.evidenced a.assertionId

def current (db : MemoryDb) (scope : String) (trustClasses : List String) (asOf : Int) (a : MemoryAssertion) : Bool :=
  trusted db scope trustClasses asOf a &&
    !db.assertions.rows.any fun newer =>
      trusted db scope trustClasses asOf newer && newer.supersedesId == some a.assertionId

def currentRanked (db : MemoryDb) (scope : String) (trustClasses : List String) (asOf : Int) (limit : Nat) :
    List MemoryAssertion :=
  if trustClasses.isEmpty then []
  else (orderBy (fun a : MemoryAssertion => toLex (-a.confidence, -a.createdAt))
    (db.assertions.rows.filter (current db scope trustClasses asOf))).take limit

def history (db : MemoryDb) (scope trustClass subject predicate : String) : List MemoryAssertion :=
  orderBy (fun a : MemoryAssertion => toLex (a.validFrom, a.createdAt)) (db.assertions.rows.filter fun a =>
    a.scope == scope && a.trustClass == trustClass && a.subject == subject && a.predicate == predicate &&
      !db.tombstoned .assertion a.assertionId)

theorem mem_currentRanked {db : MemoryDb} {scope : String} {trustClasses : List String} {asOf : Int} {limit : Nat}
    {a : MemoryAssertion} (h : a ∈ currentRanked db scope trustClasses asOf limit) :
    a ∈ db.assertions.rows ∧ current db scope trustClasses asOf a = true := by
  unfold currentRanked at h
  split at h
  · cases h
  · exact List.mem_filter.1 ((mem_orderBy _).1 (List.mem_of_mem_take h))

theorem mem_history {db : MemoryDb} {scope trustClass subject predicate : String} {a : MemoryAssertion}
    (h : a ∈ history db scope trustClass subject predicate) :
    a ∈ db.assertions.rows ∧ db.tombstoned .assertion a.assertionId = false := by
  rw [history, mem_orderBy, List.mem_filter] at h
  simp only [Bool.and_eq_true, Bool.not_eq_true'] at h
  exact ⟨h.1, h.2.2⟩

end MemoryAssertionStore

/-- `MemoryEntry`, with the columns of `memory_entries`. -/
structure MemoryEntry where
  scope : String
  trustClass : String
  key : String
  valueBlob : List UInt8
  ttlExpires : Option Int
  updatedAt : Int
  tier : MemoryTier
  hits : Nat
  lastUsedAt : Option Int
  createdAt : Int

structure MemoryRowSummary where
  scope : String
  trustClass : String
  key : String
  tier : MemoryTier
  hits : Nat
  lastUsedAt : Option Int
  updatedAt : Int

def MemoryEntry.place (e : MemoryEntry) : String × String × String := (e.scope, e.trustClass, e.key)

def MemoryEntry.summary (e : MemoryEntry) : MemoryRowSummary :=
  ⟨e.scope, e.trustClass, e.key, e.tier, e.hits, e.lastUsedAt, e.updatedAt⟩

namespace MemoryRowSummary

def place (e : MemoryRowSummary) : String × String × String := (e.scope, e.trustClass, e.key)

def recency (e : MemoryRowSummary) : Int := e.lastUsedAt.getD e.updatedAt

end MemoryRowSummary

namespace MemoryStore

def servable (db : MemoryDb) (a : MemoryAssertion) : Bool :=
  a.status == .approved && !db.tombstoned .assertion a.assertionId && db.evidenced a.assertionId &&
    !db.superseded a.assertionId

/-- The first query of `get`. -/
def projected (db : MemoryDb) (scope trustClass key : String) : Option (ProjectionRow × MemoryAssertion) := do
  let p ← db.projection.row (scope, trustClass, key)
  let a ← db.assertions.row p.assertionId
  if servable db a then some (p, a) else none

variable (codec : MemoryCodec)

def entry (p : ProjectionRow) (a : MemoryAssertion) : MemoryEntry where
  scope := p.scope
  trustClass := p.trustClass
  key := p.key
  valueBlob := Wire.utf8 (MemoryAssertionStore.sourceQuote codec a.object)
  ttlExpires := none
  updatedAt := p.projectedAt
  tier := p.tier
  hits := p.hits
  lastUsedAt := p.lastUsedAt
  createdAt := a.createdAt

/-- `LIKE … ESCAPE '\'`, which ignores the case of ASCII letters. -/
def like : List Char → List Char → Bool
  | [], text => text.isEmpty
  | '%' :: pattern, text => text.tails.any (like pattern)
  | '_' :: pattern, text =>
    match text with
    | [] => false
    | _ :: rest => like pattern rest
  | '\\' :: [], _ => false
  | '\\' :: c :: pattern, text =>
    match text with
    | [] => false
    | d :: rest => c.toLower == d.toLower && like pattern rest
  | c :: pattern, text =>
    match text with
    | [] => false
    | d :: rest => c.toLower == d.toLower && like pattern rest

/-- The characters `LIKE` reads of a text: up to the first NUL, U+FFFE and U+FFFF as U+FFFD. -/
def likeChars (text : List Char) : List Char :=
  (text.takeWhile (· != '\x00')).map fun c => if c = '\ufffe' ∨ c = '\uffff' then '\ufffd' else c

/-- `{prefix}%`, its own percent signs escaped. -/
def keyPattern (pre : String) : List Char :=
  pre.toList.flatMap (fun c => if c = '%' then ['\\', '%'] else [c]) ++ ['%']

def keyMatches (pre key : String) : Bool := like (likeChars (keyPattern pre)) (likeChars key.toList)

/-- `SQLITE_MAX_LIKE_PATTERN_LENGTH`, behind which `LIKE` is an error. -/
def tooComplex (pre : String) : Bool := 50000 < (String.ofList (keyPattern pre)).utf8ByteSize

def projectedEntries (db : MemoryDb) (scope : String) (trustClasses : List String) (tier : Option MemoryTier)
    (pre : Option String) (limit : Nat) : List (ProjectionRow × MemoryAssertion) :=
  (orderBy (fun x : ProjectionRow × MemoryAssertion => -(x.1.lastUsedAt.getD x.1.projectedAt))
    ((db.projection.rows.filterMap fun p => (db.assertions.row p.assertionId).map fun a => (p, a)).filter fun x =>
      x.1.scope == scope && trustClasses.contains x.1.trustClass && x.1.tier != .cold && servable db x.2 &&
        tier.all (fun t => x.1.tier == t) && pre.all (fun s => keyMatches s x.1.key))).take limit

theorem projected_eq_some {db : MemoryDb} {scope trustClass key : String} {p : ProjectionRow} {a : MemoryAssertion}
    (h : projected db scope trustClass key = some (p, a)) :
    db.projection.row (scope, trustClass, key) = some p ∧ db.assertions.row p.assertionId = some a ∧
      servable db a = true := by
  simp only [projected, Option.bind_eq_bind, Option.bind_eq_some_iff] at h
  obtain ⟨q, hq, b, hb, hserve⟩ := h
  split at hserve
  · next hservable =>
    cases hserve
    exact ⟨hq, hb, hservable⟩
  · cases hserve

theorem mem_projectedEntries {db : MemoryDb} {scope : String} {trustClasses : List String} {tier : Option MemoryTier}
    {pre : Option String} {limit : Nat} {p : ProjectionRow} {a : MemoryAssertion}
    (h : (p, a) ∈ projectedEntries db scope trustClasses tier pre limit) :
    p ∈ db.projection.rows ∧ db.assertions.row p.assertionId = some a ∧ servable db a = true ∧ p.scope = scope := by
  have hmem := (mem_orderBy _).1 (List.mem_of_mem_take h)
  simp only [List.mem_filter, List.mem_filterMap, Option.map_eq_some_iff, Bool.and_eq_true, beq_iff_eq] at hmem
  obtain ⟨⟨q, hq, b, hb, heq⟩, hchecks⟩ := hmem
  cases heq
  exact ⟨hq, hb, hchecks.1.1.2, hchecks.1.1.1.1.1⟩

end MemoryStore

end Execlaw
