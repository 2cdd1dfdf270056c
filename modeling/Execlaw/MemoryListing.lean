import Execlaw.LatestRows
import Execlaw.MemoryTiers
/-!
# MemoryListing — the listing of memory (`core/src/memory.rs`)

`list` asks the legacy rows and the projection each for the `limit` most recent keys like the prefix, drops a legacy
row under a projected one of the answer, and cuts the rest again.  Its pattern ignores the case of letters, ends at a
NUL, leaves `_` and `\` of the prefix as wildcards and is refused when it is too long; a cold projected row is not in
the answer, so it hides no legacy row; and both queries are cut before they meet.  Where none of these matters, the
list is what `get` shows.
-/
namespace Execlaw

open Table MemoryStore

def EntryRow.recency (r : EntryRow) : Int := r.lastUsedAt.getD r.updatedAt

def EntryRow.summary (r : EntryRow) : MemoryRowSummary :=
  ⟨r.scope, r.trustClass, r.key, r.tier, r.hits.toNat, r.lastUsedAt, r.updatedAt⟩

def ProjectionRow.recency (p : ProjectionRow) : Int := p.lastUsedAt.getD p.projectedAt

namespace MemoryTierDb

variable (codec : MemoryCodec) (db : MemoryTierDb) (scope : String) (trustClasses : List String) (pre : String)
  (limit : Nat)

/-- The rows the first query asks `LIKE` about. -/
def legacyScope : List EntryRow :=
  db.entries.rows.filter fun r => r.scope == scope && r.tier != .cold && trustClasses.contains r.trustClass

/-- The rows `projected_entries` asks `LIKE` about. -/
def projectedScope : List (ProjectionRow × MemoryAssertion) :=
  (db.mem.projection.rows.filterMap fun p => (db.mem.assertions.row p.assertionId).map fun a => (p, a)).filter fun x =>
    x.1.scope == scope && trustClasses.contains x.1.trustClass && x.1.tier != .cold && servable db.mem x.2

def legacyRows : List EntryRow := (db.legacyScope scope trustClasses).filter fun r => keyMatches pre r.key

def projectedRows : List (ProjectionRow × MemoryAssertion) :=
  (db.projectedScope scope trustClasses).filter fun x => keyMatches pre x.1.key

/-- `LIKE` refuses no row: the pattern is short enough, or there is no row to match. -/
def likes : Bool :=
  !tooComplex pre || (db.legacyScope scope trustClasses).isEmpty && (db.projectedScope scope trustClasses).isEmpty

def list : Except DbError (List MemoryRowSummary) :=
  if trustClasses.isEmpty then .ok []
  else if limit ≠ 0 ∧ !db.likes scope trustClasses pre then .error (.sqlite "LIKE or GLOB pattern too complex")
  else
    let rows := latest EntryRow.recency limit (db.legacyRows scope trustClasses pre)
    let projected := latest (fun x => x.1.recency) limit (db.projectedRows scope trustClasses pre)
    if rows.all fun r => fitsI64 r.hits then
      if projected.all fun x => fitsI64 x.1.hits then
        let projected := projected.map fun x => (entry codec x.1 x.2).summary
        let rows := (rows.map EntryRow.summary).filter fun e => !projected.any fun p => p.place == e.place
        .ok (latest MemoryRowSummary.recency limit (rows ++ projected))
      else .error (notI64 6)
    else .error (notI64 4)

/-! ## What a list should be -/

def listed (e : MemoryEntry) : Bool := e.scope == scope && trustClasses.contains e.trustClass && e.tier != .cold

/-- A row of the list that `get` shows under the prefix. -/
def Shown (r : MemoryRowSummary) : Prop :=
  ∃ e, db.get codec r.place = some e ∧ e.summary = r ∧ listed scope trustClasses e = true ∧ pre.toList <+: r.key.toList

/-- The rows are the ones that `get` shows, each place once, the most recent first, and as many as the limit allows. -/
structure Lists (rows : List MemoryRowSummary) : Prop where
  sound : ∀ r ∈ rows, Shown codec db scope trustClasses pre r
  once : (rows.map MemoryRowSummary.place).Nodup
  ordered : rows.Pairwise fun a b => b.recency ≤ a.recency
  short : rows.length ≤ limit
  complete : ∀ r, Shown codec db scope trustClasses pre r →
    r ∈ rows ∨ rows.length = limit ∧ ∀ x ∈ rows, r.recency ≤ x.recency

def counted : Bool :=
  (db.legacyRows scope trustClasses pre).all (fun r => fitsI64 r.hits) &&
    (db.projectedRows scope trustClasses pre).all fun x => fitsI64 x.1.hits

def places : List Place := db.entries.rows.map EntryRow.place ++ db.mem.projection.rows.map ProjectionRow.place

def spelled : Bool :=
  db.places.all fun k => (db.get codec k).all fun e =>
    !listed scope trustClasses e || keyMatches pre e.key == pre.toList.isPrefixOf e.key.toList

def uncovered : Bool :=
  (db.legacyRows scope trustClasses pre).all fun r => (db.projected codec r.place).all fun e => e.tier != .cold

def behind (rel : Int → Int → Bool) : Bool :=
  (db.legacyRows scope trustClasses pre).all fun r => (db.projectedRows scope trustClasses pre).all fun x =>
    x.1.place != r.place || rel r.recency x.1.recency

variable {codec db scope trustClasses pre limit} {place : Place} {e : MemoryEntry} {r : EntryRow}

def below (db : MemoryTierDb) (scope : String) (trustClasses : List String) (pre : String) : List MemoryRowSummary :=
  (db.legacyRows scope trustClasses pre).map EntryRow.summary

def above (codec : MemoryCodec) (db : MemoryTierDb) (scope : String) (trustClasses : List String) (pre : String) :
    List MemoryRowSummary :=
  (db.projectedRows scope trustClasses pre).map fun x => (entry codec x.1 x.2).summary

end MemoryTierDb

end Execlaw
