import Execlaw.Keyed
/-!
# Principals — who writes to the operator, and under which trust (`core/src/principal.rs`)

A principal holds transport identifiers and one trust level.  The table `principal_identifiers` repeats the identifiers
of every principal, so that a handle is looked up without a scan; `PrincipalTables` is the two tables with that index in
step.
-/
namespace Execlaw

open Table

structure Identifier where
  transport : String
  handle : String
deriving DecidableEq

structure CapabilityScope where
  capabilities : List String
deriving DecidableEq

inductive TrustLevel
  | controller
  | delegated (grantedBy : String) (scope : CapabilityScope) (expiresAt : Option Int)
  | knownTrusted (resolvers : List String) (approvedBy : String) (approvedAt : Int)
  | knownLimited (resolvers : List String) (allowedTopics : List String) (allowedTools : Option (List String))
  | unknownPending (firstSeen : Int) (notificationEventSeq : Option Int)
  | blocked (blockedBy : String) (blockedAt : Int) (reason : Option String)
deriving DecidableEq

namespace TrustLevel

def classTag : TrustLevel → String
  | controller => "Controller"
  | delegated .. => "Delegated"
  | knownTrusted .. => "KnownTrusted"
  | knownLimited .. => "KnownLimited"
  | unknownPending .. => "UnknownPending"
  | blocked .. => "Blocked"

def isPending : TrustLevel → Bool
  | unknownPending .. => true
  | _ => false

def isController : TrustLevel → Bool
  | controller => true
  | _ => false

end TrustLevel

/-- A row of `principals`, its JSON columns read; `metadata` is a JSON text. -/
structure Principal where
  id : String
  identifiers : List Identifier
  trustLevel : TrustLevel
  resolvedBy : List String
  metadata : String
  firstSeen : Int
  lastSeen : Option Int
  controllerNotes : Option String

structure IdentifierRow where
  ident : Identifier
  principalId : String
  lastSeen : Option Int

def IdentifierRow.key (r : IdentifierRow) : Identifier × String := (r.ident, r.principalId)

/-- The `SET` of `PrincipalStore::upsert` on a stored row: `first_seen` stays. -/
def upsertChange (p : Principal) : Change Principal.id (fun _ => True) where
  takes := fun _ => true
  set := fun r => { p with id := r.id, firstSeen := r.firstSeen }
  key_set := fun _ => rfl
  keeps_ok := fun _ _ _ => trivial

/-- `INSERT OR IGNORE` of each identifier of a principal. -/
def indexRows (pid : String) (lastSeen : Option Int) (t : Keyed IdentifierRow.key (fun _ => True)) :
    List Identifier → Keyed IdentifierRow.key (fun _ => True)
  | [] => t
  | ident :: idents => indexRows pid lastSeen (t.insertOrIgnore ⟨ident, pid, lastSeen⟩ trivial) idents

def unindex (pid : String) (t : Keyed IdentifierRow.key (fun _ => True)) : Keyed IdentifierRow.key (fun _ => True) :=
  t.removeAll (fun r => decide (r.principalId = pid))

theorem row_indexRows (pid : String) (lastSeen : Option Int) (k : Identifier × String) : ∀ (idents : List Identifier)
    (t : Keyed IdentifierRow.key (fun _ => True)), ((indexRows pid lastSeen t idents).row k).isSome = true ↔
      (t.row k).isSome = true ∨ k.2 = pid ∧ k.1 ∈ idents
  | [], t => by simp [indexRows]
  | ident :: idents, t => by
    rw [indexRows, row_indexRows pid lastSeen k idents, Keyed.row_insertOrIgnore]
    obtain ⟨i, j⟩ := k
    by_cases hk : IdentifierRow.key ⟨ident, pid, lastSeen⟩ = (i, j)
    · obtain ⟨rfl, rfl⟩ := Prod.mk.inj hk
      simp [hk]
    · have hne : ¬ (j = pid ∧ i = ident) := by
        rintro ⟨rfl, rfl⟩
        exact hk rfl
      rw [if_neg hk, Option.or_none]
      simp only [List.mem_cons]
      tauto

theorem row_unindex (pid : String) (t : Keyed IdentifierRow.key (fun _ => True)) (k : Identifier × String) :
    ((unindex pid t).row k).isSome = true ↔ (t.row k).isSome = true ∧ k.2 ≠ pid := by
  rw [unindex, Keyed.row_removeAll]
  cases hk : t.row k with
  | none => simp
  | some r =>
    have hkey := Keyed.key_of_row hk
    simp [← hkey, IdentifierRow.key, Option.isSome_filter]

/-- `principals` and `principal_identifiers`: the index names the holders of each identifier, and no others. -/
structure PrincipalTables where
  principals : Keyed Principal.id (fun _ => True)
  identifiers : Keyed IdentifierRow.key (fun _ => True)
  indexed : ∀ ident pid, (identifiers.row (ident, pid)).isSome = true ↔
    ∃ p, principals.row pid = some p ∧ ident ∈ p.identifiers

namespace PrincipalTables

def empty : PrincipalTables := ⟨.empty, .empty, fun _ _ => by simp⟩

def get (t : PrincipalTables) (id : String) : Option Principal := t.principals.row id

/-- The row `PrincipalStore::upsert` leaves. -/
def stored (t : PrincipalTables) (p : Principal) : Principal :=
  (t.principals.row p.id).elim p (upsertChange p).apply

theorem stored_identifiers (t : PrincipalTables) (p : Principal) : (t.stored p).identifiers = p.identifiers := by
  unfold stored
  cases t.principals.row p.id <;> rfl

theorem stored_trustLevel (t : PrincipalTables) (p : Principal) : (t.stored p).trustLevel = p.trustLevel := by
  unfold stored
  cases t.principals.row p.id <;> rfl

/-- `PrincipalStore::upsert`: the row, then its identifiers anew. -/
def upsert (t : PrincipalTables) (p : Principal) : PrincipalTables where
  principals := t.principals.upsert p trivial (upsertChange p)
  identifiers := indexRows p.id p.lastSeen (unindex p.id t.identifiers) p.identifiers
  indexed := by
    intro ident pid
    rw [row_indexRows, row_unindex, t.indexed]
    by_cases hpid : pid = p.id
    · subst hpid
      have hrow : (t.principals.upsert p trivial (upsertChange p)).row p.id = some (t.stored p) :=
        Keyed.row_upsert_self t.principals trivial (upsertChange p)
      have hidents := t.stored_identifiers p
      simp [hrow, hidents]
    · rw [Keyed.row_upsert_of_ne _ _ _ hpid]
      simp [hpid]

/-- `PrincipalStore::delete`; the index rows go by cascade. -/
def delete (t : PrincipalTables) (id : String) : PrincipalTables where
  principals := t.principals.remove id (fun _ => true)
  identifiers := unindex id t.identifiers
  indexed := by
    intro ident pid
    rw [row_unindex, t.indexed]
    by_cases hpid : pid = id
    · subst hpid
      simp [Keyed.row_remove]
    · simp [Keyed.row_remove_of_ne hpid, hpid]

/-- The index probe of `PrincipalStore::find_by_identifier`. -/
def holder (t : PrincipalTables) (ident : Identifier) : Option String :=
  (t.identifiers.rows.find? (fun r => decide (r.ident = ident))).map IdentifierRow.principalId

def listAll (t : PrincipalTables) : List Principal := orderBy Principal.firstSeen t.principals.rows

theorem get_upsert_self (t : PrincipalTables) (p : Principal) : (t.upsert p).get p.id = some (t.stored p) :=
  Keyed.row_upsert_self t.principals trivial (upsertChange p)

theorem get_upsert_of_ne (t : PrincipalTables) (p : Principal) {id : String} (h : id ≠ p.id) :
    (t.upsert p).get id = t.get id :=
  Keyed.row_upsert_of_ne _ _ _ h

theorem get_delete (t : PrincipalTables) (id j : String) : (t.delete id).get j = if j = id then none else t.get j := by
  unfold delete get
  by_cases hj : j = id
  · subst hj
    cases h : t.principals.row j <;> simp [Keyed.row_remove, h]
  · rw [if_neg hj, Keyed.row_remove_of_ne hj]

variable {t : PrincipalTables} {p : Principal}

theorem id_of_get {id : String} (h : t.get id = some p) : p.id = id :=
  Keyed.key_of_row h

theorem mem_listAll : p ∈ t.listAll ↔ t.get p.id = some p := by
  rw [listAll, mem_orderBy, get, Keyed.row_iff]
  simp

theorem holder_of_mem {id : String} {ident : Identifier} (h : t.get id = some p) (hident : ident ∈ p.identifiers) :
    ∃ j q, t.holder ident = some j ∧ t.get j = some q ∧ ident ∈ q.identifiers := by
  obtain ⟨row, hrow⟩ := Option.isSome_iff_exists.1 ((t.indexed ident id).2 ⟨p, h, hident⟩)
  obtain ⟨hmem, hkey⟩ := Keyed.row_iff.1 hrow
  have hrident : row.ident = ident := (Prod.mk.inj hkey).1
  have hsome : (t.identifiers.rows.find? (fun r => decide (r.ident = ident))).isSome = true :=
    List.find?_isSome.2 ⟨row, hmem, by simpa using hrident⟩
  obtain ⟨found, hfound⟩ := Option.isSome_iff_exists.1 hsome
  have hfmem := List.mem_of_find?_eq_some hfound
  have hfident : found.ident = ident := by simpa using List.find?_some hfound
  have hfrow : (t.identifiers.row (ident, found.principalId)).isSome = true :=
    Option.isSome_iff_exists.2 ⟨found, Keyed.row_iff.2 ⟨hfmem, by rw [← hfident]; rfl⟩⟩
  obtain ⟨q, hq, hqident⟩ := (t.indexed ident found.principalId).1 hfrow
  exact ⟨found.principalId, q, by simp [holder, hfound], hq, hqident⟩

end PrincipalTables

end Execlaw
