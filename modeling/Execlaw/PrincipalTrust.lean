import Execlaw.Moments
import Execlaw.Outbox
import Execlaw.PrincipalGroups
/-!
# PrincipalTrust — trust changes and identity mapping, interleaved (`server/src/approvals.rs`,
`server/src/my_identities.rs`)

The operator sets the trust of a principal, and maps handles to the controller's own row.  Every one of these writers
reads a row, edits a field and writes all fields back in a second statement.  As long as the row a writer writes back
is the one its call makes of the row as it stands, no trust change and no identifier is lost.
-/
namespace Execlaw

open Table Interleave Steps

structure ApiError where
  status : Nat
  code : String
  message : String

def internalError (msg : String) : ApiError := ⟨500, "internal", msg⟩

structure SetTrustRequest where
  trustClass : String
  allowedTopics : Option (List String)
  reason : Option String

/-! ## The handlers -/

/-- The level `set_trust_handler` makes of a request. -/
def SetTrustRequest.level (req : SetTrustRequest) (now : Int) : Option TrustLevel :=
  if req.trustClass = "KnownTrusted" then some (.knownTrusted [] "controller" now)
  else if req.trustClass = "KnownLimited" then some (.knownLimited [] (req.allowedTopics.getD []) none)
  else if req.trustClass = "Blocked" then some (.blocked "controller" now req.reason)
  else none

/-- The answer of a handler whose `set_trust` came back. -/
def trustSet : Except DbError Unit → Except ApiError Unit
  | .ok () => .ok ()
  | .error e => .error (internalError s!"set_trust: {e.display}")

def principalNotFound (principalId : String) : ApiError :=
  ⟨404, "principal_not_found", s!"no principal with id '{principalId}'"⟩

/-- `revoke_handler`; `clock` is the time `set_trust` reads. -/
def revokeHandler (principalId : String) (reason : Option String) (now clock : Int) :
    Prog ContactDb (Except ApiError Unit) := do
  match ← PrincipalStore.get principalId with
  | none => pure (.error (principalNotFound principalId))
  | some _ => do
    let res ← PrincipalStore.setTrust principalId (.blocked "controller" now reason) clock
    pure (trustSet res)

def setTrustHandler (principalId : String) (req : SetTrustRequest) (now clock : Int) :
    Prog ContactDb (Except ApiError Unit) := do
  match ← PrincipalStore.get principalId with
  | none => pure (.error (principalNotFound principalId))
  | some _ =>
    match req.level now with
    | none => pure (.error ⟨400, "unsupported_class",
        s!"trust class '{req.trustClass}' is not operator-settable; use one of: KnownTrusted, KnownLimited, Blocked"⟩)
    | some level => do
      let res ← PrincipalStore.setTrust principalId level clock
      pure (trustSet res)

def newController (controllerPid : String) (now : Int) : Principal :=
  { id := controllerPid, identifiers := [], trustLevel := .controller, resolvedBy := [], metadata := "\x7b\x7d",
    firstSeen := now, lastSeen := some now, controllerNotes := none }

def addMissing (identifiers : List Identifier) : List Identifier → List Identifier
  | [] => identifiers
  | ident :: rest =>
    if ident ∈ identifiers then addMissing identifiers rest else addMissing (identifiers ++ [ident]) rest

/-- Steps 1 to 3 of `claim_as_me`: the identifiers of the cold contact go to the controller. -/
def claimIdentifiers (stalePid controllerPid : String) (now : Int) : Prog ContactDb Unit := do
  let stale ← PrincipalStore.get stalePid
  let row := (← PrincipalStore.get controllerPid).getD (newController controllerPid now)
  let identifiers := addMissing row.identifiers (stale.elim [] Principal.identifiers)
  if identifiers ≠ row.identifiers then
    PrincipalStore.upsert { row with identifiers := identifiers, lastSeen := some now }
  else pure ()

/-- The identifier `add_handler` adds; `lower` is `str::to_lowercase`. -/
def addedIdentifier (lower : String → String) (transport handle : String) : Identifier :=
  ⟨lower (trim transport), trim handle⟩

def identifierClaimed (ident : Identifier) (other : Principal) : ApiError :=
  ⟨409, "identifier_claimed", s!"{ident.transport}:{ident.handle} is already attached to principal '{other.id}'"⟩

/-- The end of `add_handler`, where no other principal claims the identifier. -/
def addToController (controllerPid : String) (ident : Identifier) (now : Int) :
    Prog ContactDb (Except ApiError Unit) := do
  let row := (← PrincipalStore.get controllerPid).getD (newController controllerPid now)
  if ident ∈ row.identifiers then
    pure (.error ⟨400, "duplicate_identifier", s!"{ident.transport}:{ident.handle} is already on the controller"⟩)
  else do
    PrincipalStore.upsert { row with identifiers := row.identifiers ++ [ident], lastSeen := some now }
    pure (.ok ())

/-- `add_handler` of the operator's own identities, up to its reconciliation. -/
def addHandler (lower : String → String) (controllerPid transport handle : String) (now : Int) :
    Prog ContactDb (Except ApiError Unit) := do
  let ident := addedIdentifier lower transport handle
  if ident.transport = "" ∨ ident.handle = "" then
    pure (.error ⟨400, "missing_field", "transport and handle must both be non-empty"⟩)
  else do
    let existing ← PrincipalStore.findByIdentifier ident
    match existing.filter (fun p => decide (p.id ≠ controllerPid)) with
    | some other => pure (.error (identifierClaimed ident other))
    | none => addToController controllerPid ident now

/-- The calls that write one principal.  `setTrust` is the call of an approval response. -/
inductive TrustCall
  | setTrust (principalId : String) (level : TrustLevel) (clock : Int)
  | revoke (principalId : String) (reason : Option String) (now clock : Int)
  | setTrustRequest (principalId : String) (req : SetTrustRequest) (now clock : Int)
  | claim (stalePid controllerPid : String) (now : Int)
  | addIdentifier (controllerPid transport handle : String) (now : Int)

namespace TrustCall

def target : TrustCall → String
  | setTrust id _ _ | revoke id _ _ _ | setTrustRequest id _ _ _ => id
  | claim _ id _ | addIdentifier id _ _ _ => id

def level : TrustCall → Option TrustLevel
  | setTrust _ l _ => some l
  | revoke _ reason now _ => some (.blocked "controller" now reason)
  | setTrustRequest _ req now _ => req.level now
  | claim .. | addIdentifier .. => none

def run (lower : String → String) : TrustCall → Prog ContactDb (Except ApiError Unit)
  | setTrust id l clock => do
    let res ← PrincipalStore.setTrust id l clock
    pure (trustSet res)
  | revoke id reason now clock => revokeHandler id reason now clock
  | setTrustRequest id req now clock => setTrustHandler id req now clock
  | claim stalePid controllerPid now => do
    claimIdentifiers stalePid controllerPid now
    pure (.ok ())
  | addIdentifier controllerPid transport handle now => addHandler lower controllerPid transport handle now

end TrustCall

/-! ## What a call writes -/

theorem subset_addMissing : ∀ (idents more : List Identifier), idents ⊆ addMissing idents more
  | _, [] => List.Subset.refl _
  | idents, ident :: rest => by
    unfold addMissing
    split
    · exact subset_addMissing idents rest
    · exact List.Subset.trans (List.subset_append_left _ _) (subset_addMissing _ rest)

theorem mem_addMissing : ∀ {idents more : List Identifier} {ident : Identifier}, ident ∈ more →
    ident ∈ addMissing idents more
  | _, [], _, h => by cases h
  | idents, i :: rest, ident, h => by
    unfold addMissing
    rcases List.mem_cons.1 h with rfl | h
    · split
      · next hmem => exact subset_addMissing _ rest hmem
      · exact subset_addMissing _ rest (by simp)
    · split <;> exact mem_addMissing h

def reading (lower : String → String) : TrustCall → List ContactDb → Bool
  | .setTrust .., met => met.isEmpty
  | .revoke .., met | .setTrustRequest .., met | .claim .., met => decide (met.length < 2)
  | .addIdentifier _ transport handle _, met =>
    decide (met.length <
      if (met.head?.bind fun s => s.principals.holder (addedIdentifier lower transport handle)).isSome then 3 else 2)

def Added (lower : String → String) (c : TrustCall) (met : List ContactDb) (idents : List Identifier) : Prop :=
  match c with
  | .claim stalePid _ _ =>
    ∃ s ∈ met, ∀ stale, s.principals.get stalePid = some stale → ∀ ident ∈ stale.identifiers, ident ∈ idents
  | .addIdentifier _ transport handle _ => addedIdentifier lower transport handle ∈ idents
  | _ => True

/-- The row `row` a call writes back, having read `old`. -/
structure Edits (lower : String → String) (c : TrustCall) (met : List ContactDb) (old : Option Principal)
    (row : Principal) : Prop where
  id : row.id = c.target
  trust : c.level = none → ∀ r, old = some r → row.trustLevel = r.trustLevel
  level : ∀ l, c.level = some l → row.trustLevel = l
  keeps : ∀ r, old = some r → r.identifiers ⊆ row.identifiers
  adds : Added lower c met row.identifiers

/-- **What one statement of a call does**: nothing, or it writes back an edit of the row the statement before it read. -/
inductive TrustMove (lower : String → String) (c : TrustCall) (met : List ContactDb) (db : ContactDb) : ContactDb → Prop
  | still (reads : reading lower c met = true) : TrustMove lower c met db db
  | wrote (s : ContactDb) (row : Principal) (writes : reading lower c met = false) (last : met.getLast? = some s)
      (edits : Edits lower c met (s.principals.get c.target) row) :
      TrustMove lower c met db { db with principals := db.principals.upsert row }

section Moves

variable (lower : String → String)

abbrev TrustTells (c : TrustCall) {α : Type} (met : List ContactDb) (p : Prog ContactDb α) : Prop :=
  p.Tells (TrustMove lower c) (fun _ _ => True) met

variable {c : TrustCall}

theorem tells_bind {α β : Type} {met : List ContactDb} {p : Prog ContactDb α} {k : α → Prog ContactDb β}
    (hp : TrustTells lower c met p) (hk : ∀ met a, TrustTells lower c met (k a)) : TrustTells lower c met (p >>= k) :=
  Prog.Tells.bind (fun met a _ => hk met a) hp

theorem added_of_level {l : TrustLevel} (h : c.level = some l) (met : List ContactDb) (idents : List Identifier) :
    Added lower c met idents := by
  cases c with
  | setTrust | revoke | setTrustRequest => trivial
  | claim | addIdentifier => cases h

theorem tells_setTrust {l : TrustLevel} (hlevel : c.level = some l) (clock : Int) {met : List ContactDb}
    (hreads : reading lower c met = true) (hwrites : ∀ s, reading lower c (met ++ [s]) = false) :
    TrustTells lower c met (PrincipalStore.setTrust c.target l clock) := by
  unfold PrincipalStore.setTrust
  refine Prog.tells_read (fun _ => .still hreads) fun s => ?_
  split
  · exact Prog.tells_pure trivial
  next row hrow =>
  have hid : row.id = c.target := PrincipalTables.id_of_get hrow
  refine Prog.tells_atomic (fun db => ?_) fun _ => Prog.tells_pure trivial
  refine .wrote s _ (hwrites s) (by simp) ⟨hid, ?_, ?_, ?_, added_of_level lower hlevel _ _⟩
  · intro hnone
    rw [hlevel] at hnone
    cases hnone
  · intro l' hl'
    rw [hlevel] at hl'
    exact Option.some.inj hl'
  · intro r hr
    cases hrow.symm.trans hr
    exact List.Subset.refl _

theorem tells_claimIdentifiers (stalePid controllerPid : String) (now : Int) :
    TrustTells lower (.claim stalePid controllerPid now) [] (claimIdentifiers stalePid controllerPid now) := by
  unfold claimIdentifiers
  refine Prog.tells_read (fun _ => .still rfl) fun s => ?_
  refine Prog.tells_read (fun _ => .still rfl) fun s' => ?_
  dsimp only
  split
  · refine Prog.tells_atomic (fun db => ?_) fun _ => Prog.tells_pure trivial
    refine .wrote s' _ rfl (by simp) ⟨?_, ?_, ?_, ?_, ?_⟩
    · cases h : s'.principals.get controllerPid with
      | none => rfl
      | some r =>
        have hid : r.id = controllerPid := PrincipalTables.id_of_get h
        exact hid
    · intro _ r hr
      rw [show s'.principals.get controllerPid = some r from hr]
      rfl
    · intro l hl
      cases hl
    · intro r hr
      rw [show s'.principals.get controllerPid = some r from hr]
      exact subset_addMissing _ _
    · refine ⟨s, by simp, fun stale hstale ident hident => mem_addMissing ?_⟩
      rw [hstale]
      exact hident
  · exact Prog.tells_pure trivial

theorem tells_addHandler (controllerPid transport handle : String) (now : Int) :
    TrustTells lower (.addIdentifier controllerPid transport handle now) []
      (addHandler lower controllerPid transport handle now) := by
  -- the reads and the write behind the index probe
  have hrest : ∀ (met : List ContactDb) (existing : Option Principal),
      reading lower (.addIdentifier controllerPid transport handle now) met = true →
      (∀ s, reading lower (.addIdentifier controllerPid transport handle now) (met ++ [s]) = false) →
      TrustTells lower (.addIdentifier controllerPid transport handle now) met
        (match existing.filter (fun p => decide (p.id ≠ controllerPid)) with
        | some other => pure (.error (identifierClaimed (addedIdentifier lower transport handle) other))
        | none => addToController controllerPid (addedIdentifier lower transport handle) now) := by
    intro met existing hreads hwrites
    split
    · exact Prog.tells_pure trivial
    unfold addToController
    refine Prog.tells_read (fun _ => .still hreads) fun s => ?_
    dsimp only
    split
    · exact Prog.tells_pure trivial
    refine Prog.tells_atomic (fun db => ?_) fun _ => Prog.tells_pure trivial
    refine .wrote s _ (hwrites s) (by simp) ⟨?_, ?_, ?_, ?_, ?_⟩
    · cases h : s.principals.get controllerPid with
      | none => rfl
      | some r =>
        have hid : r.id = controllerPid := PrincipalTables.id_of_get h
        exact hid
    · intro _ r hr
      rw [show s.principals.get controllerPid = some r from hr]
      rfl
    · intro l hl
      cases hl
    · intro r hr
      rw [show s.principals.get controllerPid = some r from hr]
      exact List.subset_append_left _ _
    · exact List.mem_append_right _ (by simp)
  unfold addHandler
  dsimp only
  split
  · exact Prog.tells_pure trivial
  refine Prog.Tells.bind (fun met existing
    (h : reading lower (.addIdentifier controllerPid transport handle now) met = true ∧
      ∀ s, reading lower (.addIdentifier controllerPid transport handle now) (met ++ [s]) = false) =>
        hrest met existing h.1 h.2) ?_
  unfold PrincipalStore.findByIdentifier
  refine Prog.tells_read (fun _ => .still (by simp [reading])) fun s => ?_
  split
  · next id hid =>
    refine Prog.tells_read (fun _ => .still (by simp [reading, hid])) fun s' => Prog.tells_pure ?_
    simp [reading, hid]
  · next hid =>
    apply Prog.tells_pure
    simp [reading, hid]

theorem tells_trustRun (c : TrustCall) : TrustTells lower c [] (c.run lower) := by
  -- a call that ends in a `set_trust`
  have hset : ∀ {l : TrustLevel} (clock : Int) {met : List ContactDb}, c.level = some l →
      reading lower c met = true → (∀ s, reading lower c (met ++ [s]) = false) →
      TrustTells lower c met (PrincipalStore.setTrust c.target l clock >>= fun res => pure (trustSet res)) := by
    intro l clock met hl hreads hwrites
    exact tells_bind lower (tells_setTrust lower hl clock hreads hwrites) fun _ _ => Prog.tells_pure trivial
  cases c with
  | setTrust id l clock => exact hset clock rfl rfl (fun _ => rfl)
  | revoke id reason now clock =>
    rw [TrustCall.run, revokeHandler]
    refine Prog.tells_read (fun _ => .still rfl) fun s => ?_
    split
    · exact Prog.tells_pure trivial
    · exact hset clock rfl rfl (fun _ => rfl)
  | setTrustRequest id req now clock =>
    rw [TrustCall.run, setTrustHandler]
    refine Prog.tells_read (fun _ => .still rfl) fun s => ?_
    split
    · exact Prog.tells_pure trivial
    split
    · exact Prog.tells_pure trivial
    · next level hlevel => exact hset clock hlevel rfl (fun _ => rfl)
  | claim stalePid controllerPid now =>
    rw [TrustCall.run]
    exact tells_bind lower (tells_claimIdentifiers lower stalePid controllerPid now) fun _ _ => Prog.tells_pure trivial
  | addIdentifier controllerPid transport handle now =>
    rw [TrustCall.run]
    exact tells_addHandler lower controllerPid transport handle now

end Moves

abbrev TrustPool := Pool ContactDb TrustCall (Except ApiError Unit)

abbrev TrustEvent := Event TrustCall (Except ApiError Unit) Empty

def trustStep (lower : String → String) : TrustPool → TrustEvent → TrustPool → Prop :=
  Pool.Step (fun _ => TrustCall.run lower) (fun _ e => e.elim)

def Writing (q : Prog ContactDb (Except ApiError Unit)) : Prop := ∃ next cont, q = .op next cont ∧ next ≠ id

def Fresh (lower : String → String) (p : TrustPool) (e : TrustEvent) : Prop :=
  ∀ i c q, e = .step i → p.procs i = some (c, q) → Writing q → ∃ met, (c.run lower).left (met ++ [p.shared]) = some q

def FreshStep (lower : String → String) (p : TrustPool) (e : TrustEvent) (p' : TrustPool) : Prop :=
  trustStep lower p e p' ∧ Fresh lower p e

def SetsTrust (p : TrustPool) (e : TrustEvent) (id : String) (l : TrustLevel) : Prop :=
  ∃ i c q, e = .step i ∧ p.procs i = some (c, q) ∧ Writing q ∧ c.target = id ∧ c.level = some l

def QuietStep (lower : String → String) (id : String) (p : TrustPool) (e : TrustEvent) (p' : TrustPool) : Prop :=
  FreshStep lower p e p' ∧ ∀ l, ¬ SetsTrust p e id l

def trustOf (p : TrustPool) (id : String) : Option TrustLevel := (p.shared.principals.get id).map Principal.trustLevel

section Runs

variable {lower : String → String} {p p' : TrustPool} {e : TrustEvent} {es : List TrustEvent}

structure Wrote (lower : String → String) (p : TrustPool) (e : TrustEvent) (p' : TrustPool) (i : Nat) (c : TrustCall)
    (met : List ContactDb) (s : ContactDb) (row : Principal) : Prop where
  step : e = .step i
  in_ : ∃ q, p.procs i = some (c, q) ∧ Writing q
  last : met.getLast? = some s
  edits : Edits lower c met (s.principals.get c.target) row
  now : p'.shared = { p.shared with principals := p.shared.principals.upsert row }

variable {q : Prog ContactDb (Except ApiError Unit)} {c : TrustCall} {i : Nat} {met : List ContactDb}

theorem wrote_of_tells (h : trustStep lower p (.step i) p') (hi : p.procs i = some (c, q))
    (htells : TrustTells lower c met q) :
    p'.shared = p.shared ∧ ¬ Writing q ∨ ∃ s row, Wrote lower p (.step i) p' i c met s row := by
  obtain ⟨c', next, cont, hi', rfl⟩ := h
  cases hi.symm.trans hi'
  by_cases hnext : next = id
  · subst hnext
    refine .inl ⟨rfl, ?_⟩
    rintro ⟨next, cont', hop, hne⟩
    exact hne (Prog.op.inj hop).1.symm
  · -- a statement that changes some state is the write, in every state
    obtain ⟨s', hs'⟩ := Function.ne_iff.1 hnext
    have hwrites : reading lower c met = false := by
      have hmove := htells.next s'
      generalize hn : next s' = t at hmove
      cases hmove with
      | still _ => exact absurd hn hs'
      | wrote s row writes last edits => exact writes
    have hmove := htells.next p.shared
    obtain ⟨t, hn⟩ : ∃ t, next p.shared = t := ⟨_, rfl⟩
    rw [hn] at hmove
    cases hmove with
    | still reads => rw [hwrites] at reads; cases reads
    | wrote s row writes last edits => exact .inr ⟨s, row, rfl, ⟨_, hi, next, cont, rfl, hnext⟩, last, edits, hn⟩

theorem fresh_step (h : FreshStep lower p e p') :
    p'.shared = p.shared ∧ (∀ id l, ¬ SetsTrust p e id l) ∨
      ∃ i c met row, Wrote lower p e p' i c met p.shared row := by
  obtain ⟨hstep, hfresh⟩ := h
  have hquiet : (∀ i, e ≠ .step i) → ∀ id l, ¬ SetsTrust p e id l := by
    rintro hne id l ⟨i, -, -, he, -⟩
    exact hne i he
  cases e with
  | call i c | returns i c a => exact .inl ⟨by rw [hstep.2], hquiet nofun⟩
  | crash i => exact .inl ⟨by rw [show p' = _ from hstep], hquiet nofun⟩
  | env o => exact o.elim
  | step i =>
    obtain ⟨c, next, cont, hi, -⟩ := id hstep
    by_cases hw : Writing (.op next cont)
    · obtain ⟨met, hleft⟩ := hfresh i c _ rfl hi hw
      have htells := (tells_trustRun lower c).left hleft
      rcases wrote_of_tells hstep hi htells with ⟨-, hnot⟩ | ⟨s, row, hwrote⟩
      · exact absurd hw hnot
      · obtain rfl : p.shared = s := by simpa using hwrote.last
        exact .inr ⟨i, c, _, row, hwrote⟩
    · have hnext : next = id := by
        by_contra hne
        exact hw ⟨next, cont, rfl, hne⟩
      obtain ⟨c', next', cont', hi', rfl⟩ := hstep
      obtain ⟨rfl, hop⟩ := Prod.mk.inj (Option.mem_unique hi hi')
      obtain ⟨rfl, -⟩ := Prog.op.inj hop
      refine .inl ⟨by rw [hnext]; rfl, ?_⟩
      rintro id l ⟨j, d, q, hj, hq, hwq, -⟩
      obtain rfl := Event.step.inj hj
      rw [hi] at hq
      cases hq
      exact hw hwq

theorem Wrote.row {s : ContactDb} {row : Principal} (h : Wrote lower p e p' i c met s row) :
    ∃ r', p'.shared.principals.get c.target = some r' ∧ r'.trustLevel = row.trustLevel ∧
      r'.identifiers = row.identifiers := by
  refine ⟨p.shared.principals.stored row, ?_, p.shared.principals.stored_trustLevel row,
    p.shared.principals.stored_identifiers row⟩
  rw [h.now, ← h.edits.id]
  exact PrincipalTables.get_upsert_self _ _

variable {id : String}

theorem Wrote.others {s : ContactDb} {row : Principal} (h : Wrote lower p e p' i c met s row) (hne : id ≠ c.target) :
    p'.shared.principals.get id = p.shared.principals.get id := by
  rw [h.now]
  refine PrincipalTables.get_upsert_of_ne _ _ ?_
  rwa [h.edits.id]

variable {r : Principal}

theorem row_step (h : FreshStep lower p e p') (hr : p.shared.principals.get id = some r) :
    ∃ r', p'.shared.principals.get id = some r' ∧ r.identifiers ⊆ r'.identifiers ∧
      ((∀ l, ¬ SetsTrust p e id l) → r'.trustLevel = r.trustLevel) := by
  rcases fresh_step h with ⟨hsame, -⟩ | ⟨i, c, met, row, hwrote⟩
  · exact ⟨r, by rw [hsame, hr], List.Subset.refl _, fun _ => rfl⟩
  by_cases hid : id = c.target
  · subst hid
    obtain ⟨r', hr', htrust, hidents⟩ := hwrote.row
    refine ⟨r', hr', by rw [hidents]; exact hwrote.edits.keeps r hr, fun hquiet => ?_⟩
    rw [htrust]
    obtain ⟨q, hq, hw⟩ := hwrote.in_
    cases hlevel : c.level with
    | none => exact hwrote.edits.trust hlevel r hr
    | some l => exact absurd ⟨i, c, q, hwrote.step, hq, hw, rfl, hlevel⟩ (hquiet l)
  · exact ⟨r, by rw [hwrote.others hid, hr], List.Subset.refl _, fun _ => rfl⟩

theorem row_run (hrun : Run (FreshStep lower) p es p') (hr : p.shared.principals.get id = some r) :
    ∃ r', p'.shared.principals.get id = some r' ∧ r.identifiers ⊆ r'.identifiers := by
  induction es generalizing p r with
  | nil =>
    obtain rfl := hrun
    exact ⟨r, hr, List.Subset.refl _⟩
  | cons e es ih =>
    obtain ⟨m, hm, hrun⟩ := hrun
    obtain ⟨r', hr', hsub, -⟩ := row_step hm hr
    obtain ⟨r'', hr'', hsub'⟩ := ih hrun hr'
    exact ⟨r'', hr'', List.Subset.trans hsub hsub'⟩

theorem quiet_run (hrun : Run (QuietStep lower id) p es p') {l : TrustLevel} (hl : trustOf p id = some l) :
    trustOf p' id = some l := by
  induction es generalizing p with
  | nil =>
    obtain rfl := hrun
    exact hl
  | cons e es ih =>
    obtain ⟨m, ⟨hm, hquiet⟩, hrun⟩ := hrun
    obtain ⟨r, hr, rfl⟩ := Option.map_eq_some_iff.1 hl
    obtain ⟨r', hr', -, htrust⟩ := row_step hm hr
    refine ih hrun ?_
    rw [trustOf, hr', Option.map_some, htrust hquiet]

theorem trustOf_set (h : FreshStep lower p e p') {l : TrustLevel} (hset : SetsTrust p e id l) :
    trustOf p' id = some l := by
  rcases fresh_step h with ⟨-, hquiet⟩ | ⟨i, c, met, row, hwrote⟩
  · exact absurd hset (hquiet id l)
  obtain ⟨j, d, q, hj, hq, -, rfl, hlevel⟩ := hset
  obtain rfl := Event.step.inj (hwrote.step.symm.trans hj)
  obtain ⟨q', hq', -⟩ := hwrote.in_
  cases hq'.symm.trans hq
  obtain ⟨r', hr', htrust, -⟩ := hwrote.row
  rw [trustOf, hr', Option.map_some, htrust, hwrote.edits.level l hlevel]

def AddedSince (lower : String → String) (begun : TrustPool) (since : List TrustEvent) (p : TrustPool) (c : TrustCall)
    (idents : List Identifier) : Prop :=
  match c with
  | .claim stalePid _ _ => ∃ s, Pool.Met (FreshStep lower) begun since p s ∧
      ∀ stale, s.principals.get stalePid = some stale → ∀ ident ∈ stale.identifiers, ident ∈ idents
  | .addIdentifier _ transport handle _ => addedIdentifier lower transport handle ∈ idents
  | _ => True

theorem added_step {start : TrustPool} (hidle : ∀ i, start.procs i = none) (hrun : Run (FreshStep lower) start es p)
    (h : FreshStep lower p (.step i) p') (hi : p.procs i = some (c, q)) (hw : Writing q) :
    ∃ begun since r, Pool.Since (FreshStep lower) start es p i c begun since ∧
      p'.shared.principals.get c.target = some r ∧ AddedSince lower begun since p c r.identifiers := by
  obtain ⟨begun, since, met, hsince, hleft, hmet⟩ := Pool.since_run (fun _ _ _ h => h.1) hidle hrun hi
  have htells := (tells_trustRun lower c).left hleft
  rcases wrote_of_tells h.1 hi htells with ⟨-, hnot⟩ | ⟨s, row, hwrote⟩
  · exact absurd hw hnot
  obtain ⟨r, hr, -, hidents⟩ := hwrote.row
  refine ⟨begun, since, r, hsince, hr, ?_⟩
  have hadds := hwrote.edits.adds
  rw [hidents]
  cases c with
  | setTrust | revoke | setTrustRequest => trivial
  | claim stalePid controllerPid now =>
    obtain ⟨s, hs, hstale⟩ := hadds
    exact ⟨s, hmet s hs, hstale⟩
  | addIdentifier controllerPid transport handle now => exact hadds

theorem findByIdentifier_of_mem {db : ContactDb} {ident : Identifier} (hr : db.principals.get id = some r)
    (hident : ident ∈ r.identifiers) :
    ∃ q, (PrincipalStore.findByIdentifier ident).alone db = (some q, db) ∧ ident ∈ q.identifiers := by
  obtain ⟨j, q, hj, hq, hmem⟩ := PrincipalTables.holder_of_mem hr hident
  refine ⟨q, ?_, hmem⟩
  rw [PrincipalStore.findByIdentifier, Prog.alone_bind, Prog.alone_read]
  rw [hj]
  dsimp only
  rw [PrincipalStore.get, Prog.alone_read, hq]

/-- **What holds of trust and identifiers**, in a pool `m` reached from `start` by the events `es`. -/
structure TrustKept (lower : String → String) (start : TrustPool) (es : List TrustEvent) (m : TrustPool) : Prop where
  last : ∀ e m' id l, FreshStep lower m e m' → SetsTrust m e id l →
    ∀ later p, Run (QuietStep lower id) m' later p → trustOf p id = some l
  others : ∀ e m' id l, FreshStep lower m e m' → (∀ l', ¬ SetsTrust m e id l') → trustOf m id = some l →
    trustOf m' id = some l
  found : ∀ id r ident, m.shared.principals.get id = some r → ident ∈ r.identifiers →
    ∀ later p, Run (FreshStep lower) m later p → ∃ r' q, p.shared.principals.get id = some r' ∧
      ident ∈ r'.identifiers ∧ (PrincipalStore.findByIdentifier ident).alone p.shared = (some q, p.shared) ∧
      ident ∈ q.identifiers
  added : ∀ i m' c q, FreshStep lower m (.step i) m' → m.procs i = some (c, q) → Writing q →
    ∃ begun since r, Pool.Since (FreshStep lower) start es m i c begun since ∧
      m'.shared.principals.get c.target = some r ∧ AddedSince lower begun since m c r.identifiers

/-- **No trust change and no identifier is lost**, in every run of writers that come to their writes with a row read
afresh. -/
theorem trust_kept {start m : TrustPool} (hidle : ∀ i, start.procs i = none)
    (hrun : Run (FreshStep lower) start es m) : TrustKept lower start es m where
  last := fun _ _ _ _ h hset _ _ hlater => quiet_run hlater (trustOf_set h hset)
  others := by
    intro e m' id l h hquiet hl
    have hone : Run (QuietStep lower id) m [e] m' := ⟨m', ⟨h, hquiet⟩, rfl⟩
    exact quiet_run hone hl
  found := by
    intro id r ident hr hident later p hlater
    obtain ⟨r', hr', hsub⟩ := row_run hlater hr
    obtain ⟨q, hq, hmem⟩ := findByIdentifier_of_mem hr' (hsub hident)
    exact ⟨r', q, hr', hsub hident, hq, hmem⟩
  added := fun _ _ _ _ h hi hw => added_step hidle hrun h hi hw

theorem writing_of_changed (h : trustStep lower p (.step i) p') (hi : p.procs i = some (c, q))
    (hne : p'.shared ≠ p.shared) : Writing q := by
  obtain ⟨c', next, cont, hi', rfl⟩ := h
  cases hi.symm.trans hi'
  refine ⟨next, cont, rfl, ?_⟩
  rintro rfl
  exact hne rfl

theorem fresh_call (i : Nat) (c : TrustCall) : Fresh lower p (.call i c) := fun _ _ _ h => nomatch h

theorem fresh_first (hi : p.procs i = some (c, c.run lower)) : Fresh lower p (.step i) := by
  rintro j d q he hq ⟨next, cont, rfl, hne⟩
  obtain rfl := Event.step.inj he
  obtain ⟨rfl, hop⟩ := Prod.mk.inj (Option.mem_unique hi hq)
  have htells := tells_trustRun lower c
  rw [hop] at htells
  -- no call writes before it has read
  refine absurd (funext fun s => ?_) hne
  have hmove := htells.next s
  generalize next s = t at hmove ⊢
  cases hmove with
  | still _ => rfl
  | wrote s' row writes last edits => cases last

theorem fresh_of_left (met : List ContactDb) (hi : p.procs i = some (c, q))
    (hleft : (c.run lower).left (met ++ [p.shared]) = some q) : Fresh lower p (.step i) := by
  intro j d q' he hq _
  obtain rfl := Event.step.inj he
  cases hi.symm.trans hq
  exact ⟨met, hleft⟩

end Runs

def holding (p : Principal) : ContactDb := { ContactDb.empty with principals := PrincipalTables.empty.upsert p }

def ownRow : TrustPool := ⟨holding (newController "c" 0), fun _ => none⟩

def ownBlocked : TrustLevel := .blocked "controller" 1 none

def blockOwn : TrustCall := .setTrust "c" ownBlocked 1

def addOwn : TrustCall := .addIdentifier "c" "signal" "+1" 2

/-- **A blocking beside an addition**: the block is read and written behind the identifier, and both stand. -/
theorem trust_kept_beside : ∃ es m m', Run (FreshStep id) ownRow es m ∧ FreshStep id m (.step 1) m' ∧
    SetsTrust m (.step 1) "c" ownBlocked ∧ TrustKept id ownRow es m ∧ trustOf m' "c" = some ownBlocked ∧
    ∃ q, (PrincipalStore.findByIdentifier ⟨"signal", "+1"⟩).alone m'.shared = (some q, m'.shared) ∧
      ⟨"signal", "+1"⟩ ∈ q.identifiers := by
  have hrun : ∃ m m', Run (FreshStep id) ownRow
        [.call 0 addOwn, .step 0, .call 1 blockOwn, .step 0, .step 0, .step 1] m ∧ FreshStep id m (.step 1) m' ∧
      (∃ q, m.procs 1 = some (blockOwn, q)) ∧ (trustOf m "c" = some .controller ∧ trustOf m' "c" = some ownBlocked) ∧
      ∃ r ∈ m.shared.principals.get "c", ⟨"signal", "+1"⟩ ∈ r.identifiers := by
    refine ⟨_, _, ⟨_, ⟨⟨rfl, rfl⟩, fresh_call 0 addOwn⟩, _, ⟨⟨_, _, _, rfl, rfl⟩, fresh_first rfl⟩, _,
      ⟨⟨rfl, rfl⟩, fresh_call 1 blockOwn⟩, _, ⟨⟨_, _, _, rfl, rfl⟩, fresh_of_left [] rfl rfl⟩, _,
      ⟨⟨_, _, _, rfl, rfl⟩, fresh_of_left [ownRow.shared] rfl rfl⟩, _, ⟨⟨_, _, _, rfl, rfl⟩, fresh_first rfl⟩, rfl⟩,
      ⟨⟨_, _, _, rfl, rfl⟩, fresh_of_left [] rfl rfl⟩, ⟨_, rfl⟩, ?_, ?_⟩
    · decide +kernel
    · decide +kernel
  obtain ⟨m, m', hrun, hstep, ⟨q, hq⟩, ⟨hbefore, hafter⟩, r, hr, hident⟩ := hrun
  have hne : m'.shared ≠ m.shared := by
    intro hsame
    rw [trustOf, hsame, ← trustOf, hbefore] at hafter
    cases hafter
  have hset : SetsTrust m (.step 1) "c" ownBlocked :=
    ⟨1, blockOwn, q, rfl, hq, writing_of_changed hstep.1 hq hne, rfl, rfl⟩
  have hkept := trust_kept (fun _ => rfl) hrun
  obtain ⟨-, q', -, -, hfound, hmem⟩ := hkept.found "c" r _ hr hident [.step 1] m' ⟨m', hstep, rfl⟩
  exact ⟨_, m, m', hrun, hstep, hset, hkept, hkept.last _ m' _ _ hstep hset [] m' rfl, q', hfound, hmem⟩

/-- **A lost block**: an identifier is added with a row read before the block. -/
theorem block_lost : ∃ m m' p, Run (trustStep id) ownRow
      [.call 0 addOwn, .step 0, .step 0, .call 1 blockOwn, .step 1] m ∧ trustStep id m (.step 1) m' ∧
    SetsTrust m (.step 1) "c" ownBlocked ∧ trustStep id m' (.step 0) p ∧ (∀ l, ¬ SetsTrust m' (.step 0) "c" l) ∧
    trustOf p "c" = some .controller := by
  have hrun : ∃ m m' p, Run (trustStep id) ownRow [.call 0 addOwn, .step 0, .step 0, .call 1 blockOwn, .step 1] m ∧
      trustStep id m (.step 1) m' ∧ trustStep id m' (.step 0) p ∧ (∃ q, m.procs 1 = some (blockOwn, q)) ∧
      (∃ q, m'.procs 0 = some (addOwn, q)) ∧ trustOf m "c" = some .controller ∧ trustOf m' "c" = some ownBlocked ∧
      trustOf p "c" = some .controller := by
    refine ⟨_, _, _, ⟨_, ⟨rfl, rfl⟩, _, ⟨_, _, _, rfl, rfl⟩, _, ⟨_, _, _, rfl, rfl⟩, _, ⟨rfl, rfl⟩, _,
      ⟨_, _, _, rfl, rfl⟩, rfl⟩, ⟨_, _, _, rfl, rfl⟩, ⟨_, _, _, rfl, rfl⟩, ⟨_, rfl⟩, ⟨_, rfl⟩, ?_, ?_, ?_⟩
    · decide +kernel
    · decide +kernel
    · decide +kernel
  obtain ⟨m, m', p, hrun, hblock, hadd, ⟨q, hq⟩, ⟨q', hq'⟩, hbefore, hblocked, hafter⟩ := hrun
  have hne : m'.shared ≠ m.shared := by
    intro hsame
    rw [trustOf, hsame, ← trustOf, hbefore] at hblocked
    cases hblocked
  refine ⟨m, m', p, hrun, hblock, ⟨1, blockOwn, q, rfl, hq, writing_of_changed hblock hq hne, rfl, rfl⟩, hadd, ?_,
    hafter⟩
  rintro l ⟨j, d, r, hj, hr, -, -, hlevel⟩
  obtain rfl := Event.step.inj hj
  cases hq'.symm.trans hr
  cases hlevel

end Execlaw
