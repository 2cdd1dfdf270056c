import Execlaw.Calls
import Execlaw.Keyed
/-!
# RefreshTokens — sessions and their refresh tokens (`core/src/refresh_tokens.rs`)

A session is its refresh tokens: it is active while a token of it is stored that has not expired.  A refresh consumes
the token it is shown and then, in a second call, issues the next one.  Identifiers the source draws at random are
arguments; one that was drawn before is not drawn again.
-/
namespace Execlaw

open Table

structure RefreshTokenRec where
  token : String
  principalId : String
  sessionId : String
  issuedAt : Int
  expiresAt : Int

/-- `RefreshTokenRow`, what `consume` hands out. -/
structure RefreshTokenRow where
  principalId : String
  sessionId : String
  expiresAt : Int

structure UserRec where
  userId : String
  passwordHash : String

structure AuthTables where
  tokens : Keyed RefreshTokenRec.token (fun _ => True)
  users : Keyed UserRec.userId (fun _ => True)

def RefreshTokenRec.row (r : RefreshTokenRec) : RefreshTokenRow := ⟨r.principalId, r.sessionId, r.expiresAt⟩

namespace RefreshTokenStore

def issue (token principalId sessionId : String) (now ttlSecs : Int) (t : AuthTables) : AuthTables :=
  { t with tokens := t.tokens.insertOrIgnore ⟨token, principalId, sessionId, now, now + ttlSecs⟩ trivial }

/-- `DELETE … WHERE token = ?1 RETURNING …`; an expired row is deleted as well. -/
def consume (token : String) (now : Int) (t : AuthTables) : Option RefreshTokenRow × AuthTables :=
  (((t.tokens.row token).filter (fun r => !decide (r.expiresAt < now))).map RefreshTokenRec.row,
    { t with tokens := t.tokens.remove token (fun _ => true) })

def revokeSession (sessionId : String) (t : AuthTables) : AuthTables :=
  { t with tokens := t.tokens.removeAll (fun r => r.sessionId == sessionId) }

def sessionIsActive (principalId sessionId : String) (now : Int) (t : AuthTables) : Bool :=
  t.tokens.rows.any (fun r => r.principalId == principalId && r.sessionId == sessionId && decide (now < r.expiresAt))

def revokeAllForUser (principalId : String) (t : AuthTables) : AuthTables :=
  { t with tokens := t.tokens.removeAll (fun r => r.principalId == principalId) }

def passwordChange (passwordHash : String) : Change UserRec.userId (fun _ => True) where
  takes := fun _ => true
  set := fun u => { u with passwordHash := passwordHash }
  key_set := fun _ => rfl
  keeps_ok := fun _ h _ => h

def setPasswordHashAndRevokeAll (principalId passwordHash : String) (t : AuthTables) : Option Nat × AuthTables :=
  if t.users.changed principalId (passwordChange passwordHash) then
    (some (t.tokens.rows.countP (fun r => r.principalId == principalId)),
      revokeAllForUser principalId { t with users := t.users.update principalId (passwordChange passwordHash) })
  else (none, t)

def purgeExpired (now : Int) (t : AuthTables) : AuthTables :=
  { t with tokens := t.tokens.removeAll (fun r => decide (r.expiresAt ≤ now)) }

end RefreshTokenStore

/-! ## Requests -/

inductive AuthCall
  | login (userId sessionId token : String) (now ttlSecs : Int)
  | refreshConsume (request : Nat) (token : String) (now : Int)
  | refreshIssue (request : Nat) (token : String) (now ttlSecs : Int)
  | logoutConsume (request : Nat) (token : String) (now : Int)
  | logoutRevoke (request : Nat)
  | logoutAll (userId : String)
  | setPassword (userId passwordHash : String)
  | purge (now : Int)

def AuthCall.now : AuthCall → Int
  | .refreshConsume _ _ now => now
  | .logoutConsume _ _ now => now
  | _ => 0

/-- The tables; what each refresh and each logout has consumed and not answered yet; the token values and the sessions
drawn so far, each session with its user. -/
structure AuthSystem where
  tables : AuthTables
  refreshing : List (Nat × RefreshTokenRow)
  leaving : List (Nat × RefreshTokenRow)
  drawn : List String
  begun : List (String × String)

namespace AuthSystem

open RefreshTokenStore

def start (users : Keyed UserRec.userId (fun _ => True)) : AuthSystem := ⟨⟨.empty, users⟩, [], [], [], []⟩

def consumedBy (request : Nat) (l : List (Nat × RefreshTokenRow)) : Option RefreshTokenRow :=
  (l.find? (fun p => p.1 == request)).map Prod.snd

def without (request : Nat) (l : List (Nat × RefreshTokenRow)) : List (Nat × RefreshTokenRow) :=
  l.filter (fun p => p.1 != request)

/-- **One call**; its answer is what it consumed. -/
def exec (s : AuthSystem) : AuthCall → Option RefreshTokenRow × AuthSystem
  | .login userId sessionId token now ttlSecs =>
    if sessionId ∈ s.begun.map Prod.snd ∨ token ∈ s.drawn then (none, s)
    else
      (none, { s with
        tables := issue token userId sessionId now ttlSecs s.tables
        drawn := token :: s.drawn, begun := (userId, sessionId) :: s.begun })
  | .refreshConsume request token now =>
    let called := consume token now s.tables
    (called.1, { s with
      tables := called.2, refreshing := called.1.toList.map (Prod.mk request) ++ without request s.refreshing })
  | .refreshIssue request token now ttlSecs =>
    match consumedBy request s.refreshing with
    | none => (none, s)
    | some record =>
      if token ∈ s.drawn then (none, s)
      else
        (none, { s with
          tables := issue token record.principalId record.sessionId now ttlSecs s.tables
          refreshing := without request s.refreshing, drawn := token :: s.drawn })
  | .logoutConsume request token now =>
    let called := consume token now s.tables
    (called.1, { s with
      tables := called.2, leaving := called.1.toList.map (Prod.mk request) ++ without request s.leaving })
  | .logoutRevoke request =>
    match consumedBy request s.leaving with
    | none => (none, s)
    | some record =>
      (none, { s with tables := revokeSession record.sessionId s.tables, leaving := without request s.leaving })
  | .logoutAll userId => (none, { s with tables := revokeAllForUser userId s.tables })
  | .setPassword userId passwordHash =>
    (none, { s with tables := (setPasswordHashAndRevokeAll userId passwordHash s.tables).2 })
  | .purge now => (none, { s with tables := purgeExpired now s.tables })

def run (users : Keyed UserRec.userId (fun _ => True)) (calls : List AuthCall) : AuthSystem :=
  Calls.after exec (start users) calls

def consumes (token : String) (s : AuthSystem) : AuthCall → Bool
  | .refreshConsume _ shown now => shown == token && (consume shown now s.tables).1.isSome
  | .logoutConsume _ shown now => shown == token && (consume shown now s.tables).1.isSome
  | _ => false

/-- **The call revokes the session** of the user, which had begun. -/
def Revokes (s : AuthSystem) (userId sessionId : String) (c : AuthCall) : Prop :=
  (userId, sessionId) ∈ s.begun ∧
    match c with
    | .logoutRevoke request => ∃ record, consumedBy request s.leaving = some record ∧ record.sessionId = sessionId
    | .logoutAll user => user = userId
    | .setPassword user _ => user = userId ∧ (s.tables.users.row user).isSome = true
    | _ => False

/-! ## What should hold -/

/-- **A revoked session stays revoked**, whatever follows; a token is consumed once, and not after its expiry. -/
structure Revocable (users : Keyed UserRec.userId (fun _ => True)) (calls : List AuthCall) : Prop where
  revoked : ∀ pre c mid post, calls = pre ++ c :: (mid ++ post) → ∀ userId sessionId,
    Revokes (run users pre) userId sessionId c →
      ∀ now, sessionIsActive userId sessionId now (run users (pre ++ c :: mid)).tables = false
  once : ∀ token, Calls.count exec (consumes token) (start users) calls ≤ 1
  unexpired : ∀ pre c post, calls = pre ++ c :: post → ∀ token, consumes token (run users pre) c = true →
    ∃ r, (run users pre).tables.tokens.row token = some r ∧ c.now ≤ r.expiresAt

def Issues (s : AuthSystem) (userId sessionId : String) : AuthCall → Prop
  | .refreshIssue request token _ _ => token ∉ s.drawn ∧
    ∃ record, consumedBy request s.refreshing = some record ∧ record.principalId = userId ∧ record.sessionId = sessionId
  | _ => False

/-- **No refresh is overtaken**: none issues its successor after a revocation of its session. -/
def NoneOvertaken (users : Keyed UserRec.userId (fun _ => True)) (calls : List AuthCall) : Prop :=
  ∀ pre c mid d post, calls = pre ++ c :: (mid ++ d :: post) → ∀ userId sessionId,
    Revokes (run users pre) userId sessionId c → ¬ Issues (run users (pre ++ c :: mid)) userId sessionId d

/-! ## What a call leaves -/

def Gone (userId sessionId : String) (s : AuthSystem) : Prop :=
  (userId, sessionId) ∈ s.begun ∧
    ∀ r ∈ s.tables.tokens.rows, ¬ (r.principalId = userId ∧ r.sessionId = sessionId)

def Drawn (s : AuthSystem) : Prop := ∀ r ∈ s.tables.tokens.rows, r.token ∈ s.drawn

section Calls

variable {s : AuthSystem} {c : AuthCall} {userId sessionId token : String}

theorem mem_issue {r : RefreshTokenRec} {t : AuthTables} {principalId : String} {now ttlSecs : Int}
    (h : r ∈ (issue token principalId sessionId now ttlSecs t).tokens.rows) :
    r ∈ t.tokens.rows ∨ r = ⟨token, principalId, sessionId, now, now + ttlSecs⟩ := by
  simp only [issue, Keyed.insertOrIgnore] at h
  split at h
  · exact .inl h
  · simpa using h

/-- **Every token a call leaves** was stored, or is the one it issues to a session that begins or is refreshed. -/
theorem mem_exec {r : RefreshTokenRec} (h : r ∈ (exec s c).2.tables.tokens.rows) :
    r ∈ s.tables.tokens.rows ∨ r.token ∉ s.drawn ∧ r.token ∈ (exec s c).2.drawn ∧
      (r.sessionId ∉ s.begun.map Prod.snd ∨ Issues s r.principalId r.sessionId c) := by
  cases c with
  | login user session fresh now ttlSecs =>
    simp only [exec] at h ⊢
    split at h
    · exact .inl h
    · next hfresh =>
      rw [not_or] at hfresh
      rw [if_neg (not_or.2 hfresh)]
      rcases mem_issue h with h | rfl
      · exact .inl h
      · exact .inr ⟨hfresh.2, by simp, .inl hfresh.1⟩
  | refreshIssue request fresh now ttlSecs =>
    simp only [exec] at h ⊢
    cases hrecord : consumedBy request s.refreshing with
    | none => exact .inl (by simpa only [hrecord] using h)
    | some record =>
      simp only [hrecord] at h ⊢
      split at h
      · exact .inl h
      · next hfresh =>
        rw [if_neg hfresh]
        rcases mem_issue h with h | rfl
        · exact .inl h
        · exact .inr ⟨hfresh, by simp, .inr ⟨hfresh, record, hrecord, rfl, rfl⟩⟩
  | refreshConsume request shown now | logoutConsume request shown now => exact .inl (List.mem_filter.1 h).1
  | logoutRevoke request =>
    simp only [exec] at h
    split at h
    · exact .inl h
    · exact .inl (List.mem_filter.1 h).1
  | logoutAll user | purge now => exact .inl (List.mem_filter.1 h).1
  | setPassword user passwordHash =>
    simp only [exec, setPasswordHashAndRevokeAll] at h
    split at h
    · exact .inl (List.mem_filter.1 h).1
    · exact .inl h

theorem remembered (s : AuthSystem) (c : AuthCall) :
    (∀ t ∈ s.drawn, t ∈ (exec s c).2.drawn) ∧ ∀ p ∈ s.begun, p ∈ (exec s c).2.begun := by
  cases c <;> simp only [exec] <;> (try split) <;> (try split) <;> simp +contextual

theorem Drawn.kept (h : Drawn s) (c : AuthCall) : Drawn (exec s c).2 := by
  intro r hr
  rcases mem_exec hr with hr | ⟨-, hr, -⟩
  · exact (remembered s c).1 _ (h r hr)
  · exact hr

theorem Gone.kept (h : Gone userId sessionId s) (hc : ¬ Issues s userId sessionId c) :
    Gone userId sessionId (exec s c).2 := by
  refine ⟨(remembered s c).2 _ h.1, ?_⟩
  rintro r hr ⟨rfl, rfl⟩
  rcases mem_exec hr with hr | ⟨-, -, hnew | hissues⟩
  · exact h.2 r hr ⟨rfl, rfl⟩
  · exact hnew (List.mem_map_of_mem h.1)
  · exact hc hissues

theorem Revokes.gone (h : Revokes s userId sessionId c) : Gone userId sessionId (exec s c).2 := by
  refine ⟨(remembered s c).2 _ h.1, ?_⟩
  rintro r hr ⟨rfl, rfl⟩
  obtain ⟨-, h⟩ := h
  cases c with
  | logoutRevoke request =>
    obtain ⟨record, hrecord, hsession⟩ := h
    simp only [exec, hrecord, revokeSession, Keyed.removeAll, List.mem_filter] at hr
    simp [hsession] at hr
  | logoutAll user =>
    simp only [exec, revokeAllForUser, Keyed.removeAll, List.mem_filter] at hr
    simp [show user = r.principalId from h] at hr
  | setPassword user passwordHash =>
    obtain ⟨rfl, hstored⟩ := h
    have hchanged : s.tables.users.changed r.principalId (passwordChange passwordHash) = true := by
      obtain ⟨u, hu⟩ := Option.isSome_iff_exists.1 hstored
      exact Keyed.changed_iff.2 ⟨u, hu, rfl⟩
    simp only [exec, setPasswordHashAndRevokeAll, hchanged, if_true, revokeAllForUser, Keyed.removeAll,
      List.mem_filter] at hr
    simp at hr
  | _ => exact h

theorem Gone.inactive (h : Gone userId sessionId s) (now : Int) :
    sessionIsActive userId sessionId now s.tables = false := by
  rw [sessionIsActive, List.any_eq_false]
  intro r hr hactive
  simp only [Bool.and_eq_true, beq_iff_eq] at hactive
  exact h.2 r hr hactive.1

theorem Issues.active (h : Issues s userId sessionId c) (hdrawn : Drawn s) :
    ∃ now, sessionIsActive userId sessionId now (exec s c).2.tables = true := by
  cases c with
  | refreshIssue request fresh now ttlSecs =>
    obtain ⟨hfresh, record, hrecord, rfl, rfl⟩ := h
    have hnone : s.tables.tokens.row fresh = none := by
      refine byKey_eq_none.2 fun hmem => ?_
      obtain ⟨r, hr, rfl⟩ := List.mem_map.1 hmem
      exact hfresh (hdrawn r hr)
    have hlive : now + ttlSecs - 1 < now + ttlSecs := by omega
    refine ⟨now + ttlSecs - 1, ?_⟩
    simp only [exec, hrecord, if_neg hfresh, sessionIsActive, List.any_eq_true, issue]
    refine ⟨⟨fresh, record.principalId, record.sessionId, now, now + ttlSecs⟩, ?_, ?_⟩
    · rw [Keyed.insertOrIgnore, dif_neg (by simp [hnone])]
      simp
    · simp only [beq_self_eq_true, Bool.true_and]
      exact decide_eq_true hlive
  | _ => exact h.elim

/-! ## A token is shown once -/

theorem consumes_iff : consumes token s c = true ↔
    (∃ request, c = .refreshConsume request token c.now ∨ c = .logoutConsume request token c.now) ∧
      ∃ r, s.tables.tokens.row token = some r ∧ c.now ≤ r.expiresAt := by
  have hconsume (now : Int) : (consume token now s.tables).1.isSome = true ↔
      ∃ r, s.tables.tokens.row token = some r ∧ now ≤ r.expiresAt := by
    cases hrow : s.tables.tokens.row token with
    | none => simp [consume, hrow]
    | some r =>
      simp only [consume, hrow, Option.some.injEq, exists_eq_left']
      by_cases hexpired : r.expiresAt < now
      · simp [hexpired]
      · simpa [hexpired] using Int.not_lt.1 hexpired
  cases c with
  | refreshConsume request shown now | logoutConsume request shown now =>
    by_cases hshown : shown = token
    · subst hshown
      simp [consumes, hconsume, AuthCall.now]
    · simp [consumes, hshown, AuthCall.now]
  | _ => simp [consumes]

def Spent (token : String) (s : AuthSystem) : Prop := token ∈ s.drawn ∧ s.tables.tokens.row token = none

theorem spent_of_notMem (hdrawn : token ∈ s.drawn) (h : ∀ r ∈ s.tables.tokens.rows, r.token ≠ token) :
    Spent token s := by
  refine ⟨hdrawn, byKey_eq_none.2 fun hmem => ?_⟩
  obtain ⟨r, hr, hkey⟩ := List.mem_map.1 hmem
  exact h r hr hkey

theorem Spent.kept (h : Spent token s) (c : AuthCall) : Spent token (exec s c).2 := by
  refine spent_of_notMem ((remembered s c).1 _ h.1) ?_
  rintro r hr rfl
  rcases mem_exec hr with hr | ⟨hnew, -⟩
  · exact byKey_eq_none.1 h.2 (List.mem_map_of_mem hr)
  · exact hnew h.1

theorem Spent.of_consumes (hdrawn : Drawn s) (h : consumes token s c = true) : Spent token (exec s c).2 := by
  obtain ⟨⟨request, hc⟩, r, hrow, -⟩ := consumes_iff.1 h
  have hmem : token ∈ s.drawn := by
    obtain ⟨hr, rfl⟩ := Keyed.row_iff.1 hrow
    exact hdrawn r hr
  refine spent_of_notMem ((remembered s c).1 _ hmem) ?_
  rintro q hq rfl
  rcases hc with hc | hc <;> rw [hc] at hq <;> simp [exec, consume, Keyed.remove] at hq

end Calls

theorem drawn_run (users : Keyed UserRec.userId (fun _ => True)) (calls : List AuthCall) : Drawn (run users calls) :=
  Calls.after_invariant (fun _ c h => h.kept c) (by rintro r ⟨⟩) calls

variable (users : Keyed UserRec.userId (fun _ => True)) (calls : List AuthCall)

/-- **A revoked session stays revoked exactly if no refresh is overtaken**; a token is consumed once and in time. -/
theorem revocable_iff : Revocable users calls ↔ NoneOvertaken users calls := by
  constructor
  · intro h pre c mid d post hcalls userId sessionId hrevokes hissues
    obtain ⟨now, hactive⟩ := hissues.active (drawn_run users _)
    have hquiet := h.revoked pre c (mid ++ [d]) post (by simpa using hcalls) userId sessionId hrevokes now
    have hrun : run users (pre ++ c :: (mid ++ [d])) = (exec (run users (pre ++ c :: mid)) d).2 := by
      rw [← List.cons_append, ← List.append_assoc]
      exact Calls.after_snoc exec (start users) (pre ++ c :: mid) d
    rw [hrun, hactive] at hquiet
    cases hquiet
  · intro h
    refine ⟨fun pre c mid post hcalls userId sessionId hrevokes now => ?_, fun token => ?_, ?_⟩
    · -- from the revocation on, the session is gone: no call of what follows issues for it
      have hguarded : Calls.Guarded exec (fun s d => ¬ Issues s userId sessionId d)
          (exec (run users pre) c).2 mid := by
        intro front d rest hmid hissues
        have hsplit : calls = pre ++ c :: (front ++ d :: (rest ++ post)) := by rw [hcalls, hmid]; simp
        refine h pre c front d _ hsplit userId sessionId hrevokes ?_
        simpa [run, Calls.after_append] using hissues
      have hgone : Gone userId sessionId (run users (pre ++ c :: mid)) := by
        rw [run, Calls.after_append, Calls.after_cons]
        exact hguarded.invariant (fun _ _ hgone hd => hgone.kept hd) hrevokes.gone
      exact hgone.inactive now
    · refine Calls.count_le_one (I := Drawn) (S := Spent token) (fun _ c h => h.kept c) (fun _ c _ h => h.kept c)
        (fun s c _ hspent => ?_) (fun _ _ hdrawn hc => .of_consumes hdrawn hc) (by rintro r ⟨⟩) calls
      refine Bool.eq_false_iff.2 fun hc => ?_
      obtain ⟨-, r, hrow, -⟩ := consumes_iff.1 hc
      rw [hspent.2] at hrow
      cases hrow
    · intro pre c post _ token hc
      exact (consumes_iff.1 hc).2

def overtaken : List AuthCall :=
  [.login "ada" "s1" "t1" 0 100, .refreshConsume 1 "t1" 10, .logoutAll "ada", .refreshIssue 1 "t2" 11 100]

/-- **The session is active again** after the revocation. -/
theorem revoked_returns : ¬ Revocable .empty overtaken := by
  intro h
  have hinactive := h.revoked (overtaken.take 2) (.logoutAll "ada") [.refreshIssue 1 "t2" 11 100] [] rfl "ada" "s1"
    ⟨by decide, rfl⟩ 50
  revert hinactive
  decide

end AuthSystem

end Execlaw
