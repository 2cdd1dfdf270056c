import Execlaw.RelayMoves
/-!
# Handoff — the generations of a scope

Agent and controller hand a scope to and fro.  Every change of hands gets a generation the scope never had, and a
handback returns what the operator did since the takeover it ends.  A scope nobody owned before its takeover loses its
row when it is handed back, and with it the count: the takeover after that meets its own event in the log.
-/
namespace Execlaw

open Steps

variable {J : Type} {env : Env J} {s s' : System J} {a : Action J} {key : String}

/-! ## A scope's history -/

def generations (key : String) : List (Entry J) → List Nat
  | [] => []
  | .assigned k :: h => if k = key then 1 :: generations key h else generations key h
  | .tookOver k g :: h => if k = key then g :: generations key h else generations key h
  | .handedBack k g (some _) :: h => if k = key then (g + 1) :: generations key h else generations key h
  | .handedBack _ _ none :: h | .dispatch _ _ :: h | .notAccepted _ _ :: h | .released _ :: h
  | .acted _ _ _ _ _ :: h => generations key h

def dropped (key : String) : List (Entry J) → Option Nat
  | [] => none
  | .handedBack k g none :: h => if k = key then some g else dropped key h
  | .handedBack _ _ (some _) :: h | .assigned _ :: h | .tookOver _ _ :: h | .dispatch _ _ :: h | .notAccepted _ _ :: h
  | .released _ :: h | .acted _ _ _ _ _ :: h => dropped key h

structure OperatorAction (J : Type) where
  eventId : String
  conversationSeq : Int
  payload : J
  payloadJson : String

def periodActions (key : String) : List (Entry J) → List (OperatorAction J)
  | [] => []
  | .tookOver k _ :: h => if k = key then [] else periodActions key h
  | .acted k eventId seq payload text :: h =>
    if k = key then periodActions key h ++ [⟨eventId, seq, payload, text⟩] else periodActions key h
  | .assigned _ :: h | .handedBack _ _ _ :: h | .dispatch _ _ :: h | .notAccepted _ _ :: h | .released _ :: h =>
    periodActions key h

def period (key : String) : List (Entry J) → Option Nat
  | [] => none
  | .tookOver k g :: h => if k = key then some g else period key h
  | .assigned k :: h | .handedBack k _ _ :: h => if k = key then none else period key h
  | .dispatch _ _ :: h | .notAccepted _ _ :: h | .released _ :: h | .acted _ _ _ _ _ :: h => period key h

/-- `e` is the end of a control period of the scope. -/
def Entry.endsPeriod (key : String) : Entry J → Bool
  | .tookOver k _ | .assigned k | .handedBack k _ _ => k == key
  | _ => false

theorem generations_append_subset (new : List (Entry J)) (h : List (Entry J)) :
    generations key h ⊆ generations key (new ++ h) := by
  induction new with
  | nil => exact List.Subset.refl _
  | cons e new ih =>
    refine List.Subset.trans ih ?_
    rw [List.cons_append]
    cases e with
    | assigned | tookOver =>
      simp only [generations]
      split
      · exact List.subset_cons_self _ _
      · exact List.Subset.refl _
    | handedBack k g previous =>
      cases previous with
      | none => exact List.Subset.refl _
      | some _ =>
        simp only [generations]
        split
        · exact List.subset_cons_self _ _
        · exact List.Subset.refl _
    | dispatch | notAccepted | released | acted => exact List.Subset.refl _

variable {g : Nat}

theorem mem_generations_of_tookOver : ∀ {h : List (Entry J)}, .tookOver key g ∈ h → g ∈ generations key h := by
  intro h hmem
  obtain ⟨newer, older, rfl⟩ := List.append_of_mem hmem
  apply generations_append_subset newer
  simp [generations]

def Entry.key? : Entry J → Option String
  | .assigned k | .tookOver k _ | .acted k _ _ _ _ | .handedBack k _ _ => some k
  | .dispatch _ _ | .notAccepted _ _ | .released _ => none

structure SamePast (key : String) (h h' : List (Entry J)) : Prop where
  generations : generations key h' = generations key h
  dropped : dropped key h' = dropped key h
  actions : periodActions key h' = periodActions key h
  period : period key h' = period key h

theorem samePast_cons {e : Entry J} (he : e.key? ≠ some key) (h : List (Entry J)) : SamePast key h (e :: h) := by
  cases e with
  | dispatch | notAccepted | released => exact ⟨rfl, rfl, rfl, rfl⟩
  | assigned k | tookOver k | acted k =>
    have hk : k ≠ key := fun hk => he (congrArg some hk)
    constructor <;> simp [Execlaw.generations, Execlaw.dropped, periodActions, Execlaw.period, hk]
  | handedBack k g previous =>
    have hk : k ≠ key := fun hk => he (congrArg some hk)
    cases previous <;> constructor <;>
      simp [Execlaw.generations, Execlaw.dropped, periodActions, Execlaw.period, hk]

def FreshTakeovers (key : String) (h : List (Entry J)) : Prop :=
  ∀ newer older g, h = newer ++ .tookOver key g :: older → g ∉ generations key older

theorem freshTakeovers_cons {e : Entry J} {h : List (Entry J)} (hh : FreshTakeovers key h)
    (he : ∀ g, e = .tookOver key g → g ∉ generations key h) : FreshTakeovers key (e :: h) := by
  intro newer older g heq
  cases newer with
  | nil =>
    rw [List.nil_append, List.cons.injEq] at heq
    rw [← heq.2]
    exact he g heq.1
  | cons n newer =>
    rw [List.cons_append, List.cons.injEq] at heq
    exact hh newer older g heq.2

theorem period_ne_of_ended {older : List (Entry J)} : ∀ {newer : List (Entry J)},
    FreshTakeovers key (newer ++ .tookOver key g :: older) → (∃ e ∈ newer, e.endsPeriod key = true) →
      period key (newer ++ .tookOver key g :: older) ≠ some g
  | [], _, ⟨_, he, _⟩ => by cases he
  | e :: newer, hfresh, hends => by
    have hrest : FreshTakeovers key (newer ++ .tookOver key g :: older) := by
      intro n o g' heq
      exact hfresh (e :: n) o g' (by rw [List.cons_append, heq]; rfl)
    have hmem : g ∈ generations key (newer ++ .tookOver key g :: older) :=
      mem_generations_of_tookOver (by simp)
    rw [List.cons_append]
    by_cases hend : e.endsPeriod key = true
    · cases e with
      | tookOver k g' =>
        obtain rfl : k = key := by simpa [Entry.endsPeriod] using hend
        rw [period, if_pos rfl, ne_eq, Option.some.injEq]
        rintro rfl
        exact hfresh [] _ g' rfl hmem
      | assigned k | handedBack k g' previous =>
        obtain rfl : k = key := by simpa [Entry.endsPeriod] using hend
        simp [period]
      | dispatch | notAccepted | released | acted => cases hend
    · have hlater : ∃ e ∈ newer, e.endsPeriod key = true := by
        obtain ⟨e', he', hend'⟩ := hends
        rcases List.mem_cons.1 he' with rfl | he'
        · exact absurd hend' hend
        · exact ⟨e', he', hend'⟩
      have ih := period_ne_of_ended hrest hlater
      cases e with
      | tookOver k g' | assigned k | handedBack k g' previous =>
        have hk : k ≠ key := by simpa [Entry.endsPeriod] using hend
        simpa [period, hk] using ih
      | dispatch | notAccepted | released | acted => exact ih

/-! ## The invariant of a scope -/

/-- The event of the takeover to generation `k` is in the log. -/
def Db.logged (db : Db) (key : String) (k : Nat) : Prop :=
  db.hasHandoff key k (takeoverEvent key k 0).eventId = true

def OwnershipRow.unbound (own : OwnershipRow) : Prop := own.ownerKind = .controller ∧ own.previousAgentId = none

/-- **Where a scope stands.**  Before any handback drops its row, the row has the largest generation, and a controller
without an agent has logged a takeover for each one.  After a drop at the first generation only an agent can start the
scope again; after a later drop the second takeover is logged too, and the scope is stuck. -/
def Db.Stands (db : Db) (key : String) (gens : List Nat) : Option Nat → Option OwnershipRow → Prop
  | none, none => gens = []
  | none, some own => (∀ g ∈ gens, g ≤ own.generation) ∧
      (own.unbound → ∀ k, 1 ≤ k → k ≤ own.generation → db.logged key k)
  | some m, none => db.logged key 1 ∧ ((m = 1 ∧ ∀ g ∈ gens, g ≤ 1) ∨ (2 ≤ m ∧ db.logged key 2))
  | some m, some own => (m = 1 ∧ (∀ g ∈ gens, g ≤ own.generation) ∧ ¬ own.unbound) ∨
      (2 ≤ m ∧ db.logged key 2 ∧ own.generation = 1 ∧ own.ownerKind = .agent)

def actionColumns (e : HandoffEvent) : Option Int × String × String := (e.conversationSeq, e.eventId, e.payloadJson)

def OperatorAction.columns (a : OperatorAction J) : Option Int × String × String :=
  (some a.conversationSeq, a.eventId, a.payloadJson)

def Db.actionsAt (db : Db) (key : String) (g : Nat) : List HandoffEvent :=
  db.handoffEvents.filter (fun e =>
    e.scopeKey == key && e.generation == g && decide (e.eventKind = .operatorAction))

structure ScopeInv (env : Env J) (key : String) (s : System J) : Prop where
  /-- Every event of the scope is logged under a generation it had. -/
  known : ∀ e ∈ s.db.handoffEvents, e.scopeKey = key → e.generation ∈ generations key s.history
  current : ∀ own, s.db.owner key = some own → own.generation ∈ generations key s.history
  pos : ∀ own, s.db.owner key = some own → 1 ≤ own.generation
  agent : ∀ own, s.db.owner key = some own → own.ownerKind = .agent → own.agentId ≠ none
  stands : s.db.Stands key (generations key s.history) (dropped key s.history) (s.db.owner key)
  /-- A controller is in charge exactly in the control period of its generation. -/
  charge : ∀ own, s.db.owner key = some own → own.ownerKind = .controller →
    period key s.history = some own.generation
  actions : ∀ own, s.db.owner key = some own → own.ownerKind = .controller →
    (s.db.actionsAt key own.generation).map actionColumns = (periodActions key s.history).map OperatorAction.columns
  fresh : FreshTakeovers key s.history
  encoded : ∀ act ∈ periodActions key s.history, env.json.toString act.payload = .ok act.payloadJson

variable {extra : List HandoffEvent} {db db' : Db}

theorem logged_mono (h : db'.handoffEvents = db.handoffEvents ++ extra) {k : Nat} (hk : db.logged key k) :
    db'.logged key k := by
  unfold Db.logged Db.hasHandoff at hk ⊢
  rw [h, List.any_append, hk, Bool.true_or]

theorem Db.Stands.mono (hlog : ∀ k, db.logged key k → db'.logged key k) {gens : List Nat} :
    ∀ {d : Option Nat} {o : Option OwnershipRow}, db.Stands key gens d o → db'.Stands key gens d o
  | none, none, h => h
  | none, some _, h => ⟨h.1, fun hu k h1 hk => hlog k (h.2 hu k h1 hk)⟩
  | some _, none, h => ⟨hlog 1 h.1, h.2.imp_right (fun h => ⟨h.1, hlog 2 h.2⟩)⟩
  | some _, some _, h => h.imp_right (fun h => ⟨h.1, hlog 2 h.2.1, h.2.2⟩)

theorem actionsAt_append (h : db'.handoffEvents = db.handoffEvents ++ extra)
    (hextra : ∀ e ∈ extra, e.scopeKey = key → e.generation = g → e.eventKind ≠ .operatorAction) :
    db'.actionsAt key g = db.actionsAt key g := by
  have hnil : extra.filter (fun e =>
      e.scopeKey == key && e.generation == g && decide (e.eventKind = .operatorAction)) = [] := by
    rw [List.filter_eq_nil_iff]
    intro e he hcon
    simp only [Bool.and_eq_true, beq_iff_eq, decide_eq_true_eq] at hcon
    exact hextra e he hcon.1.1 hcon.1.2 hcon.2
  unfold Db.actionsAt
  rw [h, List.filter_append, hnil, List.append_nil]

theorem ScopeInv.frame (hi : ScopeInv env key s) (hown : s'.db.owner key = s.db.owner key)
    (hev : s'.db.handoffEvents = s.db.handoffEvents ++ extra) (hextra : ∀ e ∈ extra, e.scopeKey ≠ key)
    (hpast : SamePast key s.history s'.history) (hfresh : FreshTakeovers key s'.history) : ScopeInv env key s' := by
  constructor
  · intro e he hkey
    rw [hev] at he
    rw [hpast.generations]
    rcases List.mem_append.1 he with he | he
    · exact hi.known e he hkey
    · exact absurd hkey (hextra e he)
  · rw [hown, hpast.generations]
    exact hi.current
  · rw [hown]
    exact hi.pos
  · rw [hown]
    exact hi.agent
  · rw [hown, hpast.generations, hpast.dropped]
    exact hi.stands.mono (fun k hk => logged_mono hev hk)
  · rw [hown, hpast.period]
    exact hi.charge
  · rw [hown, hpast.actions]
    intro own ho hc
    rw [actionsAt_append hev (fun e he hkey => absurd hkey (hextra e he))]
    exact hi.actions own ho hc
  · exact hfresh
  · rw [hpast.actions]
    exact hi.encoded

/-! ## The steps of a scope -/

/-- **A takeover is refused exactly when** a handback dropped the scope's row, and the row is still missing or was past
its first generation. -/
def takeoverBlocked (key : String) (s : System J) : Bool :=
  match dropped key s.history with
  | none => false
  | some m => (s.db.owner key).isNone || decide (2 ≤ m)

theorem not_logged_of_fresh (hi : ScopeInv env key s) (hg : g ∉ generations key s.history) (id : String) :
    s.db.hasHandoff key g id = false := by
  unfold Db.hasHandoff
  rw [List.any_eq_false]
  intro e he hcon
  simp only [Bool.and_eq_true, beq_iff_eq] at hcon
  exact hg (hcon.1.2 ▸ hi.known e he hcon.1.1)

theorem takeoverLogged_iff (hi : ScopeInv env key s) : s.db.takeoverLogged key = takeoverBlocked key s := by
  have hst := hi.stands
  unfold Db.takeoverLogged takeoverBlocked Db.nextGeneration
  have hnew : ∀ own : OwnershipRow, (∀ g ∈ generations key s.history, g ≤ own.generation) →
      own.generation + 1 ∉ generations key s.history := fun own hle hmem => by
    have := hle _ hmem
    omega
  cases hd : dropped key s.history with
  | none =>
    cases hown : s.db.owner key with
    | none =>
      rw [hd, hown] at hst
      have hnil : generations key s.history = [] := hst
      exact not_logged_of_fresh hi (by simp [hnil]) _
    | some own =>
      rw [hd, hown] at hst
      exact not_logged_of_fresh hi (hnew own hst.1) _
  | some m =>
    cases hown : s.db.owner key with
    | none =>
      rw [hd, hown] at hst
      exact hst.1
    | some own =>
      rw [hd, hown] at hst
      rcases hst with ⟨rfl, hle, -⟩ | ⟨hm, hlog, hgen, -⟩
      · exact not_logged_of_fresh hi (hnew own hle) _
      · simp only [Option.map_some, Option.getD_some, hgen, Option.isNone_some, Bool.false_or, decide_eq_true hm]
        exact hlog

theorem next_fresh (hi : ScopeInv env key s) (hfresh : s.db.takeoverLogged key = false) :
    ∀ g ∈ generations key s.history, g < s.db.nextGeneration key := by
  have hst := hi.stands
  rw [takeoverLogged_iff hi] at hfresh
  unfold takeoverBlocked at hfresh
  unfold Db.nextGeneration
  intro g hg
  cases hd : dropped key s.history with
  | none =>
    cases hown : s.db.owner key with
    | none =>
      rw [hd, hown] at hst
      have hnil : generations key s.history = [] := hst
      rw [hnil] at hg
      cases hg
    | some own =>
      rw [hd, hown] at hst
      exact Nat.lt_succ_of_le (hst.1 g hg)
  | some m =>
    cases hown : s.db.owner key with
    | none => simp [hd, hown] at hfresh
    | some own =>
      rw [hd, hown] at hst
      rcases hst with ⟨rfl, hle, -⟩ | ⟨hm, -⟩
      · exact Nat.lt_succ_of_le (hle g hg)
      · simp [hd, hm] at hfresh

variable {own : OwnershipRow}

theorem controller_stands (hi : ScopeInv env key s) (hown : s.db.owner key = some own)
    (hcon : own.ownerKind = .controller) : (∀ g ∈ generations key s.history, g ≤ own.generation) ∧
      (dropped key s.history = none ∨ (dropped key s.history = some 1 ∧ own.previousAgentId ≠ none)) := by
  have hst := hi.stands
  rw [hown] at hst
  cases hd : dropped key s.history with
  | none =>
    rw [hd] at hst
    exact ⟨hst.1, .inl rfl⟩
  | some m =>
    rw [hd] at hst
    rcases hst with ⟨rfl, hle, hub⟩ | ⟨-, -, -, hagent⟩
    · exact ⟨hle, .inr ⟨rfl, fun hp => hub ⟨hcon, hp⟩⟩⟩
    · rw [hcon] at hagent
      cases hagent

theorem ScopeInv.assigned (hi : ScopeInv env key s) {conversationId agentId : String} (hfree : s.db.owner key = none)
    (hdb : s'.db = { s.db with ownership := s.db.ownership ++ [agentRow key conversationId agentId s.clock] })
    (hhist : s'.history = .assigned key :: s.history) : ScopeInv env key s' := by
  have hown : s'.db.owner key = some (agentRow key conversationId agentId s.clock) := by
    rw [hdb]
    exact owner_append_self hfree rfl
  have hgens : generations key s'.history = 1 :: generations key s.history := by
    rw [hhist]
    simp [generations]
  have hev : s'.db.handoffEvents = s.db.handoffEvents := by rw [hdb]
  have hlog : ∀ k, s.db.logged key k → s'.db.logged key k := fun k hk =>
    logged_mono (by rw [hev, List.append_nil]) hk
  constructor
  · intro e he hkey
    rw [hev] at he
    rw [hgens]
    exact List.mem_cons_of_mem 1 (hi.known e he hkey)
  · intro own ho
    rw [hown] at ho
    cases ho
    rw [hgens]
    exact List.mem_cons_self
  · intro own ho
    rw [hown] at ho
    cases ho
    exact le_refl 1
  · intro own ho _
    rw [hown] at ho
    cases ho
    exact Option.some_ne_none agentId
  · have hst := hi.stands
    have hdrop : dropped key s'.history = dropped key s.history := by rw [hhist]; rfl
    have hagent : ¬ (agentRow key conversationId agentId s.clock).unbound := fun hu => by cases hu.1
    rw [hfree] at hst
    rw [hown, hgens, hdrop]
    cases hd : dropped key s.history with
    | none =>
      rw [hd] at hst
      have hnil : generations key s.history = [] := hst
      refine ⟨fun g hg => ?_, fun hu => absurd hu hagent⟩
      rw [hnil] at hg
      exact le_of_eq (List.mem_singleton.1 hg)
    | some m =>
      rw [hd] at hst
      rcases hst with ⟨-, ⟨rfl, hle⟩ | ⟨hm, hlog2⟩⟩
      · refine .inl ⟨rfl, fun g hg => ?_, hagent⟩
        rcases List.mem_cons.1 hg with rfl | hg
        · exact le_refl _
        · exact hle g hg
      · exact .inr ⟨hm, hlog 2 hlog2, rfl, rfl⟩
  · intro own ho hc
    rw [hown] at ho
    cases ho
    cases hc
  · intro own ho hc
    rw [hown] at ho
    cases ho
    cases hc
  · rw [hhist]
    exact freshTakeovers_cons hi.fresh (fun g hg => by cases hg)
  · rw [hhist]
    exact hi.encoded

variable {conversationId : String}

theorem unbound_before {now : Int} (hu : (controllerRow key conversationId now (some own)).unbound)
    (hagent : own.ownerKind = .agent → own.agentId ≠ none) : own.unbound := by
  have hprev : (own.agentId <|> own.previousAgentId) = none := hu.2
  cases hid : own.agentId with
  | some agentId => simp [hid] at hprev
  | none =>
    refine ⟨?_, by simpa [hid] using hprev⟩
    cases hkind : own.ownerKind with
    | controller => rfl
    | agent => exact absurd hid (hagent hkind)

theorem ScopeInv.tookOver (hi : ScopeInv env key s) (hfresh : s.db.takeoverLogged key = false)
    (hands : s.db.Hands key (some (controllerRow key conversationId s.clock (s.db.owner key)))
    (takeoverEvent key (s.db.nextGeneration key) s.clock) s'.db)
    (hhist : s'.history = .tookOver key (s.db.nextGeneration key) :: s.history) : ScopeInv env key s' := by
  have hlt := next_fresh hi hfresh
  have hgens : generations key s'.history = s.db.nextGeneration key :: generations key s.history := by
    rw [hhist]
    simp [generations]
  have hgen := generation_controllerRow key conversationId s.clock s.db
  have hlog : ∀ k, s.db.logged key k → s'.db.logged key k := fun k hk => logged_mono hands.handoffs hk
  have hnext : s'.db.logged key (s.db.nextGeneration key) := by
    unfold Db.logged Db.hasHandoff
    rw [hands.handoffs]
    simp [takeoverEvent]
  have hcon : (controllerRow key conversationId s.clock (s.db.owner key)).ownerKind = .controller := by
    cases s.db.owner key <;> rfl
  constructor
  · intro e he hkey
    rw [hands.handoffs] at he
    rw [hgens]
    rcases List.mem_append.1 he with he | he
    · exact List.mem_cons_of_mem _ (hi.known e he hkey)
    · rw [List.mem_singleton.1 he]
      exact List.mem_cons_self
  · intro own ho
    rw [hands.owner] at ho
    cases ho
    rw [hgens, hgen]
    exact List.mem_cons_self
  · intro own ho
    rw [hands.owner] at ho
    cases ho
    rw [hgen]
    exact Nat.succ_le_succ (Nat.zero_le _)
  · intro own ho hc
    rw [hands.owner] at ho
    cases ho
    rw [hcon] at hc
    cases hc
  · have hst := hi.stands
    have hdrop : dropped key s'.history = dropped key s.history := by rw [hhist]; rfl
    have hle : ∀ g ∈ generations key s'.history,
        g ≤ (controllerRow key conversationId s.clock (s.db.owner key)).generation := by
      intro g hg
      rw [hgens] at hg
      rw [hgen]
      rcases List.mem_cons.1 hg with rfl | hg
      · exact le_refl _
      · exact Nat.le_of_lt (hlt g hg)
    rw [hands.owner, hdrop]
    rw [takeoverLogged_iff hi] at hfresh
    unfold takeoverBlocked at hfresh
    cases hd : dropped key s.history with
    | none =>
      refine ⟨hle, fun hu k h1 hk => ?_⟩
      rw [hgen] at hk
      rcases Nat.lt_or_eq_of_le hk with hk | rfl
      · -- an unbound controller took over from an unbound controller, or from nobody
        rw [hd] at hst
        cases hown : s.db.owner key with
        | none =>
          simp only [Db.nextGeneration, hown, Option.map_none, Option.getD_none] at hk
          omega
        | some own =>
          rw [hown] at hst hu
          simp only [Db.nextGeneration, hown, Option.map_some, Option.getD_some] at hk
          exact hlog k (hst.2 (unbound_before hu (hi.agent own hown)) k h1 (Nat.lt_succ_iff.1 hk))
      · exact hnext
    | some m =>
      cases hown : s.db.owner key with
      | none => simp [hd, hown] at hfresh
      | some own =>
        rw [hd, hown] at hst
        rw [hown] at hle
        rcases hst with ⟨rfl, -, hub⟩ | ⟨hm, -⟩
        · exact .inl ⟨rfl, hle, fun hu => hub (unbound_before hu (hi.agent own hown))⟩
        · simp [hd, hm] at hfresh
  · intro own ho _
    rw [hands.owner] at ho
    cases ho
    rw [hhist, hgen]
    simp [period]
  · intro own ho _
    rw [hands.owner] at ho
    cases ho
    have hnil : s.db.actionsAt key (s.db.nextGeneration key) = [] := by
      unfold Db.actionsAt
      rw [List.filter_eq_nil_iff]
      intro e he hcond
      simp only [Bool.and_eq_true, beq_iff_eq, decide_eq_true_eq] at hcond
      have := hlt _ (hi.known e he hcond.1.1)
      omega
    rw [hgen, actionsAt_append hands.handoffs (by simp [takeoverEvent]), hnil, hhist]
    simp [periodActions]
  · rw [hhist]
    refine freshTakeovers_cons hi.fresh (fun g hg hmem => ?_)
    cases hg
    exact absurd (hlt _ hmem) (lt_irrefl _)
  · rw [hhist]
    simp [periodActions]

theorem ScopeInv.acted (hi : ScopeInv env key s) {eventId encoded : String} {seq : Int} {payload : J}
    (hjson : env.json.toString payload = .ok encoded) (hown : s.db.owner key = some own)
    (hcon : own.ownerKind = .controller)
    (hdb : s'.db = { s.db with handoffEvents :=
      s.db.handoffEvents ++ [actionEvent key eventId own.generation seq encoded s.clock] })
    (hhist : s'.history = .acted key eventId seq payload encoded :: s.history) : ScopeInv env key s' := by
  have hown' : s'.db.owner key = s.db.owner key := by rw [hdb]; rfl
  have hev : s'.db.handoffEvents =
      s.db.handoffEvents ++ [actionEvent key eventId own.generation seq encoded s.clock] := by rw [hdb]
  have hgens : generations key s'.history = generations key s.history := by rw [hhist]; rfl
  have hacts : periodActions key s'.history = periodActions key s.history ++ [⟨eventId, seq, payload, encoded⟩] := by
    rw [hhist]
    simp [periodActions]
  constructor
  · intro e he hkey
    rw [hev] at he
    rw [hgens]
    rcases List.mem_append.1 he with he | he
    · exact hi.known e he hkey
    · rw [List.mem_singleton.1 he]
      exact hi.current own hown
  · rw [hown', hgens]
    exact hi.current
  · rw [hown']
    exact hi.pos
  · rw [hown']
    exact hi.agent
  · have hdrop : dropped key s'.history = dropped key s.history := by rw [hhist]; rfl
    rw [hown', hgens, hdrop]
    exact hi.stands.mono (fun k hk => logged_mono hev hk)
  · have hper : period key s'.history = period key s.history := by rw [hhist]; rfl
    rw [hown', hper]
    exact hi.charge
  · intro own' ho hc
    rw [hown', hown] at ho
    cases ho
    have hat : s'.db.actionsAt key own.generation =
        s.db.actionsAt key own.generation ++ [actionEvent key eventId own.generation seq encoded s.clock] := by
      unfold Db.actionsAt
      rw [hev, List.filter_append]
      simp [actionEvent]
    rw [hat, hacts, List.map_append, List.map_append, hi.actions own hown hcon]
    rfl
  · rw [hhist]
    exact freshTakeovers_cons hi.fresh (fun g hg => by cases hg)
  · rw [hacts]
    intro act hact
    rcases List.mem_append.1 hact with hact | hact
    · exact hi.encoded act hact
    · rw [List.mem_singleton.1 hact]
      exact hjson

theorem ScopeInv.handedBack (hi : ScopeInv env key s) {payload : String} (hown : s.db.owner key = some own)
    (hcon : own.ownerKind = .controller)
    (hands : s.db.Hands key (own.previousAgentId.map (fun agentId => own.restored agentId s.clock))
      (handbackEvent key own.generation payload s.clock) s'.db)
    (hhist : s'.history = .handedBack key own.generation own.previousAgentId :: s.history) : ScopeInv env key s' := by
  have hlog : ∀ k, s.db.logged key k → s'.db.logged key k := fun k hk => logged_mono hands.handoffs hk
  obtain ⟨hle, hdrop⟩ := controller_stands hi hown hcon
  have hsub : generations key s.history ⊆ generations key s'.history := by
    rw [hhist]
    exact generations_append_subset [_] _
  have hagent : ∀ own', s'.db.owner key = some own' →
      ∃ agentId, own.previousAgentId = some agentId ∧ own' = own.restored agentId s.clock := by
    intro own' ho
    rw [hands.owner, Option.map_eq_some_iff] at ho
    obtain ⟨agentId, hprev, hr⟩ := ho
    exact ⟨agentId, hprev, hr.symm⟩
  constructor
  · intro e he hkey
    rw [hands.handoffs] at he
    apply hsub
    rcases List.mem_append.1 he with he | he
    · exact hi.known e he hkey
    · rw [List.mem_singleton.1 he]
      exact hi.current own hown
  · intro own' ho
    obtain ⟨agentId, hprev, rfl⟩ := hagent own' ho
    rw [hhist, hprev]
    simp [generations, OwnershipRow.restored]
  · intro own' ho
    obtain ⟨agentId, hprev, rfl⟩ := hagent own' ho
    exact Nat.succ_le_succ (Nat.zero_le _)
  · intro own' ho _
    obtain ⟨agentId, hprev, rfl⟩ := hagent own' ho
    exact Option.some_ne_none agentId
  · rw [hands.owner, hhist]
    cases hprev : own.previousAgentId with
    | none =>
      -- the row goes, and with it the generation
      have hnone : dropped key s.history = none := hdrop.resolve_right (fun h => h.2 hprev)
      have hst := hi.stands
      rw [hnone, hown] at hst
      have hlogged := hst.2 ⟨hcon, hprev⟩
      have hg0 : generations key (.handedBack key own.generation none :: s.history) = generations key s.history := rfl
      have hd0 : dropped key (.handedBack key own.generation none :: s.history) = some own.generation := by
        simp [dropped]
      rw [hg0, hd0]
      have hpos := hi.pos own hown
      refine ⟨hlog 1 (hlogged 1 (le_refl 1) hpos), ?_⟩
      rcases Nat.lt_or_eq_of_le hpos with h2 | h1
      · exact .inr ⟨h2, hlog 2 (hlogged 2 (by decide) h2)⟩
      · exact .inl ⟨h1.symm, fun g hg => h1 ▸ hle g hg⟩
    | some agentId =>
      have hg1 : generations key (.handedBack key own.generation (some agentId) :: s.history) =
          (own.generation + 1) :: generations key s.history := by simp [generations]
      have hd1 : dropped key (.handedBack key own.generation (some agentId) :: s.history) =
          dropped key s.history := rfl
      have hle' : ∀ g ∈ (own.generation + 1) :: generations key s.history, g ≤ own.generation + 1 := by
        intro g hg
        rcases List.mem_cons.1 hg with rfl | hg
        · exact le_refl _
        · exact Nat.le_succ_of_le (hle g hg)
      have hub : ¬ (own.restored agentId s.clock).unbound := fun hu => by cases hu.1
      rw [hg1, hd1]
      rcases hdrop with hd | ⟨hd, -⟩
      · rw [hd]
        exact ⟨hle', fun hu => absurd hu hub⟩
      · rw [hd]
        exact .inl ⟨rfl, hle', hub⟩
  · intro own' ho hc
    obtain ⟨agentId, hprev, rfl⟩ := hagent own' ho
    cases hc
  · intro own' ho hc
    obtain ⟨agentId, hprev, rfl⟩ := hagent own' ho
    cases hc
  · rw [hhist]
    exact freshTakeovers_cons hi.fresh (fun g hg => by cases hg)
  · rw [hhist]
    exact hi.encoded

theorem samePast_refl (key : String) (h : List (Entry J)) : SamePast key h h := ⟨rfl, rfl, rfl, rfl⟩

theorem ScopeInv.step (hi : ScopeInv env key s) (hs : s.Coherent env) (h : s.exec env a = some s') :
    ScopeInv env key s' := by
  cases ha : a.scope? env with
  | none =>
    obtain ⟨hown, hev⟩ := (exec_outbox hs h).scopes ha
    have howner : s'.db.owner key = s.db.owner key := by
      unfold Db.owner
      rw [hown]
    have hev' : s'.db.handoffEvents = s.db.handoffEvents ++ [] := by rw [hev, List.append_nil]
    rcases exec_history ha h with heq | ⟨e, heq, he⟩
    · exact hi.frame howner hev' (by simp) (heq ▸ samePast_refl key _) (heq ▸ hi.fresh)
    · have hneutral : e.key? = none := by
        rcases he with ⟨r, id, rfl | rfl⟩ | ⟨id, rfl, -⟩ <;> rfl
      refine hi.frame howner hev' (by simp) ?_ ?_
      · rw [heq]
        exact samePast_cons (by rw [hneutral]; exact Option.some_ne_none key ∘ Eq.symm) _
      · rw [heq]
        exact freshTakeovers_cons hi.fresh (fun g hg => by rw [hg] at hneutral; cases hneutral)
  | some k =>
    have hscope := exec_scope ha h
    by_cases hk : k = key
    · subst hk
      cases hscope with
      | refused => exact hi
      | assigned hfree => exact hi.assigned hfree rfl rfl
      | tookOver hfresh hhands _ => exact hi.tookOver hfresh hhands rfl
      | acted hjson hown hcon => exact hi.acted hjson hown hcon rfl rfl
      | handedBack hown hcon hhands => exact hi.handedBack hown hcon hhands rfl
    · have hne : ∀ {e : Entry J}, e.key? = some k → e.key? ≠ some key := fun he hc =>
        hk (Option.mem_unique he hc)
      have hfresh : ∀ {e : Entry J}, e.key? = some k → FreshTakeovers key (e :: s.history) := fun he =>
        freshTakeovers_cons hi.fresh (fun g hg => by rw [hg] at he; exact absurd (Option.some.inj he).symm hk)
      cases hscope with
      | refused => exact hi
      | assigned hfree =>
        exact hi.frame (owner_append_of_ne (fun h => hk h.symm)) (List.append_nil _).symm (by simp)
          (samePast_cons (hne rfl) _) (hfresh rfl)
      | tookOver _ hhands _ =>
        exact hi.frame (hhands.others key (fun h => hk h.symm)) hhands.handoffs (by simp [takeoverEvent, hk])
          (samePast_cons (hne rfl) _) (hfresh rfl)
      | acted hjson hown hcon =>
        exact hi.frame rfl rfl (by simp [actionEvent, hk]) (samePast_cons (hne rfl) _) (hfresh rfl)
      | handedBack hown hcon hhands =>
        exact hi.frame (hhands.others key (fun h => hk h.symm)) hhands.handoffs (by simp [handbackEvent, hk])
          (samePast_cons (hne rfl) _) (hfresh rfl)

theorem start_scope (h : s.Start) (key : String) : ScopeInv env key s := by
  have hown : s.db.owner key = none := by
    unfold Db.owner
    rw [h.owners]
    rfl
  constructor
  · intro e he
    rw [h.handoffs] at he
    cases he
  · intro own ho
    rw [hown] at ho
    cases ho
  · intro own ho
    rw [hown] at ho
    cases ho
  · intro own ho
    rw [hown] at ho
    cases ho
  · rw [hown, h.history]
    rfl
  · intro own ho
    rw [hown] at ho
    cases ho
  · intro own ho
    rw [hown] at ho
    cases ho
  · rw [h.history]
    intro newer older g heq
    cases newer <;> cases heq
  · rw [h.history]
    intro act hact
    cases hact

def JsonCodec.reread (json : JsonCodec J) (v : J) : J :=
  match json.toString v with
  | .ok text => json.read text
  | .error _ => json.null

def OperatorAction.order (act : OperatorAction J) : Lex (Int × String) := toLex (act.conversationSeq, act.eventId)

/-- **A handback returns the actions of the period it ends**, in order, as their stored text reads back. -/
theorem handback_actions (hi : ScopeInv env key s) {res : Option String × List J} {db' : Db}
    (h : handbackWithContext env.json key g s.clock s.db = (.ok res, db')) :
    res.2 = (Table.orderBy OperatorAction.order (periodActions key s.history)).map
      (fun act => env.json.reread act.payload) := by
  obtain ⟨own, payload, hown, hcon, rfl, rfl, -, -⟩ := handbackWithContext_ok h
  let order : Option Int × String × String → Lex (Int × String) := fun c => toLex (c.1.getD 0, c.2.1)
  have hcols : (s.db.operatorActions key own.generation).map actionColumns =
      (Table.orderBy OperatorAction.order (periodActions key s.history)).map OperatorAction.columns := by
    have hlog : (s.db.operatorActions key own.generation).map actionColumns =
        Table.orderBy order ((s.db.actionsAt key own.generation).map actionColumns) :=
      Table.map_orderBy order actionColumns _
    have hact : (Table.orderBy OperatorAction.order (periodActions key s.history)).map OperatorAction.columns =
        Table.orderBy order ((periodActions key s.history).map OperatorAction.columns) :=
      Table.map_orderBy order OperatorAction.columns _
    rw [hlog, hact, hi.actions own hown hcon]
  calc (s.db.operatorActions key own.generation).map (fun e => env.json.read e.payloadJson)
      = ((s.db.operatorActions key own.generation).map actionColumns).map (fun c => env.json.read c.2.2) := by
        rw [List.map_map]
        rfl
    _ = (Table.orderBy OperatorAction.order (periodActions key s.history)).map
          (fun act => env.json.read act.payloadJson) := by
        rw [hcols, List.map_map]
        rfl
    _ = (Table.orderBy OperatorAction.order (periodActions key s.history)).map
          (fun act => env.json.reread act.payload) := by
        apply List.map_congr_left
        intro act hact
        have henc := hi.encoded act ((Table.mem_orderBy _).1 hact)
        simp [JsonCodec.reread, henc]

theorem history_suffix {m : System J} {as : List (Action J)} (hrun : Run (System.Step env) m as s)
    (hm : m.Coherent env) : ∃ new, s.history = new ++ m.history := by
  have hinv : s.Coherent env ∧ ∃ new, s.history = new ++ m.history := by
    refine run_invariant (P := fun s => s.Coherent env ∧ ∃ new, s.history = new ++ m.history) hrun ⟨hm, [], rfl⟩ ?_
    rintro s a s' ⟨hs, new, hnew⟩ h
    refine ⟨exec_coherent hs h, ?_⟩
    have hstep : ∃ more, s'.history = more ++ s.history := by
      cases ha : a.scope? env with
      | none =>
        rcases exec_history ha h with heq | ⟨e, heq, -⟩
        · exact ⟨[], heq⟩
        · exact ⟨[e], heq⟩
      | some k =>
        cases exec_scope ha h with
        | refused => exact ⟨[], rfl⟩
        | assigned | tookOver | acted | handedBack => exact ⟨[_], rfl⟩
    obtain ⟨more, hmore⟩ := hstep
    exact ⟨more ++ new, by rw [hmore, hnew, List.append_assoc]⟩
  exact hinv.2

/-- **Generations are never reused.**  In every reachable state: a takeover goes through unless a handback dropped the
scope's row and no agent restarted it from the first generation; what it reaches, and what a handback restores, is past
every generation the scope had in an earlier state of the run; a handback for a control period that ended is refused; and
one that goes through returns the operator actions of the period it ends. -/
theorem generations_never_reused {s₀ m : System J} {as bs : List (Action J)} (hstart : s₀.Start)
    (hrun : Run (System.Step env) s₀ as m) (hrun' : Run (System.Step env) m bs s) (key conversationId : String) :
    ((∃ own db', takeover key conversationId s.clock s.db = (.ok own, db')) ↔ takeoverBlocked key s = false) ∧
    (∀ own own' db', m.db.owner key = some own → takeover key conversationId s.clock s.db = (.ok own', db') →
      own.generation < own'.generation) ∧
    (∀ own own' g res db', m.db.owner key = some own →
      handbackWithContext env.json key g s.clock s.db = (.ok res, db') → db'.owner key = some own' →
      own.generation < own'.generation) ∧
    (∀ newer older g, s.history = newer ++ .tookOver key g :: older → (∃ e ∈ newer, e.endsPeriod key = true) →
      handbackWithContext env.json key g s.clock s.db =
        (.error (.invariant "ownership changed before handback"), s.db)) ∧
    (∀ g res db', handbackWithContext env.json key g s.clock s.db = (.ok res, db') →
      res.2 = (Table.orderBy OperatorAction.order (periodActions key s.history)).map
        (fun act => env.json.reread act.payload)) := by
  have hinv : ∀ {s s' : System J} {as : List (Action J)}, Run (System.Step env) s as s' →
      s.Coherent env ∧ ScopeInv env key s → s'.Coherent env ∧ ScopeInv env key s' := fun hrun h =>
    run_invariant (P := fun s => s.Coherent env ∧ ScopeInv env key s) hrun h
      (fun _ _ _ hp h => ⟨exec_coherent hp.1 h, hp.2.step hp.1 h⟩)
  obtain ⟨hcm, him⟩ := hinv hrun ⟨start_coherent hstart, start_scope hstart key⟩
  obtain ⟨-, hi⟩ := hinv hrun' ⟨hcm, him⟩
  -- every generation of the earlier state is one the scope had
  have hheld : ∀ own, m.db.owner key = some own → own.generation ∈ generations key s.history := by
    intro own hown
    obtain ⟨new, hnew⟩ := history_suffix hrun' hcm
    rw [hnew]
    exact generations_append_subset new _ (him.current own hown)
  refine ⟨?_, ?_, ?_, ?_, fun g res db' h => handback_actions hi h⟩
  · rw [← takeoverLogged_iff hi]
    cases hlog : s.db.takeoverLogged key with
    | true => simp [takeover_refused conversationId s.clock hlog]
    | false =>
      obtain ⟨db', hres, -⟩ := takeover_ok conversationId s.clock hlog
      simp [hres]
  · intro own own' db' hown h
    cases hlog : s.db.takeoverLogged key with
    | true =>
      rw [takeover_refused conversationId s.clock hlog] at h
      cases h
    | false =>
      obtain ⟨db₁, hres, -⟩ := takeover_ok conversationId s.clock hlog
      rw [hres] at h
      cases h
      rw [generation_controllerRow]
      exact next_fresh hi hlog _ (hheld own hown)
  · intro own own' g res db' hown h hown'
    obtain ⟨cur, payload, hcur, hcon, -, -, hhands, -⟩ := handbackWithContext_ok h
    rw [hhands.owner, Option.map_eq_some_iff] at hown'
    obtain ⟨agentId, -, rfl⟩ := hown'
    exact Nat.lt_succ_of_le ((controller_stands hi hcur hcon).1 _ (hheld own hown))
  · intro newer older g heq hends
    apply handbackWithContext_refused
    cases hcur : s.db.controller key g with
    | none => rfl
    | some own =>
      obtain ⟨hown, hcon, rfl⟩ := controller_eq_some.1 hcur
      have hper := hi.charge own hown hcon
      rw [heq] at hper
      exact absurd hper (period_ne_of_ended (heq ▸ hi.fresh) hends)

def takenTwice : List (Action String) :=
  [.assignAgent "c1" "signal" "peer" "watcher", .takeover "c1" "signal" "peer",
   .recordOperatorAction "c1" "signal" "peer" "event-1" 3 "1", .takeover "c1" "signal" "peer",
   .recordOperatorAction "c1" "signal" "peer" "event-2" 5 "2"]

theorem generations_never_reused_twice : ∃ m s own own' db', Run (System.Step sampleEnv) emptySystem takenTwice m ∧
    Run (System.Step sampleEnv) m [.handback "c1" "signal" "peer" 3] s ∧ m.db.owner "c1/signal/peer" = some own ∧
    takeover "c1/signal/peer" "c1" s.clock s.db = (.ok own', db') ∧ own.generation < own'.generation := by
  have hobs : (emptySystem.execAll sampleEnv (fun _ _ => true) takenTwice).map (fun m =>
      ((m.db.owner "c1/signal/peer").isSome,
        (m.execAll sampleEnv (fun _ _ => true) [.handback "c1" "signal" "peer" 3]).map
          (takeoverBlocked "c1/signal/peer"))) = some (true, some false) := by decide +kernel
  obtain ⟨m, hm, hobs⟩ := Option.map_eq_some_iff.1 hobs
  rw [Prod.mk.injEq] at hobs
  obtain ⟨own, hown⟩ := Option.isSome_iff_exists.1 hobs.1
  obtain ⟨s, hs, hfree⟩ := Option.map_eq_some_iff.1 hobs.2
  have hrun := run_mono (fun _ _ _ h => h.1) (run_of_execAll hm)
  have hrun' := run_mono (fun _ _ _ h => h.1) (run_of_execAll hs)
  have hall := generations_never_reused emptySystem_start hrun hrun' "c1/signal/peer" "c1"
  obtain ⟨own', db', hres⟩ := hall.1.2 hfree
  exact ⟨m, s, own, own', db', hrun, hrun', hown, hres, hall.2.1 own own' db' hown hres⟩

/-- **A scope nobody owned, taken over and handed back, cannot be taken over again.** -/
theorem takeover_unavailable : ∃ s, Run (System.Step sampleEnv) emptySystem
      [.takeover "c1" "signal" "peer", .handback "c1" "signal" "peer" 1] s ∧
    takeover "c1/signal/peer" "c1" s.clock s.db = (.error handoffUnique, s.db) := by
  have hobs : (emptySystem.execAll sampleEnv (fun _ _ => true)
      [.takeover "c1" "signal" "peer", .handback "c1" "signal" "peer" 1]).map
        (fun s => s.db.takeoverLogged "c1/signal/peer") = some true := by decide +kernel
  obtain ⟨s, hs, hlog⟩ := Option.map_eq_some_iff.1 hobs
  exact ⟨s, run_mono (fun _ _ _ h => h.1) (run_of_execAll hs), takeover_refused "c1" s.clock hlog⟩

end Execlaw
