import Execlaw.RoutineTickEnds
import Mathlib.Data.List.Induction
/-!
# RoutineSessions — no occurrence is lost

A session is a list of ticks, each of which may end in a crash and a restart.  Between two ticks every scheduled
occurrence before the routine's next run has its run, where the ticks are of the kind that loses nothing.
-/
namespace Execlaw

open Table RoutineStore Interleave

namespace Ticks

open Tick

/-! ## One tick of a session -/

section Exec

variable {cal : Calendar} {ids : RunIds} {e : TickEvent cal} {t : RoutineTables} {r₀ : RoutineRow} {i : String}

variable (ids i) in
theorem reset_at (t : RoutineTables) (d : Int) : at_ ids i (resetPendingRunClaims t) d = at_ ids i t d ∨
    ∃ q, at_ ids i t d = some q ∧ q.status = .pending ∧
      at_ ids i (resetPendingRunClaims t) d = some { q with startedAt := none } := by
  rcases t.runs.row_updateAll_cases resetChange (ids.id i d) with heq | ⟨q, hq, hactive, hset⟩
  · exact .inl heq
  · exact .inr ⟨q, hq, (RoutineSystem.active_iff.1 hactive).1, hset⟩

theorem reset_idle (t : RoutineTables) : Idle ids i (resetPendingRunClaims t) := by
  intro d q hq
  obtain ⟨q₀, -, rfl⟩ := Option.map_eq_some_iff.1 ((t.runs.row_updateAll resetChange (ids.id i d)).symm.trans hq)
  unfold Change.apply
  split
  · simp [RoutineRunRow.active, resetChange]
  · next hactive => exact Bool.eq_false_iff.2 hactive

theorem Mid.reset {env : TickEnv} {t₀ : RoutineTables} (h : Mid env t₀ r₀ t) :
    Mid env t₀ r₀ (resetPendingRunClaims t) := by
  have hsome : ∀ d, (at_ env.ids r₀.id t d).isSome = true →
      (at_ env.ids r₀.id (resetPendingRunClaims t) d).isSome = true := by
    intro d hd
    rcases reset_at env.ids r₀.id t d with heq | ⟨q, -, -, heq⟩
    · rwa [heq]
    · rw [heq]
      rfl
  refine ⟨h.named.updateAll _ fun _ => rfl, h.present, ?_, fun d => ?_⟩
  · obtain ⟨r, hr, hsame, hnext | ⟨hnext, hbusy, hwindow⟩⟩ := h.row
    · exact ⟨r, hr, hsame, .inl hnext⟩
    · refine ⟨r, hr, hsame, .inr ⟨hnext, hbusy.imp_left fun ⟨d, hd⟩ => ⟨d, hsome d hd⟩, fun hpolicy c hc => ?_⟩⟩
      obtain ⟨q, hq, hstatus⟩ := hwindow hpolicy c hc
      rcases reset_at env.ids r₀.id t c with heq | ⟨q', hq', hpending, -⟩
      · exact ⟨q, heq.trans hq, hstatus⟩
      · exact absurd hpending (Option.mem_unique hq hq' ▸ hstatus)
  · rcases reset_at env.ids r₀.id t d with heq | ⟨q, hq, hpending, heq⟩
    · rw [heq]
      exact h.cells d
    · rw [heq]
      refine (hq ▸ h.cells d).change hpending (fun h => ?_) fun h _ => ?_
      · cases hpending.symm.trans h
      · rcases h with h | h <;> cases hpending.symm.trans h

theorem aside_reset (hn : Named ids t) (hsettled : Settled ids i t) : Aside ids i t (resetPendingRunClaims t) := by
  refine ⟨hn.updateAll _ fun _ => rfl, fun _ => rfl, rfl, fun d => ?_⟩
  rcases reset_at ids i t d with heq | ⟨q, hq, hpending, -⟩
  · exact heq
  · exact absurd hpending (hsettled d q hq)

theorem Ended.aside {env : TickEnv} {t₀ t' : RoutineTables} (h : Ended env t₀ r₀ t)
    (haside : Aside env.ids r₀.id t t') : Ended env t₀ r₀ t' := by
  cases h with
  | recovered hpending hmoved => exact .recovered hpending (hmoved.aside haside)
  | planned h₀ hdue hmoved hdone =>
    exact .planned h₀ hdue (hmoved.aside haside) fun d hd => by rw [haside.runs]; exact hdone d hd
  | waiting h₀ hdue hrow => exact .waiting h₀ hdue (haside.row.trans hrow)

theorem Ended.later {env : TickEnv} {t₀ : RoutineTables} (h : Ended env t₀ r₀ t) {r : RoutineRow} {n : Int}
    (hr : t.routines.row r₀.id = some r) (hn : r.nextRunAt = some n) : env.now < n := by
  have hmoved : Moved env r₀ t → env.now < n := by
    rintro ⟨r', hr', hnext⟩
    rw [← Option.mem_unique hr hr', hn] at hnext
    exact increasing_nextFire env.cal r₀ env.now n hnext.symm
  cases h with
  | recovered _ h | planned _ _ h => exact hmoved h
  | waiting _ hdue hrow => exact hdue n (Option.mem_unique hr hrow ▸ hn)

/-- **One event**: what it left holds, and a finished tick came to one of its ends. -/
structure Ticked (ids : RunIds) (t : RoutineTables) (r₀ : RoutineRow) (e : TickEvent cal) : Prop where
  cut : Mid (env ids e) t r₀ (left ids t e).2
  mid : Mid (env ids e) t r₀ (exec ids t e).2
  idle : Idle ids r₀.id (exec ids t e).2
  ended : (exec ids t e).1 = true → Settled ids r₀.id (exec ids t e).2 ∧ Ended (env ids e) t r₀ (exec ids t e).2

theorem left_of_holds {I : RoutineTables → Prop} {Q : RoutineTables → Prop}
    (h : (tickOnceAt (env ids e)).Holds I (fun _ => Q) t) (hI : I t) (hQ : ∀ t, Q t → I t) :
    I (left ids t e).2 ∧ ((left ids t e).1 = true → Q (left ids t e).2) := by
  unfold left
  split
  · exact ⟨hQ _ h.alone, fun _ => h.alone⟩
  · next steps _ =>
    obtain ⟨hleft, hdone⟩ := Prog.Holds.cut steps hI h
    refine ⟨hleft, fun hsome => ?_⟩
    obtain ⟨a, ha⟩ := Option.isSome_iff_exists.1 hsome
    exact hdone a ha

theorem ticked (hn : Named ids t) (hidle : Idle ids r₀.id t) (hrow : t.routines.row r₀.id = some r₀)
    (henabled : r₀.enabled = true) (hparses : r₀.parses cal = true)
    (hfew : t.runs.rows.countP (fun q => q.status == .pending) ≤ 500)
    (hpending : r₀.missedRunPolicy = .coalesce →
      ∀ d q, at_ ids r₀.id t d = some q → q.status = .pending → r₀.nextRunAt = some d) : Ticked ids t r₀ e := by
  have htick := own_tickOnceAt (env ids e) hn hidle hrow henabled hparses e.valid hfew hpending
  obtain ⟨hmid, hended⟩ := left_of_holds htick (mid_self hn hrow) fun _ h => h.1
  cases hcrash : e.crash with
  | none =>
    have hexec : exec ids t e = left ids t e := by simp [exec, hcrash]
    have hdone : (left ids t e).1 = true := by simp [left, hcrash]
    obtain ⟨-, hsettled, hend⟩ := hended hdone
    constructor
    · exact hmid
    · rwa [hexec]
    · rw [hexec]
      exact hsettled.idle
    · rw [hexec]
      exact fun _ => ⟨hsettled, hend⟩
  | some steps =>
    have hexec : exec ids t e = ((left ids t e).1, resetPendingRunClaims (left ids t e).2) := by simp [exec, hcrash]
    constructor
    · exact hmid
    · rw [hexec]
      exact hmid.reset
    · rw [hexec]
      exact reset_idle _
    · rw [hexec]
      intro hdone
      obtain ⟨-, hsettled, hend⟩ := hended hdone
      have haside := aside_reset hmid.named hsettled
      exact ⟨hsettled.aside haside, hend.aside haside⟩

end Exec

/-! ## Between two ticks -/

section Session

variable {cal : Calendar} {ids : RunIds} {r r₀ : RoutineRow} {first : Int} {pre : List (TickEvent cal)}
  {e : TickEvent cal} {t : RoutineTables} {d : Int} {ds : List Int} {tip : Option Int}

def Reached (events : List (TickEvent cal)) (d : Int) : Prop := ∃ e ∈ events, d ≤ e.now

/-- **Between two ticks**: the schedule went from `first` to the next run, and left a run at each of its instants; a
coalesced window has no run beyond it, and a pending one only there. -/
structure Sound (ids : RunIds) (r : RoutineRow) (first : Int) (pre : List (TickEvent cal)) (r₀ : RoutineRow)
    (t : RoutineTables) : Prop where
  named : Named ids t
  idle : Idle ids r.id t
  row : t.routines.row r.id = some r₀
  same : SameDefinition r r₀
  chain : ∃ ds, Recurrence.Follows (r.nextFire cal) (some first) ds r₀.nextRunAt ∧ ∀ d ∈ ds, Reached pre d ∧
    (r.missedRunPolicy ≠ .coalesce → (at_ ids r.id t d).isSome = true)
  window : r.missedRunPolicy = .coalesce → ∀ d q, at_ ids r.id t d = some q → q.status ≠ .skipped ∧
    (q.status = .pending → r₀.nextRunAt = some d) ∧ ∀ c, r₀.nextRunAt = some c → d ≤ c
  runs : ∀ d q, at_ ids r.id t d = some q → Scheduled cal r first d ∧ Reached pre d

theorem sound_start {routines : Keyed RoutineRow.id RoutineRow.Ok} (hrow : routines.row r.id = some r)
    (hnext : r.nextRunAt = some first) : Sound ids r first ([] : List (TickEvent cal)) r ⟨routines, .empty⟩ := by
  constructor
  · intro k q hq
    cases hq
  · intro d q hq
    cases hq
  · exact hrow
  · exact .refl r
  · exact ⟨[], hnext ▸ .nil _, List.forall_mem_nil _⟩
  · intro _ d q hq
    cases hq
  · intro d q hq
    cases hq

section Step

variable (hcal : cal.Cron) (hfirst : cal.valid first = true) (hparses : r.parses cal = true)
  (h : Sound ids r first pre r₀ t)
include hfirst h

theorem Sound.valid (hcal : cal.Cron) (c : Int) (hc : r₀.nextRunAt = some c) : cal.valid c = true := by
  obtain ⟨ds₀, hds₀, -⟩ := h.chain
  exact valid_of_instant hcal hfirst ⟨ds₀, hc ▸ hds₀⟩

include hcal hparses

theorem Sound.mem_due (hds : Recurrence.Follows (r.nextFire cal) r₀.nextRunAt ds tip) (hle : ∀ d ∈ ds, d ≤ e.now)
    (htip : ∀ t, tip = some t → e.now < t)
    (hplan : d ∈ (r₀.plan cal e.now).execute ∨ d ∈ (r₀.plan cal e.now).skip) : d ∈ ds := by
  refine mem_dueOccurrences hcal (h.same.parses.trans hparses) (h.valid hfirst hcal) ?_ hle htip (mem_of_plan _ _ hplan).1
  rw [h.same.nextFire]
  exact hds

theorem Sound.plan_coalesce (hpolicy : r.missedRunPolicy = .coalesce)
    (hplan : d ∈ (r₀.plan cal e.now).execute ∨ d ∈ (r₀.plan cal e.now).skip) :
    r₀.nextRunAt = some d ∧ d ∉ (r₀.plan cal e.now).skip := by
  obtain ⟨ds, tip, hds, hle, htip⟩ := Recurrence.exists_due (increasing_nextFire cal r) e.now r₀.nextRunAt
  have hmem := h.mem_due hcal hfirst hparses hds hle htip hplan
  obtain ⟨c, hc, hcd⟩ := hds.le_of_mem (increasing_nextFire cal r) hmem
  have hpolicy₀ := h.same.missedRunPolicy.trans hpolicy
  have hdue : c ≤ e.now := hcd.trans (hle d hmem)
  rw [RoutineRow.plan, dueOccurrences_of_coalesce hpolicy₀ hc hdue, hpolicy₀, Ticks.plan_coalesce _ hdue] at hplan ⊢
  obtain rfl := List.mem_singleton.1 (hplan.resolve_right List.not_mem_nil)
  exact ⟨hc, List.not_mem_nil⟩

variable (hticked : Ticked ids t r₀ e)
include hticked

omit hcal hfirst hparses in
theorem Sound.cells (d : Int) : Cell (env ids e) r₀ d (at_ ids r.id t d) (at_ ids r.id (exec ids t e).2 d) := by
  have hcell := hticked.mid.cells d
  rw [h.same.id] at hcell
  exact hcell

omit hcal hfirst hparses in
theorem Sound.stays (hd : (at_ ids r.id t d).isSome = true) : (at_ ids r.id (exec ids t e).2 d).isSome = true := by
  rw [← h.same.id] at hd ⊢
  exact hticked.mid.isSome hd

variable {q : RoutineRunRow}

theorem Sound.scheduled (hpast : ∀ e' ∈ pre, e'.now ≤ e.now) (hq : at_ ids r.id (exec ids t e).2 d = some q) :
    Scheduled cal r first d ∧ d ≤ e.now := by
  have hold : ∀ q, at_ ids r.id t d = some q → Scheduled cal r first d ∧ d ≤ e.now := by
    intro q hq
    obtain ⟨hscheduled, e', he', hle⟩ := h.runs d q hq
    exact ⟨hscheduled, hle.trans (hpast e' he')⟩
  have hcell := h.cells hticked d
  rw [hq] at hcell
  generalize hq₀ : at_ ids r.id t d = q₀ at hcell
  cases hcell with
  | same | fired => exact hold _ hq₀
  | made hplan =>
    obtain ⟨ds, tip, hds, hle, htip⟩ := Recurrence.exists_due (increasing_nextFire cal r) e.now r₀.nextRunAt
    have hmem := h.mem_due hcal hfirst hparses hds hle htip hplan
    obtain ⟨ds₀, hds₀, -⟩ := h.chain
    exact ⟨Recurrence.Instant.of_mem (hds₀.trans hds) (List.mem_append_right _ hmem), hle d hmem⟩

theorem Sound.coalesced (hpolicy : r.missedRunPolicy = .coalesce) (hq : at_ ids r.id (exec ids t e).2 d = some q) :
    q.status ≠ .skipped ∧
      (q.status = .pending → r₀.nextRunAt = some d) ∧ ∀ c, r₀.nextRunAt = some c → d ≤ c := by
  have hcell := h.cells hticked d
  rw [hq] at hcell
  generalize hq₀ : at_ ids r.id t d = q₀ at hcell
  cases hcell with
  | same => exact h.window hpolicy d q hq₀
  | @fired q' _ hpending hstatus =>
    obtain ⟨-, hnext, hle⟩ := h.window hpolicy d q' hq₀
    exact ⟨hstatus, fun _ => hnext hpending, hle⟩
  | made hplan hskip =>
    obtain ⟨hnext, hnot⟩ := h.plan_coalesce hcal hfirst hparses hpolicy hplan
    exact ⟨fun hstatus => hnot (hskip hstatus), fun _ => hnext,
      fun c hc => (Option.mem_unique hnext hc).le⟩

omit hticked in
theorem Sound.dueOccurrences (hspares : Spares ids r t e) (hpolicy : r.missedRunPolicy ≠ .coalesce)
    (hds : Recurrence.Follows (r.nextFire cal) r₀.nextRunAt ds tip) (hle : ∀ d ∈ ds, d ≤ e.now)
    (htip : ∀ t, tip = some t → e.now < t) {c : Int} (hc : r₀.nextRunAt = some c) :
    r₀.dueOccurrences cal e.now = ds := by
  rw [hc] at hds
  refine dueOccurrences_eq hcal (h.same.parses.trans hparses) (h.same.missedRunPolicy ▸ hpolicy) hc
    (h.valid hfirst hcal c hc) ?_ hle htip (hspares.due hpolicy r₀ c ds tip h.row hc hds hle)
  rwa [h.same.nextFire]

omit hticked in
theorem Sound.not_skip (hspares : Spares ids r t e) (hexecute : d ∈ (r₀.plan cal e.now).execute) :
    d ∉ (r₀.plan cal e.now).skip := by
  by_cases hpolicy : r.missedRunPolicy = .coalesce
  · exact (h.plan_coalesce hcal hfirst hparses hpolicy (.inl hexecute)).2
  · obtain ⟨ds, tip, hds, hle, htip⟩ := Recurrence.exists_due (increasing_nextFire cal r) e.now r₀.nextRunAt
    have hmem := h.mem_due hcal hfirst hparses hds hle htip (.inl hexecute)
    obtain ⟨c, hc, -⟩ := hds.le_of_mem (increasing_nextFire cal r) hmem
    have hnd : (r₀.dueOccurrences cal e.now).Nodup := by
      rw [h.dueOccurrences hcal hfirst hparses hspares hpolicy hds hle htip hc]
      exact (hds.pairwise (increasing_nextFire cal r)).imp ne_of_lt
    exact plan_disjoint hnd _ _ (h.same.missedRunPolicy ▸ hpolicy) hexecute

theorem Sound.covers (hspares : Spares ids r t e) (hpolicy : r.missedRunPolicy ≠ .coalesce)
    (hds : Recurrence.Follows (r.nextFire cal) r₀.nextRunAt ds tip) (hle : ∀ d ∈ ds, d ≤ e.now)
    (htip : ∀ t, tip = some t → e.now < t) {r₁ : RoutineRow} (hr₁ : (exec ids t e).2.routines.row r.id = some r₁)
    (hmoved : r₁.nextRunAt ≠ r₀.nextRunAt) (hd : d ∈ ds) : (at_ ids r.id (exec ids t e).2 d).isSome = true := by
  obtain ⟨c, hc, -⟩ := hds.le_of_mem (increasing_nextFire cal r) hd
  have hscheduled : Scheduled cal r c d := Recurrence.Instant.of_mem (hc ▸ hds) hd
  by_cases hdone : (exec ids t e).1 = true
  · obtain ⟨-, hended⟩ := hticked.ended hdone
    cases hended with
    | recovered hpending _ =>
      obtain ⟨d', q', hq', hstatus⟩ := hpending
      rw [show at_ (env ids e).ids r₀.id t d' = at_ ids r.id t d' from congrArg (at_ ids · t d') h.same.id] at hq'
      obtain ⟨q, hq⟩ := hspares.recovered hpolicy d' q' (h.named.runOf_iff.2 hq') hstatus r₀ c d h.row hc hscheduled (hle d hd)
      exact h.stays hticked (by rw [h.named.runOf_iff.1 hq]; rfl)
    | planned _ _ _ hdone =>
      rw [h.same.id] at hdone
      have hpolicy₀ : r₀.missedRunPolicy ≠ .coalesce := h.same.missedRunPolicy ▸ hpolicy
      refine hdone d ((mem_plan _ _ hpolicy₀).2 ⟨?_, hle d hd⟩)
      show d ∈ r₀.dueOccurrences cal e.now
      rw [h.dueOccurrences hcal hfirst hparses hspares hpolicy hds hle htip hc]
      exact hd
    | waiting _ _ hrow =>
      rw [h.same.id] at hrow
      exact absurd (congrArg RoutineRow.nextRunAt (Option.mem_unique hr₁ hrow)) hmoved
  · have hcut : (left ids t e).1 = false := Bool.eq_false_iff.2 hdone
    have hcrash : e.crash.isSome = true := by
      cases hcrash : e.crash with
      | none => simp [left, hcrash] at hcut
      | some steps => rfl
    have hexec : (exec ids t e).2 = resetPendingRunClaims (left ids t e).2 := by simp [exec, hcrash]
    rw [hexec] at hr₁ ⊢
    obtain ⟨q, hq⟩ := hspares.inserted hcut hpolicy r₀ r₁ c d h.row hc hr₁ (hc ▸ hmoved) hscheduled (hle d hd)
    have hat : at_ ids r.id (left ids t e).2 d = some q := hticked.cut.named.runOf_iff.1 hq
    rcases reset_at ids r.id (left ids t e).2 d with heq | ⟨q', -, -, heq⟩
    · rw [heq, hat]
      rfl
    · rw [heq]
      rfl

omit hcal hfirst hparses in
theorem Sound.unskipped (hspares : Spares ids r t e) (hq : at_ ids r.id (exec ids t e).2 d = some q)
    (hstatus : q.status = .pending) (hnone : ∀ q, ¬ RunOf t r.id d q) {r' : RoutineRow}
    (hr' : t.routines.row r.id = some r') : ¬ Skips cal t r' e.now d := by
  have hcut : (left ids t e).1 = false := by
    refine Bool.eq_false_iff.2 fun hdone => (hticked.ended hdone).1 d q ?_ hstatus
    rw [h.same.id]
    exact hq
  have hcrash : e.crash.isSome = true := by
    cases hcrash : e.crash with
    | none => simp [left, hcrash] at hcut
    | some steps => rfl
  have hexec : (exec ids t e).2 = resetPendingRunClaims (left ids t e).2 := by simp [exec, hcrash]
  rw [hexec] at hq
  obtain ⟨q', hq', hpending⟩ : ∃ q', at_ ids r.id (left ids t e).2 d = some q' ∧ q'.status = .pending := by
    rcases reset_at ids r.id (left ids t e).2 d with heq | ⟨q', hq', hpending, -⟩
    · exact ⟨q, heq.symm.trans hq, hstatus⟩
    · exact ⟨q', hq', hpending⟩
  exact hspares.skipped hcut d q' (hticked.cut.named.runOf_iff.2 hq') hpending hnone r' hr'

omit hcal hfirst hparses in
theorem Sound.executed (hpolicy : r.missedRunPolicy = .coalesce) {c : Int} (hc : r₀.nextRunAt = some c)
    (hdue : c ≤ e.now) (hends : (exec ids t e).1 = true ∨
      ∀ r', (exec ids t e).2.routines.row r.id = some r' → r'.nextRunAt ≠ some c) :
    ∃ q, at_ ids r.id (exec ids t e).2 c = some q ∧ q.status ≠ .pending := by
  have hid := h.same.id
  have hpolicy₀ := h.same.missedRunPolicy.trans hpolicy
  rcases hends with hdone | hmoved
  · obtain ⟨hsettled, hended⟩ := hticked.ended hdone
    rw [hid] at hsettled
    have hsome : (at_ ids r.id (exec ids t e).2 c).isSome = true := by
      cases hended with
      | recovered hpending _ =>
        obtain ⟨d, q, hq, hstatus⟩ := hpending
        rw [hid] at hq
        cases hc.symm.trans ((h.window hpolicy d q hq).2.1 hstatus)
        exact h.stays hticked (by rw [show at_ ids r.id t c = some q from hq]; rfl)
      | planned _ _ _ hall =>
        rw [hid] at hall
        refine hall c (.inl ?_)
        show c ∈ (r₀.plan cal e.now).execute
        rw [RoutineRow.plan, dueOccurrences_of_coalesce hpolicy₀ hc hdue, hpolicy₀, Ticks.plan_coalesce _ hdue]
        exact List.mem_singleton_self c
      | waiting _ hlater _ =>
        have hlt : e.now < c := hlater c hc
        omega
    obtain ⟨q, hq⟩ := Option.isSome_iff_exists.1 hsome
    exact ⟨q, hq, hsettled c q hq⟩
  · obtain ⟨r₁, hr₁, -, hnext⟩ := hticked.mid.row
    rw [hid] at hr₁ hnext
    rcases hnext with hsame | ⟨-, -, hwindow⟩
    · exact absurd (hsame.trans hc) (hmoved r₁ hr₁)
    · exact hwindow hpolicy₀ c hc

omit hcal hfirst hticked in
theorem Sound.ticked (henabled : r.enabled = true) (hspares : Spares ids r t e) : Ticked ids t r₀ e := by
  have hid := h.same.id
  refine Ticks.ticked h.named ?_ ?_ (h.same.enabled.trans henabled) (h.same.parses.trans hparses) hspares.few ?_
  · rw [hid]
    exact h.idle
  · rw [hid]
    exact h.row
  · rw [hid, h.same.missedRunPolicy]
    exact fun hpolicy d q hq hstatus => (h.window hpolicy d q hq).2.1 hstatus

theorem Sound.step (hpast : ∀ e' ∈ pre, e'.now ≤ e.now) (hspares : Spares ids r t e) :
    ∃ r₁, Sound ids r first (pre ++ [e]) r₁ (exec ids t e).2 := by
  obtain ⟨r₁, hr₁, hsame₁, hnext⟩ := hticked.mid.row
  rw [h.same.id] at hr₁ hnext
  obtain ⟨ds₀, hds₀, hcovered⟩ := h.chain
  have hmono : ∀ d, Reached pre d → Reached (pre ++ [e]) d := fun d ⟨e', he', hle⟩ =>
    ⟨e', List.mem_append_left _ he', hle⟩
  have hnow : ∀ d, d ≤ e.now → Reached (pre ++ [e]) d := fun d hd => ⟨e, by simp, hd⟩
  have hidle : Idle ids r.id (exec ids t e).2 := h.same.id ▸ hticked.idle
  have hruns : ∀ d q, at_ ids r.id (exec ids t e).2 d = some q → Scheduled cal r first d ∧ Reached (pre ++ [e]) d := by
    intro d q hq
    obtain ⟨hscheduled, hle⟩ := h.scheduled hcal hfirst hparses hticked hpast hq
    exact ⟨hscheduled, hnow d hle⟩
  by_cases hsame : r₁.nextRunAt = r₀.nextRunAt
  · refine ⟨r₁, hticked.mid.named, hidle, hr₁, h.same.trans hsame₁, ⟨ds₀, hsame ▸ hds₀, fun d hd => ?_⟩,
      fun hpolicy d q hq => ?_, hruns⟩
    · exact ⟨hmono d (hcovered d hd).1, fun hpolicy => h.stays hticked ((hcovered d hd).2 hpolicy)⟩
    · rw [hsame]
      exact h.coalesced hcal hfirst hparses hticked hpolicy hq
  · obtain ⟨htarget, hbusy, hwindow⟩ := hnext.resolve_left hsame
    obtain ⟨ds, tip, hds, hle, htip⟩ := Recurrence.exists_due (increasing_nextFire cal r) e.now r₀.nextRunAt
    have hchain := hds₀.trans hds
    have hall : ∀ d ∈ ds₀ ++ ds, d ≤ e.now := by
      intro d hd
      rcases List.mem_append.1 hd with hd | hd
      · obtain ⟨e', he', hle'⟩ := (hcovered d hd).1
        exact hle'.trans (hpast e' he')
      · exact hle d hd
    -- the schedule had begun
    have hbegun : first ≤ e.now := by
      rcases hbusy with ⟨d, hd⟩ | ⟨c, hc, hdue⟩
      · rw [h.same.id] at hd
        obtain ⟨q, hq⟩ := Option.isSome_iff_exists.1 hd
        obtain ⟨hscheduled, hle⟩ := h.scheduled hcal hfirst hparses hticked hpast hq
        exact (hscheduled.le (increasing_nextFire cal r)).trans hle
      · have hinstant : Recurrence.Instant (r.nextFire cal) (some first) c := ⟨ds₀, hc ▸ hds₀⟩
        exact (hinstant.le (increasing_nextFire cal r)).trans hdue
    have hnext₁ : r₁.nextRunAt = tip := by
      rw [htarget, h.same.nextFire]
      exact nextFire_eq_tip hcal hbegun hchain hall htip
    refine ⟨r₁, hticked.mid.named, hidle, hr₁, h.same.trans hsame₁, ⟨ds₀ ++ ds, hnext₁ ▸ hchain, fun d hd => ?_⟩,
      fun hpolicy d q hq => ?_, hruns⟩
    · refine ⟨hnow d (hall d hd), fun hpolicy => ?_⟩
      rcases List.mem_append.1 hd with hd | hd
      · exact h.stays hticked ((hcovered d hd).2 hpolicy)
      · exact h.covers hcal hfirst hparses hticked hspares hpolicy hds hle htip hr₁ hsame hd
    · obtain ⟨hskipped, hpending, -⟩ := h.coalesced hcal hfirst hparses hticked hpolicy hq
      refine ⟨hskipped, fun hstatus => ?_, fun c hc => ?_⟩
      · -- the window was left once its run was executed
        obtain ⟨q', hq', hstatus'⟩ := hwindow (h.same.missedRunPolicy.trans hpolicy) d (hpending hstatus)
        exact absurd hstatus (Option.mem_unique hq hq' ▸ hstatus')
      · have hlater := htip c (hnext₁.symm.trans hc)
        have hpast' := (h.scheduled hcal hfirst hparses hticked hpast hq).2
        omega

end Step

/-! ## A session -/

variable {routines : Keyed RoutineRow.id RoutineRow.Ok} {events post : List (TickEvent cal)}

theorem run_snoc (pre : List (TickEvent cal)) (e : TickEvent cal) :
    run ids routines (pre ++ [e]) = (exec ids (run ids routines pre) e).2 :=
  Calls.after_snoc (exec ids) _ pre e

/-- Ticks in order, which spare the routine, from a state in which it is next due at `first`. -/
structure TickSession (ids : RunIds) (routines : Keyed RoutineRow.id RoutineRow.Ok) (r : RoutineRow) (first : Int)
    (events : List (TickEvent cal)) : Prop where
  cron : cal.Cron
  row : routines.row r.id = some r
  enabled : r.enabled = true
  parses : r.parses cal = true
  next : r.nextRunAt = some first
  valid : cal.valid first = true
  times : events.Pairwise (fun e e' => e.now ≤ e'.now)
  spares : Calls.Guarded (exec ids) (Spares ids r) ⟨routines, .empty⟩ events

section Run

theorem times_le (htimes : events.Pairwise (fun e e' => e.now ≤ e'.now)) (hevents : events = pre ++ e :: post) :
    ∀ e' ∈ pre, e'.now ≤ e.now := by
  rw [hevents, List.pairwise_append] at htimes
  exact fun e' he' => htimes.2.2 e' he' e List.mem_cons_self

theorem Sound.kept (h : Sound ids r first pre r₀ t) (hticked : Ticked ids t r₀ e) {q : RoutineRunRow}
    (hq : at_ ids r.id t d = some q) : ∃ q', at_ ids r.id (exec ids t e).2 d = some q' ∧
      (q'.status = .skipped ↔ q.status = .skipped) ∧ (q.status ≠ .pending → q' = q) := by
  have hcell := h.cells hticked d
  rw [hq] at hcell
  generalize at_ ids r.id (exec ids t e).2 d = q' at hcell
  cases hcell with
  | same => exact ⟨q, rfl, Iff.rfl, fun _ => rfl⟩
  | fired hpending hstatus =>
    have hnot : q.status ≠ .skipped := fun h => by cases h.symm.trans hpending
    exact ⟨_, rfl, iff_of_false hstatus hnot, fun h => absurd hpending h⟩

variable (hs : TickSession ids routines r first events)
include hs

theorem sound_run : ∀ pre post, events = pre ++ post → ∃ r₀, Sound ids r first pre r₀ (run ids routines pre) := by
  intro pre
  induction pre using List.reverseRecOn with
  | nil => exact fun _ _ => ⟨r, sound_start hs.row hs.next⟩
  | append_singleton pre e ih =>
    intro post hevents
    rw [List.append_assoc, List.singleton_append] at hevents
    obtain ⟨r₀, h⟩ := ih _ hevents
    have hspare := hs.spares pre e post hevents
    rw [run_snoc]
    exact h.step hs.cron hs.valid hs.parses (h.ticked hs.parses hs.enabled hspare) (times_le hs.times hevents) hspare

theorem tick_run (hevents : events = pre ++ e :: post) : ∃ r₀ r₁, Sound ids r first pre r₀ (run ids routines pre) ∧
    Sound ids r first (pre ++ [e]) r₁ (exec ids (run ids routines pre) e).2 ∧
    Ticked ids (run ids routines pre) r₀ e := by
  obtain ⟨r₀, h⟩ := sound_run hs pre _ hevents
  obtain ⟨r₁, h₁⟩ := sound_run hs (pre ++ [e]) post
    (by rw [hevents, List.append_assoc]; rfl)
  rw [run_snoc] at h₁
  exact ⟨r₀, r₁, h, h₁, h.ticked hs.parses hs.enabled (hs.spares pre e post hevents)⟩

theorem settled_run {q : RoutineRunRow} (hstatus : q.status ≠ .pending) : ∀ mid post, events = pre ++ (mid ++ post) →
    at_ ids r.id (run ids routines pre) d = some q → at_ ids r.id (run ids routines (pre ++ mid)) d = some q := by
  intro mid
  induction mid using List.reverseRecOn with
  | nil =>
    intro post _ hq
    rwa [List.append_nil]
  | append_singleton mid e ih =>
    intro post hevents hq
    have hevents' : events = (pre ++ mid) ++ e :: post := by simp [hevents]
    have hmid := ih (e :: post) (by simp [hevents]) hq
    obtain ⟨r₀, -, h, -, hticked⟩ := tick_run hs hevents'
    obtain ⟨q', hq', -, hkept⟩ := h.kept hticked hmid
    rw [← List.append_assoc, run_snoc, hq', hkept hstatus]

theorem covered_run (hevents : events = pre ++ post) (hpolicy : r.missedRunPolicy ≠ .coalesce)
    (hd : Scheduled cal r first d) (hbefore : ∀ r' n, (run ids routines pre).routines.row r.id = some r' →
      r'.nextRunAt = some n → d < n) : ∃ q, RunOf (run ids routines pre) r.id d q := by
  obtain ⟨r₀, h⟩ := sound_run hs pre post hevents
  obtain ⟨ds, hds, hcover⟩ := h.chain
  rcases hd.mem_or hds with hmem | hlater
  · obtain ⟨q, hq⟩ := Option.isSome_iff_exists.1 ((hcover d hmem).2 hpolicy)
    exact ⟨q, h.named.runOf_iff.2 hq⟩
  · cases hn : r₀.nextRunAt with
    | none =>
      rw [hn] at hlater
      exact hlater.of_none.elim
    | some n =>
      rw [hn] at hlater
      have hle := hlater.le (increasing_nextFire cal r)
      have hlt := hbefore r₀ n h.row hn
      omega

theorem handled_run {mid : List (TickEvent cal)} (hevents : events = pre ++ e :: (mid ++ post))
    (hpolicy : r.missedRunPolicy ≠ .coalesce) (hdone : (exec ids (run ids routines pre) e).1 = true)
    (hd : Scheduled cal r first d) (hle : d ≤ e.now) :
    ∃ q, RunOf (run ids routines (pre ++ e :: mid)) r.id d q ∧ q.status ≠ .pending := by
  obtain ⟨r₀, r₁, h, h₁, hticked⟩ := tick_run hs hevents
  obtain ⟨hsettled, hended⟩ := hticked.ended hdone
  rw [h.same.id] at hsettled
  have hevents' : events = (pre ++ [e]) ++ (mid ++ post) := by rw [hevents, List.append_assoc]; rfl
  obtain ⟨q, hq⟩ := covered_run hs hevents' hpolicy hd
    fun r' n hr' hn => by
      rw [run_snoc, ← h.same.id] at hr'
      exact hle.trans_lt (hended.later hr' hn)
  rw [run_snoc] at hq
  have hat := h₁.named.runOf_iff.1 hq
  have hstatus := hsettled d q hat
  rw [← run_snoc] at hat
  have hlater := settled_run hs hstatus mid post hevents' hat
  obtain ⟨r₂, h₂⟩ := sound_run hs (pre ++ e :: mid) post
    (by rw [hevents]; simp)
  rw [List.append_cons] at h₂ ⊢
  exact ⟨q, h₂.named.runOf_iff.2 hlater, hstatus⟩

theorem decided_run (hevents : events = pre ++ e :: post) {q' : RoutineRunRow}
    (hq' : RunOf (exec ids (run ids routines pre) e).2 r.id d q')
    (hnone : ∀ q, ¬ RunOf (run ids routines pre) r.id d q) :
    ∃ r', (run ids routines pre).routines.row r.id = some r' ∧ d ∈ r'.dueOccurrences cal e.now ∧
      (q'.status = .skipped ↔ Skips cal (run ids routines pre) r' e.now d) := by
  obtain ⟨r₀, r₁, h, h₁, hticked⟩ := tick_run hs hevents
  have hspare := hs.spares pre e post hevents
  have hat := h₁.named.runOf_iff.1 hq'
  have hnone' : at_ ids r.id (run ids routines pre) d = none :=
    Option.eq_none_iff_forall_not_mem.2 fun q hq => hnone q (h.named.runOf_iff.2 hq)
  have hcell := h.cells hticked d
  rw [hat, hnone'] at hcell
  cases hcell with
  | made hplan hskip hexecute =>
    refine ⟨r₀, h.row, (mem_of_plan _ _ hplan).1, fun hstatus => .inl (hskip hstatus), ?_⟩
    rintro (hd | ⟨hactive, -⟩)
    · cases hstatus : q'.status with
      | skipped => rfl
      | success => exact absurd hd (h.not_skip hs.cron hs.valid hs.parses hspare (hexecute (.inl hstatus)))
      | failed => exact absurd hd (h.not_skip hs.cron hs.valid hs.parses hspare (hexecute (.inr hstatus)))
      | pending => exact absurd (.inl hd) (h.unskipped hticked hspare hat hstatus hnone h.row)
    · rw [h.same.id, h.named.hasActiveRun h.idle] at hactive
      cases hactive

theorem window_run (hevents : events = pre ++ e :: post) (hpolicy : r.missedRunPolicy = .coalesce) {r' : RoutineRow}
    {c : Int} (hr' : (run ids routines pre).routines.row r.id = some r') (hc : r'.nextRunAt = some c) (hdue : c ≤ e.now)
    (hends : (exec ids (run ids routines pre) e).1 = true ∨ ∀ r'', (exec ids (run ids routines pre) e).2.routines.row
      r.id = some r'' → r''.nextRunAt ≠ some c) :
    ∃ q, RunOf (exec ids (run ids routines pre) e).2 r.id c q ∧ (q.status = .success ∨ q.status = .failed) ∧
      ∀ d q', RunOf (exec ids (run ids routines pre) e).2 r.id d q' → c ≤ d → d ≤ e.now → d = c := by
  obtain ⟨r₀, r₁, h, h₁, hticked⟩ := tick_run hs hevents
  cases h.row.symm.trans hr'
  obtain ⟨q, hq, hstatus⟩ := h.executed hticked hpolicy hc hdue hends
  refine ⟨q, h₁.named.runOf_iff.2 hq, ?_, fun d q' hq' hcd _ => ?_⟩
  · have hskipped := (h.coalesced hs.cron hs.valid hs.parses hticked hpolicy hq).1
    cases hstatus' : q.status with
    | success => exact .inl rfl
    | failed => exact .inr rfl
    | pending => exact absurd hstatus' hstatus
    | skipped => exact absurd hstatus' hskipped
  · exact le_antisymm ((h.coalesced hs.cron hs.valid hs.parses hticked hpolicy (h₁.named.runOf_iff.1 hq')).2.2 c hc) hcd

theorem TickSession.lossless : Lossless cal ids routines r first events where
  covered hpolicy _ _ hevents _ hd hbefore :=
    covered_run hs hevents hpolicy hd hbefore
  handled hpolicy _ _ _ _ hevents hdone _ hd hle :=
    handled_run hs hevents hpolicy hdone hd hle
  unique pre post hevents _ _ _ hq hq' := by
    obtain ⟨r₀, h⟩ := sound_run hs pre post hevents
    exact Option.mem_unique (h.named.runOf_iff.1 hq) (h.named.runOf_iff.1 hq')
  decided _ _ _ hevents _ _ hq' hnone := by
    rw [run_snoc] at hq'
    exact decided_run hs hevents hq' hnone
  kept _ _ _ hevents _ _ hq := by
    obtain ⟨r₀, r₁, h, h₁, hticked⟩ := tick_run hs hevents
    obtain ⟨q', hq', hskipped, hkept⟩ := h.kept hticked (h.named.runOf_iff.1 hq)
    rw [run_snoc]
    exact ⟨q', h₁.named.runOf_iff.2 hq', hskipped, hkept⟩
  window hpolicy _ _ _ hevents _ _ hr' hc hdue hends := by
    rw [run_snoc] at hends ⊢
    exact window_run hs hevents hpolicy hr' hc hdue hends

end Run

/-- **No occurrence is lost** by ticks of this kind. -/
theorem occurrences_kept (hcal : cal.Cron) (hrow : routines.row r.id = some r) (henabled : r.enabled = true)
    (hparses : r.parses cal = true) (hnext : r.nextRunAt = some first) (hfirst : cal.valid first = true)
    (htimes : events.Pairwise (fun e e' => e.now ≤ e'.now))
    (hspares : Calls.Guarded (exec ids) (Spares ids r) ⟨routines, .empty⟩ events) :
    Lossless cal ids routines r first events :=
  TickSession.lossless ⟨hcal, hrow, henabled, hparses, hnext, hfirst, htimes, hspares⟩

end Session

/-! ## A session that loses an occurrence -/

theorem replicate_append_inj {c c' : Char} (hc : c ≠ '1') (hc' : c' ≠ '1') {xs ys : List Char} : ∀ {m n : Nat},
    List.replicate m '1' ++ c :: xs = List.replicate n '1' ++ c' :: ys → m = n ∧ c = c' ∧ xs = ys
  | 0, 0, h => ⟨rfl, (List.cons.inj h).1, (List.cons.inj h).2⟩
  | 0, _ + 1, h => absurd (List.cons.inj h).1 hc
  | _ + 1, 0, h => absurd (List.cons.inj h).1.symm hc'
  | m + 1, n + 1, h => by
    obtain ⟨rfl, hrest⟩ := replicate_append_inj hc hc' (List.cons.inj h).2
    exact ⟨rfl, hrest⟩

def sampleIds : RunIds where
  id routineId d := String.ofList (List.replicate (d / 60).natAbs '1' ++ (if d < 0 then '-' else '+') ::
    (List.replicate (d % 60).toNat '1' ++ ':' :: routineId.toList))
  injective := by
    intro r d r' d' h
    have hne : ∀ d : Int, (if d < 0 then '-' else '+') ≠ '1' := fun d => by split <;> decide
    obtain ⟨habs, hsign, hrest⟩ := replicate_append_inj (hne d) (hne d') (String.ofList_inj.1 h)
    obtain ⟨hmod, -, hid⟩ := replicate_append_inj (by decide) (by decide) hrest
    refine ⟨String.toList_inj.1 hid, ?_⟩
    split at hsign <;> split at hsign
    · omega
    · cases hsign
    · cases hsign
    · omega

def sampleTick (now : Int) (crash : Option Nat) : TickEvent minuteCalendar :=
  ⟨now, rfl, fun _ => ⟨.success, now, none, none⟩, crash⟩

open RoutineSystem (sampleRoutine sampleRoutines)

def sampleTicks : List (TickEvent minuteCalendar) := [sampleTick 90 (some 6), sampleTick 100 none, sampleTick 200 none]

section Sample

variable {c now d : Int}

theorem length_le_of_follows {ds : List Int} {tip : Option Int}
    (h : Recurrence.Follows (sampleRoutine.nextFire minuteCalendar) (some c) ds tip) (hle : ∀ d ∈ ds, d ≤ now) :
    ds = [] ∨ (ds.length : Int) ≤ now + 1 - c := by
  induction ds generalizing c with
  | nil => exact .inl rfl
  | cons a ds ih =>
    obtain ⟨ha, hrest⟩ := h.of_cons
    obtain rfl := Option.some.inj ha
    have hc := hle c List.mem_cons_self
    rw [List.length_cons]
    refine .inr ?_
    rcases ih (c := (c / 60 + 1) * 60) hrest fun d hd => hle d (List.mem_cons_of_mem _ hd) with rfl | hlen
    · simp
      omega
    · push_cast
      omega

theorem scheduled_zero (h : Scheduled minuteCalendar sampleRoutine 0 d) (hle : d ≤ 100) : d = 0 ∨ d = 60 := by
  obtain ⟨ds, hds⟩ := h
  rcases ds with _ | ⟨a, _ | ⟨b, ds⟩⟩
  · exact .inl (Option.some.inj hds.of_nil)
  · obtain ⟨ha, hrest⟩ := hds.of_cons
    cases ha
    exact .inr (Option.some.inj hrest.of_nil)
  · obtain ⟨ha, hrest⟩ := hds.of_cons
    cases ha
    obtain ⟨hb, hrest⟩ := hrest.of_cons
    obtain rfl : 60 = b := Option.some.inj hb
    have hlater : Scheduled minuteCalendar sampleRoutine 120 d := ⟨ds, hrest⟩
    have := hlater.le (increasing_nextFire minuteCalendar sampleRoutine)
    omega

/-- The row has `c` as its next run; only a pending run and a tick that stops are left to look at. -/
theorem spares_sample {t : RoutineTables} {e : TickEvent minuteCalendar}
    (hnext : (t.routines.row "a").bind RoutineRow.nextRunAt = some c) (hnow : e.now < c + 1000)
    (hfew : t.runs.rows.countP (fun q => q.status == .pending) ≤ 500)
    (hpending : (∀ q ∈ t.runs.rows, q.status ≠ .pending) ∨
      ∀ d, Scheduled minuteCalendar sampleRoutine c d → d ≤ e.now → ∃ q, RunOf t "a" d q)
    (hskipped : (left sampleIds t e).1 = false → ∀ d q, RunOf (left sampleIds t e).2 "a" d q → q.status = .pending →
      ∀ r', t.routines.row "a" = some r' → ¬ Skips minuteCalendar t r' e.now d)
    (hstays : (left sampleIds t e).1 = false →
      ((left sampleIds t e).2.routines.row "a").bind RoutineRow.nextRunAt = some c) :
    Spares sampleIds sampleRoutine t e := by
  have hrow : ∀ {t' : RoutineTables} {r' : RoutineRow}, (t'.routines.row "a").bind RoutineRow.nextRunAt = some c →
      t'.routines.row "a" = some r' → r'.nextRunAt = some c := by
    intro t' r' h hr'
    rwa [hr'] at h
  constructor
  · exact hfew
  · intro _ r' c' ds tip hr' hc' hds hle
    cases (hrow hnext hr').symm.trans hc'
    rcases length_le_of_follows hds hle with rfl | hlen
    · exact Nat.zero_le _
    · omega
  · intro _ d q hq hstatus r' c' d' hr' hc' hd' hle
    cases (hrow hnext hr').symm.trans hc'
    rcases hpending with hnone | hruns
    · exact absurd hstatus (hnone q hq.1)
    · exact hruns d' hd' hle
  · exact fun hcut d q hq hstatus _ r' hr' => hskipped hcut d q hq hstatus r' hr'
  · intro hcut _ r' r'' c' d' hr' hc' hr'' hmoved
    cases (hrow hnext hr').symm.trans hc'
    exact absurd (hrow (hstays hcut) hr'') hmoved

end Sample

/-- A tick that stops between a run's insertion and its dispatch, one that recovers the run, and one that finds two
occurrences more. -/
theorem occurrences_kept_sample :
    Lossless minuteCalendar sampleIds sampleRoutines sampleRoutine 0 sampleTicks ∧
    (run sampleIds sampleRoutines sampleTicks).runs.rows.map (fun q => (q.occurrenceAt, q.status)) =
      [(some 0, .skipped), (some 60, .success), (some 120, .skipped), (some 180, .success)] := by
  refine ⟨occurrences_kept minuteCalendar_cron rfl rfl rfl rfl rfl (by decide) ?_, by decide +kernel⟩
  refine Calls.guarded_cons.2 ⟨?_, Calls.guarded_cons.2 ⟨?_, Calls.guarded_cons.2 ⟨?_, Calls.guarded_nil _⟩⟩⟩
  · refine spares_sample (c := 0) (by decide +kernel) (by decide) (by decide +kernel) (.inl (by decide +kernel)) ?_
      fun _ => by decide +kernel
    intro _ d q hq hstatus r' hr' hskips
    have hlater : ∀ q ∈ (left sampleIds ⟨sampleRoutines, .empty⟩ (sampleTick 90 (some 6))).2.runs.rows,
        q.status = .pending → q.occurrenceAt = some 60 := by decide +kernel
    obtain rfl : 60 = d := Option.mem_unique (hlater q hq.1 hstatus) hq.2.2
    cases hr'.symm.trans (rfl : sampleRoutines.row "a" = some sampleRoutine)
    rcases hskips with h | ⟨h, -⟩
    · exact absurd h (by decide +kernel)
    · cases h
  · refine spares_sample (c := 0) (by decide +kernel) (by decide) (by decide +kernel) (.inr fun d hd hle => ?_)
      (fun hcut => by cases hcut) fun hcut => by cases hcut
    have hruns : ∀ d ∈ [0, 60], ∃ q ∈ (exec sampleIds ⟨sampleRoutines, .empty⟩ (sampleTick 90 (some 6))).2.runs.rows,
        q.routineId = "a" ∧ q.occurrenceAt = some d := by decide +kernel
    exact hruns d (by simpa using scheduled_zero hd hle)
  · exact spares_sample (c := 120) (by decide +kernel) (by decide) (by decide +kernel) (.inl (by decide +kernel))
      (fun hcut => by cases hcut) fun hcut => by cases hcut

def catchUpRoutine : RoutineRow := { sampleRoutine with missedRunPolicy := .catchUp }

def catchUpRoutines : Keyed RoutineRow.id RoutineRow.Ok :=
  ⟨[catchUpRoutine], by simp, fun r hr => by rw [List.mem_singleton.1 hr]; exact ⟨by decide⟩⟩

def crashedTicks : List (TickEvent minuteCalendar) := [sampleTick 90 (some 7), sampleTick 100 none]

/-- The second occurrence has no run then. -/
theorem occurrence_lost : ¬ Lossless minuteCalendar sampleIds catchUpRoutines catchUpRoutine 0 crashedTicks := by
  intro h
  have hnext : Scheduled minuteCalendar catchUpRoutine 0 60 := ⟨[0], .cons (.nil _)⟩
  obtain ⟨q, ⟨hmem, -, hq⟩, -⟩ := h.handled nofun [sampleTick 90 (some 7)] (sampleTick 100 none) [] [] rfl rfl 60 hnext
    (by decide)
  have hruns : (run sampleIds catchUpRoutines crashedTicks).runs.rows.map RoutineRunRow.occurrenceAt = [some 0] := by
    decide +kernel
  have hmem' : some 60 ∈ [some (0 : Int)] := by
    rw [← hruns, ← hq]
    exact List.mem_map_of_mem hmem
  exact absurd hmem' (by decide)

end Ticks

end Execlaw
