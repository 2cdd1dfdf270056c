import Execlaw.RoutineTickCells
/-!
# RoutineTickEnds — what a finished tick did

A tick fires the runs left pending, and then ticks the routines that are due; one routine is in the first part or the
second, never in both.
-/
namespace Execlaw

open Table RoutineStore Interleave

namespace Ticks

open Tick

/-! ## The due routines -/

section Tick

variable {env : TickEnv} {t₀ t t' : RoutineTables} {r₀ : RoutineRow} {done : List Int}

theorem Moved.aside (h : Moved env r₀ t) (haside : Aside env.ids r₀.id t t') : Moved env r₀ t' := by
  obtain ⟨r, hr, hnext⟩ := h
  exact ⟨r, haside.row.trans hr, hnext⟩

theorem Settled.aside {ids : RunIds} {i : String} (h : Settled ids i t) (haside : Aside ids i t t') :
    Settled ids i t' :=
  fun d q hq => h d q ((haside.runs d).symm.trans hq)

theorem Handled.aside (h : Handled env t₀ r₀ done t) (haside : Aside env.ids r₀.id t t') : Handled env t₀ r₀ done t' :=
  ⟨h.mid.aside haside, h.settled.aside haside, fun d hd => by rw [haside.runs]; exact h.done d hd⟩

variable (env) in
theorem other_tickAll (i : String) : ∀ (rs : List RoutineRow) {t : RoutineTables},
    (∀ r ∈ rs, r.id ≠ i ∧ (t₀.routines.row r.id).isSome = true) → Aside env.ids i t₀ t →
      (tickAll env rs).Holds (Aside env.ids i t₀) (fun result t' => result = .ok () ∧ Aside env.ids i t₀ t') t
  | [], _, _, h => Prog.holds_pure ⟨rfl, h⟩
  | r :: rs, _, hrs, h => by
    obtain ⟨⟨hr, hpresent⟩, hrs⟩ := List.forall_mem_cons.1 hrs
    refine Prog.Holds.bind (other_tickRoutine env hr hpresent h) ?_
    rintro result t₁ ⟨rfl, h₁⟩
    exact other_tickAll i rs hrs h₁

theorem own_tickAll (hdue : ∃ c, r₀.nextRunAt = some c ∧ c ≤ env.now)
    (hafter : r₀.nextRunAfter env.cal env.now = r₀.nextFire env.cal env.now)
    (hwindow : ∀ d ∈ (r₀.plan env.cal env.now).execute, r₀.missedRunPolicy = .coalesce → r₀.nextRunAt = some d)
    (hcoalesce : r₀.missedRunPolicy = .coalesce →
      ∀ c, r₀.nextRunAt = some c → c ∈ (r₀.plan env.cal env.now).execute) :
    ∀ (rs : List RoutineRow) {t : RoutineTables}, r₀ ∈ rs → (rs.map RoutineRow.id).Nodup →
      (∀ r ∈ rs, (t₀.routines.row r.id).isSome = true) → Handled env t₀ r₀ [] t →
        (tickAll env rs).Holds (Mid env t₀ r₀) (fun result t' => result = .ok () ∧ Moved env r₀ t' ∧
          Handled env t₀ r₀ ((r₀.plan env.cal env.now).skip ++ (r₀.plan env.cal env.now).execute) t') t
  | r :: rs, t, hmem, hnd, hpresent, h => by
    rw [List.map_cons, List.nodup_cons] at hnd
    obtain ⟨hr, hothers⟩ := List.forall_mem_cons.1 hpresent
    rcases List.mem_cons.1 hmem with rfl | hmem
    · refine Prog.Holds.bind (own_tickRoutine hafter hwindow h hdue hcoalesce) ?_
      rintro result t₁ ⟨rfl, hmoved, h₁⟩
      have hrest := other_tickAll env r₀.id rs (fun q hq => ⟨fun heq => hnd.1 ?_, ?_⟩)
        (.refl h₁.mid.named)
      · exact (hrest.weaken fun _ haside => h₁.mid.aside haside).mono fun _ _ hpost =>
          ⟨hpost.1, hmoved.aside hpost.2, h₁.aside hpost.2⟩
      · exact List.mem_map.2 ⟨q, hq, heq⟩
      · rw [h₁.mid.present]
        exact hothers q hq
    · have hne : r.id ≠ r₀.id := fun heq => hnd.1 (heq ▸ List.mem_map_of_mem hmem)
      have hhead := other_tickRoutine env hne (by rw [h.mid.present]; exact hr)
        (.refl h.mid.named)
      refine Prog.Holds.bind (hhead.weaken fun _ haside => h.mid.aside haside) ?_
      rintro result t₁ ⟨rfl, h₁⟩
      exact own_tickAll hdue hafter hwindow hcoalesce rs hmem hnd.2 hothers (h.aside h₁)

/-- Between two recovered runs: those still pending are of the list, and once one was fired the routine moved on. -/
structure Recovering (env : TickEnv) (t₀ : RoutineTables) (r₀ : RoutineRow) (runs : List (String × String))
    (t : RoutineTables) : Prop where
  mid : Mid env t₀ r₀ t
  idle : Idle env.ids r₀.id t
  pending : ∀ d q, at_ env.ids r₀.id t d = some q → q.status = .pending → (env.ids.id r₀.id d, r₀.id) ∈ runs
  moved : (Moved env r₀ t ∧ ∃ d q, at_ env.ids r₀.id t₀ d = some q ∧ q.status = .pending) ∨
    (t.routines.row r₀.id = some r₀ ∧ ∀ d, at_ env.ids r₀.id t d = at_ env.ids r₀.id t₀ d)

variable {runs : List (String × String)} {k j : String}

theorem Recovering.aside (h : Recovering env t₀ r₀ ((k, j) :: runs) t) (hj : j ≠ r₀.id)
    (haside : Aside env.ids r₀.id t t') : Recovering env t₀ r₀ runs t' := by
  refine ⟨h.mid.aside haside, fun d q hq => h.idle d q ((haside.runs d).symm.trans hq), fun d q hq hq' => ?_, ?_⟩
  · rcases List.mem_cons.1 (h.pending d q ((haside.runs d).symm.trans hq) hq') with heq | hmem
    · exact absurd (Prod.mk.inj heq).2.symm hj
    · exact hmem
  · rcases h.moved with ⟨hmoved, hpending⟩ | ⟨hrow, hruns⟩
    · exact .inl ⟨hmoved.aside haside, hpending⟩
    · exact .inr ⟨haside.row.trans hrow, fun d => (haside.runs d).trans (hruns d)⟩

theorem Recovering.fired {d : Int} (h : Recovering env t₀ r₀ ((env.ids.id r₀.id d, r₀.id) :: runs) t)
    (hfired : Fired env t₀ r₀ d t t') (hpending : ∃ q, at_ env.ids r₀.id t₀ d = some q ∧ q.status = .pending) :
    Recovering env t₀ r₀ runs t' := by
  obtain ⟨q₀, hq₀, hstatus₀⟩ := hpending
  refine ⟨hfired.mid, fun d' q hq => ?_, fun d' q hq hstatus => ?_, ?_⟩
  · by_cases hd' : d' = d
    · exact RoutineSystem.inactive_of_status (hfired.settled q (hd' ▸ hq))
    · exact h.idle d' q ((hfired.frame d' hd').symm.trans hq)
  · have hd' : d' ≠ d := fun heq => hfired.settled q (heq ▸ hq) hstatus
    rcases List.mem_cons.1 (h.pending d' q ((hfired.frame d' hd').symm.trans hq) hstatus) with heq | hmem
    · exact absurd (env.ids.injective _ _ _ _ (Prod.mk.inj heq).1).2 hd'
    · exact hmem
  · by_cases hsettled : ∀ q, at_ env.ids r₀.id t d = some q → q.status ≠ .pending
    · rw [hfired.still hsettled]
      exact h.moved
    · push Not at hsettled
      obtain ⟨q, hq, hstatus⟩ := hsettled
      exact .inl ⟨hfired.moved q hq hstatus, d, q₀, hq₀, hstatus₀⟩

theorem own_recoverRuns (henabled : r₀.enabled = true)
    (hafter : ∀ r, SameDefinition r₀ r → r.nextRunAfter env.cal env.now = r₀.nextFire env.cal env.now)
    (hcoalesce : r₀.missedRunPolicy = .coalesce →
      ∀ d q, at_ env.ids r₀.id t₀ d = some q → q.status = .pending → r₀.nextRunAt = some d) :
    ∀ (runs : List (String × String)) {t : RoutineTables}, (∀ p ∈ runs, ∃ d, p.1 = env.ids.id p.2 d ∧
      (p.2 = r₀.id → ∃ q, at_ env.ids r₀.id t₀ d = some q ∧ q.status = .pending)) → Recovering env t₀ r₀ runs t →
        (recoverRuns env runs).Holds (Mid env t₀ r₀) (fun _ t' => Recovering env t₀ r₀ [] t') t
  | [], _, _, h => Prog.holds_pure h
  | (k, j) :: runs, t, hruns, h => by
    obtain ⟨⟨d, hk, hown⟩, hrest⟩ := List.forall_mem_cons.1 hruns
    simp only at hk hown
    subst hk
    refine Prog.Holds.bind (M := fun found t' => found = t.routines.row j ∧ t' = t)
      (Prog.holds_read h.mid ⟨rfl, rfl⟩) ?_
    rintro found t₁ ⟨rfl, rfl⟩
    by_cases hj : j = r₀.id
    · subst hj
      obtain ⟨q₀, hq₀, hstatus⟩ := hown rfl
      obtain ⟨r, hr, hsame, -⟩ := h.mid.row
      rw [hr]
      simp only [hsame.enabled.trans henabled, if_true]
      refine Prog.Holds.bind (M := fun _ t' => t' = t₁) (Prog.holds_read h.mid rfl) ?_
      rintro occurrenceAt t₂ rfl
      refine Prog.Holds.bind (M := fun _ => Recovering env t₀ r₀ runs) ?_
        fun _ t₃ h₃ => own_recoverRuns henabled hafter hcoalesce runs hrest h₃
      refine Prog.Holds.bind (own_fireRun hsame.id (hafter r hsame) h.mid h.idle fun q hq hq' => ⟨fun hnone => ?_,
        fun hpolicy => hcoalesce hpolicy d q₀ hq₀ hstatus⟩)
        fun _ t₃ h₃ => Prog.holds_pure (h.fired h₃ ⟨q₀, hq₀, hstatus⟩)
      rw [hnone] at hq₀
      cases hq₀
    · have hskip : Recovering env t₀ r₀ runs t₁ := h.aside hj (.refl h.mid.named)
      cases hrow : t₁.routines.row j with
      | none => exact own_recoverRuns henabled hafter hcoalesce runs hrest hskip
      | some routine =>
        obtain rfl : routine.id = j := Keyed.key_of_row hrow
        simp only
        split
        · refine Prog.Holds.bind (M := fun _ t' => t' = t₁) (Prog.holds_read h.mid rfl) ?_
          rintro occurrenceAt t₂ rfl
          have hfire := other_fireOne env (routine.nextRunAfter env.cal env.now) hj
            (by rw [hrow]; rfl) occurrenceAt (some (env.ids.id routine.id d))
            (fun runId hrun => ⟨d, (Option.some.inj hrun).symm⟩) (.refl h.mid.named)
          refine Prog.Holds.bind (hfire.weaken fun _ haside => h.mid.aside haside) fun _ t₃ h₃ => ?_
          exact own_recoverRuns henabled hafter hcoalesce runs hrest (h.aside hj h₃)
        · exact own_recoverRuns henabled hafter hcoalesce runs hrest hskip

theorem mem_listPendingRunIds (hfew : t.runs.rows.countP (fun q => q.status == .pending) ≤ 500) {k j : String} :
    (k, j) ∈ listPendingRunIds 500 t ↔
      ∃ q, t.runs.row k = some q ∧ q.routineId = j ∧ q.status = .pending ∧ q.startedAt = none := by
  have hlength : (orderBy (fun r : RoutineRunRow => toLex (r.firedAt, r.id)) (t.runs.rows.filter
      (fun r : RoutineRunRow => r.status == .pending && r.startedAt.isNone))).length ≤ 500 := by
    rw [orderBy, List.length_insertionSort, ← List.countP_eq_length_filter]
    refine (List.countP_mono_left fun q _ hq => ?_).trans hfew
    exact (Bool.and_eq_true_iff.1 hq).1
  rw [listPendingRunIds, show max 1 (min 500 500) = 500 from rfl, List.take_of_length_le hlength, List.mem_map]
  constructor
  · rintro ⟨q, hq, heq⟩
    cases heq
    obtain ⟨hmem, hpending⟩ := List.mem_filter.1 ((mem_orderBy _).1 hq)
    simp only [Bool.and_eq_true, beq_iff_eq, Option.isNone_iff_eq_none] at hpending
    exact ⟨q, Keyed.row_iff.2 ⟨hmem, rfl⟩, rfl, hpending⟩
  · rintro ⟨q, hq, rfl, hpending, hstarted⟩
    obtain ⟨hmem, rfl⟩ := Keyed.row_iff.1 hq
    refine ⟨q, (mem_orderBy _).2 (List.mem_filter.2 ⟨hmem, ?_⟩), rfl⟩
    simp [hpending, hstarted]

theorem mem_listDue {now : Int} {r : RoutineRow} :
    r ∈ listDue now t ↔ t.routines.row r.id = some r ∧ r.enabled = true ∧ ∃ c, r.nextRunAt = some c ∧ c ≤ now := by
  rw [listDue, mem_orderBy, List.mem_filter, Bool.and_eq_true, Option.any_eq_true, Keyed.row_iff]
  simp

theorem nodup_listDue (now : Int) (t : RoutineTables) : ((listDue now t).map RoutineRow.id).Nodup := by
  have hperm := (List.perm_insertionSort (fun a b : RoutineRow => a.nextRunAt.getD 0 ≤ b.nextRunAt.getD 0)
    (t.routines.rows.filter (fun r => r.enabled && r.nextRunAt.any (fun next => decide (next ≤ now))))).map RoutineRow.id
  exact hperm.nodup_iff.2 (t.routines.unique.sublist (List.filter_sublist.map _))

/-- **What a finished tick did for a routine**: fired what was pending, or its plan, or nothing was due. -/
inductive Ended (env : TickEnv) (t₀ : RoutineTables) (r₀ : RoutineRow) (t : RoutineTables) : Prop
  | recovered (hpending : ∃ d q, at_ env.ids r₀.id t₀ d = some q ∧ q.status = .pending) (hmoved : Moved env r₀ t)
  | planned (h₀ : Settled env.ids r₀.id t₀) (hdue : ∃ c, r₀.nextRunAt = some c ∧ c ≤ env.now) (hmoved : Moved env r₀ t)
      (hdone : ∀ d, d ∈ (r₀.plan env.cal env.now).execute ∨ d ∈ (r₀.plan env.cal env.now).skip →
        (at_ env.ids r₀.id t d).isSome = true)
  | waiting (h₀ : Settled env.ids r₀.id t₀) (hdue : ∀ c, r₀.nextRunAt = some c → env.now < c)
      (hrow : t.routines.row r₀.id = some r₀)

variable (env) in
theorem own_tickOnceAt (hn : Named env.ids t₀) (hidle : Idle env.ids r₀.id t₀)
    (hrow : t₀.routines.row r₀.id = some r₀) (henabled : r₀.enabled = true) (hparses : r₀.parses env.cal = true)
    (hvalid : env.cal.valid env.now = true) (hfew : t₀.runs.rows.countP (fun q => q.status == .pending) ≤ 500)
    (hpending : r₀.missedRunPolicy = .coalesce →
      ∀ d q, at_ env.ids r₀.id t₀ d = some q → q.status = .pending → r₀.nextRunAt = some d) :
    (tickOnceAt env).Holds (Mid env t₀ r₀)
      (fun _ t => Mid env t₀ r₀ t ∧ Settled env.ids r₀.id t ∧ Ended env t₀ r₀ t) t₀ := by
  have hafter : ∀ r, SameDefinition r₀ r → r.nextRunAfter env.cal env.now = r₀.nextFire env.cal env.now := by
    intro r hsame
    rw [nextRunAfter_eq (hsame.parses.trans hparses) hvalid, hsame.nextFire]
  have hself := mid_self hn hrow
  have hstart : Recovering env t₀ r₀ (listPendingRunIds 500 t₀) t₀ := by
    refine ⟨hself, hidle, fun d q hq hstatus => ?_, .inr ⟨hrow, fun _ => rfl⟩⟩
    have hstarted := hidle d q hq
    rw [RoutineSystem.active_of_pending hstatus, Option.isSome_eq_false_iff, Option.isNone_iff_eq_none] at hstarted
    exact (mem_listPendingRunIds hfew).2 ⟨q, hq, (hn.of_at hq).1, hstatus, hstarted⟩
  have hruns : ∀ p ∈ listPendingRunIds 500 t₀, ∃ d, p.1 = env.ids.id p.2 d ∧
      (p.2 = r₀.id → ∃ q, at_ env.ids r₀.id t₀ d = some q ∧ q.status = .pending) := by
    rintro ⟨k, j⟩ hmem
    obtain ⟨q, hq, rfl, hstatus, -⟩ := (mem_listPendingRunIds hfew).1 hmem
    obtain ⟨d, -, hk⟩ := hn k q hq
    refine ⟨d, hk, fun heq => ⟨q, ?_, hstatus⟩⟩
    rw [at_, ← heq, ← hk, hq]
  refine Prog.Holds.bind (M := fun pending t => pending = listPendingRunIds 500 t₀ ∧ t = t₀)
    (Prog.holds_read hself ⟨rfl, rfl⟩) ?_
  rintro pending t ⟨rfl, rfl⟩
  refine Prog.Holds.bind (own_recoverRuns henabled hafter hpending _ hruns hstart) ?_
  rintro - t₁ h₁
  refine Prog.Holds.bind (M := fun due t' => due = listDue env.now t₁ ∧ t' = t₁)
    (Prog.holds_read h₁.mid ⟨rfl, rfl⟩) ?_
  rintro due t' ⟨rfl, rfl⟩
  have hsettled : Settled env.ids r₀.id t' := fun d q hq hstatus => by cases h₁.pending d q hq hstatus
  -- the due routines, where this one is not among them
  have hothers : (∀ r, t'.routines.row r₀.id = some r → ¬ ∃ c, r.nextRunAt = some c ∧ c ≤ env.now) →
      (tickAll env (listDue env.now t')).Holds (Mid env t r₀) (fun _ => Aside env.ids r₀.id t') t' := by
    intro hnot
    have hall := other_tickAll env r₀.id (listDue env.now t') (fun r hr => ?_) (.refl h₁.mid.named)
    · exact (hall.weaken fun _ haside => h₁.mid.aside haside).mono fun _ _ hpost => hpost.2
    · obtain ⟨hr, -, hdue⟩ := mem_listDue.1 hr
      exact ⟨fun heq => hnot r (heq ▸ hr) hdue, by rw [hr]; rfl⟩
  rcases h₁.moved with ⟨hmoved, hwas⟩ | ⟨hrow₁, hruns₁⟩
  · refine (hothers fun r hr hdue => ?_).mono fun _ t₂ haside =>
      ⟨h₁.mid.aside haside, hsettled.aside haside, .recovered hwas (hmoved.aside haside)⟩
    obtain ⟨r', hr', hnext⟩ := hmoved
    cases hr.symm.trans hr'
    obtain ⟨c, hc, hle⟩ := hdue
    have hlater := increasing_nextFire env.cal r₀ env.now c (hnext.symm.trans hc)
    omega
  · have hsettled₀ : Settled env.ids r₀.id t := fun d q hq => hsettled d q ((hruns₁ d).trans hq)
    by_cases hdue : ∃ c, r₀.nextRunAt = some c ∧ c ≤ env.now
    · obtain ⟨c, hc, hle⟩ := hdue
      have hplan : r₀.missedRunPolicy = .coalesce → (r₀.plan env.cal env.now).execute = [c] := by
        intro hpolicy
        rw [RoutineRow.plan, dueOccurrences_of_coalesce hpolicy hc hle, hpolicy, plan_coalesce _ hle]
      refine (own_tickAll ⟨c, hc, hle⟩ (hafter r₀ (.refl r₀)) (fun d hd hpolicy => ?_) (fun hpolicy c' hc' => ?_)
        (listDue env.now t') (mem_listDue.2 ⟨hrow₁, henabled, c, hc, hle⟩) (nodup_listDue env.now t') (fun r hr => ?_)
        ⟨h₁.mid, hsettled, List.forall_mem_nil _⟩).mono fun _ t₂ hpost =>
          ⟨hpost.2.2.mid, hpost.2.2.settled, .planned hsettled₀ ⟨c, hc, hle⟩ hpost.2.1 fun d hd => ?_⟩
      · rw [hplan hpolicy, List.mem_singleton] at hd
        rw [hd, hc]
      · rw [hplan hpolicy, List.mem_singleton]
        exact Option.mem_unique hc' hc
      · rw [← h₁.mid.present, (mem_listDue.1 hr).1]
        rfl
      · exact hpost.2.2.done d (List.mem_append.2 hd.symm)
    · refine (hothers fun r hr => ?_).mono fun _ t₂ haside => ⟨h₁.mid.aside haside, hsettled.aside haside,
        .waiting hsettled₀ (fun c hc => ?_) (haside.row.trans hrow₁)⟩
      · rwa [Option.mem_unique hr hrow₁]
      · exact Int.not_le.1 fun hle => hdue ⟨c, hc, hle⟩

end Tick

end Ticks

end Execlaw
