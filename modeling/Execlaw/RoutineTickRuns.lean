import Execlaw.RoutineTicks
/-!
# RoutineTickRuns — what ticks leave of one routine

A tick works on every routine; one routine's rows change only at its own calls.  Its runs are read by their occurrence:
every run has the id of its routine and occurrence.
-/
namespace Execlaw

open Table RoutineStore Interleave

namespace Ticks

open Tick

/-! ## Runs by occurrence -/

variable {ids : RunIds} {t t' : RoutineTables} {i j : String} {d : Int}

def Named (ids : RunIds) (t : RoutineTables) : Prop :=
  ∀ k q, t.runs.row k = some q → ∃ d, q.occurrenceAt = some d ∧ k = ids.id q.routineId d

def at_ (ids : RunIds) (i : String) (t : RoutineTables) (d : Int) : Option RoutineRunRow := t.runs.row (ids.id i d)

theorem Named.of_at (h : Named ids t) {q : RoutineRunRow} (hq : at_ ids i t d = some q) :
    q.routineId = i ∧ q.occurrenceAt = some d := by
  obtain ⟨d', hd', hid⟩ := h _ q hq
  obtain ⟨rfl, rfl⟩ := ids.injective _ _ _ _ hid
  exact ⟨rfl, hd'⟩

theorem Named.runOf_iff (h : Named ids t) {q : RoutineRunRow} : RunOf t i d q ↔ at_ ids i t d = some q := by
  constructor
  · rintro ⟨hmem, rfl, hd⟩
    have hrow := Keyed.row_iff.2 ⟨hmem, rfl⟩
    obtain ⟨d', hd', hid⟩ := h _ q hrow
    rw [hd] at hd'
    cases hd'
    rw [at_, ← hid, hrow]
  · intro hq
    obtain ⟨hroutine, hd⟩ := h.of_at hq
    exact ⟨(Keyed.row_iff.1 hq).1, hroutine, hd⟩

theorem Named.ofOccurrence (h : Named ids t) : ofOccurrence t i d = at_ ids i t d := by
  cases hfind : RoutineStore.ofOccurrence t i d with
  | none =>
    refine (Option.eq_none_iff_forall_not_mem.2 fun q hq => ?_).symm
    obtain ⟨hmem, hroutine, hd⟩ := h.runOf_iff.2 hq
    have hnot := List.find?_eq_none.1 hfind q hmem
    simp [hroutine, hd] at hnot
  | some q =>
    have hq := List.find?_some hfind
    simp only [Bool.and_eq_true, beq_iff_eq] at hq
    exact (h.runOf_iff.1 ⟨List.mem_of_find?_eq_some hfind, hq.1, hq.2⟩).symm

def Idle (ids : RunIds) (i : String) (t : RoutineTables) : Prop := ∀ d q, at_ ids i t d = some q → q.active = false

theorem Named.hasActiveRun (h : Named ids t) (hidle : Idle ids i t) : hasActiveRun i t = false := by
  refine List.any_eq_false.2 fun q hq => ?_
  rw [Bool.and_eq_true, not_and]
  intro hroutine
  obtain ⟨d, -, hid⟩ := h q.id q (Keyed.row_iff.2 ⟨hq, rfl⟩)
  rw [eq_of_beq hroutine] at hid
  have hrow : at_ ids i t d = some q := by rw [at_, ← hid]; exact Keyed.row_iff.2 ⟨hq, rfl⟩
  exact Bool.eq_false_iff.1 (hidle d q hrow)

/-! ## What one store call touches -/

structure TouchesRun (ids : RunIds) (j : String) (d : Int) (t t' : RoutineTables) : Prop where
  routines : t'.routines = t.routines
  frame : ∀ k, k ≠ ids.id j d → t'.runs.row k = t.runs.row k
  named : Named ids t → Named ids t'

structure TouchesRoutine (j : String) (t t' : RoutineTables) : Prop where
  runs : t'.runs = t.runs
  frame : ∀ k, k ≠ j → t'.routines.row k = t.routines.row k
  row : (t'.routines.row j).isSome = (t.routines.row j).isSome

theorem TouchesRoutine.present (h : TouchesRoutine j t t') (k : String) :
    (t'.routines.row k).isSome = (t.routines.row k).isSome := by
  by_cases hk : k = j
  · subst hk
    exact h.row
  · rw [h.frame k hk]

theorem TouchesRoutine.named (h : TouchesRoutine j t t') (hn : Named ids t) : Named ids t' := by
  intro k q hq
  rw [h.runs] at hq
  exact hn k q hq

theorem TouchesRun.refl (ids : RunIds) (j : String) (d : Int) (t : RoutineTables) : TouchesRun ids j d t t :=
  ⟨rfl, fun _ _ => rfl, id⟩

theorem Named.of_map {t' : RoutineTables} (h : Named ids t) (hmap : ∀ k,
    (t'.runs.row k).map (fun q => (q.routineId, q.occurrenceAt)) =
      (t.runs.row k).map fun q => (q.routineId, q.occurrenceAt)) : Named ids t' := by
  intro k q' hq'
  have hmap := hmap k
  rw [hq', Option.map_some] at hmap
  obtain ⟨q, hq, heq⟩ := Option.map_eq_some_iff.1 hmap.symm
  obtain ⟨hroutine, hoccurrence⟩ := Prod.mk.inj heq
  obtain ⟨d, hd, hid⟩ := h k q hq
  exact ⟨d, hoccurrence ▸ hd, hroutine ▸ hid⟩

theorem Named.update (h : Named ids t) (k : String) (c : RunChange)
    (hset : ∀ q, ((c.set q).routineId, (c.set q).occurrenceAt) = (q.routineId, q.occurrenceAt)) :
    Named ids { t with runs := t.runs.update k c } :=
  h.of_map fun k' => t.runs.map_row_update k k' c hset

theorem Named.updateAll (h : Named ids t) (c : RunChange)
    (hset : ∀ q, ((c.set q).routineId, (c.set q).occurrenceAt) = (q.routineId, q.occurrenceAt)) :
    Named ids { t with runs := t.runs.updateAll c } :=
  h.of_map fun k' => t.runs.map_row_updateAll k' c hset

theorem touches_update (j : String) (d : Int) (c : RunChange)
    (hset : ∀ q, ((c.set q).routineId, (c.set q).occurrenceAt) = (q.routineId, q.occurrenceAt)) :
    TouchesRun ids j d t { t with runs := t.runs.update (ids.id j d) c } :=
  ⟨rfl, fun _ hk => Keyed.row_update_of_ne _ hk _, fun h => h.update _ c hset⟩

variable (ids t) in
theorem touches_skip (j : String) (d now : Int) (reason : String) :
    TouchesRun ids j d t (skipRun (ids.id j d) now reason t) :=
  touches_update j d _ fun _ => rfl

variable (ids t) in
theorem touches_claim (j : String) (d now : Int) : TouchesRun ids j d t (claimPendingRun (ids.id j d) now t).2 :=
  touches_update j d _ fun _ => rfl

variable (ids t) in
theorem touches_finish (j : String) (d : Int) (status : RoutineRunStatus) (finishedAt : Int)
    (error conversationId : Option String) :
    TouchesRun ids j d t (finishRun (ids.id j d) status finishedAt error conversationId t) :=
  touches_update j d _ fun _ => rfl

theorem touches_record (j : String) (status : RoutineRunStatus) (now : Int) (next : Option Int) :
    TouchesRoutine j t (recordRun j status now next t) :=
  ⟨rfl, fun _ hk => Keyed.row_update_of_ne _ hk _, by rw [recordRun, Keyed.row_update_self, Option.isSome_map]⟩

theorem touches_advance (j : String) (now : Int) (next : Option Int) :
    TouchesRoutine j t (advanceSchedule j now next t) :=
  ⟨rfl, fun _ hk => Keyed.row_update_of_ne _ hk _, by rw [advanceSchedule, Keyed.row_update_self, Option.isSome_map]⟩

theorem insert_spec (hn : Named ids t) {q₀ : RoutineRow} (hj : t.routines.row j = some q₀) (d now : Int) :
    (insertRunForOccurrence j d now (ids.id j d) t).1 = .ok (ids.id j d) ∧
      TouchesRun ids j d t (insertRunForOccurrence j d now (ids.id j d) t).2 ∧
        (((at_ ids j t d).isSome = true ∧ (insertRunForOccurrence j d now (ids.id j d) t).2 = t) ∨
          at_ ids j t d = none ∧ at_ ids j (insertRunForOccurrence j d now (ids.id j d) t).2 d =
            some (newRun (ids.id j d) q₀ d now)) := by
  obtain rfl : q₀.id = j := Keyed.key_of_row hj
  unfold insertRunForOccurrence
  rw [hn.ofOccurrence, hj]
  cases hat : at_ ids q₀.id t d with
  | some q =>
    have hid : q.id = ids.id q₀.id d := Keyed.key_of_row hat
    exact ⟨congrArg _ hid, .refl _ _ _ _, .inl ⟨rfl, rfl⟩⟩
  | none =>
    obtain ⟨runs, hinsert⟩ : ∃ runs, t.runs.insert? (newRun (ids.id q₀.id d) q₀ d now) trivial = some runs := by
      refine Option.ne_none_iff_exists'.1 fun hnone => ?_
      have hsome := Keyed.insert?_eq_none.1 hnone
      rw [show t.runs.row (newRun (ids.id q₀.id d) q₀ d now).id = none from hat] at hsome
      cases hsome
    obtain ⟨-, hrow⟩ := Keyed.insert?_eq_some hinsert
    have hframe : ∀ k, k ≠ ids.id q₀.id d → runs.row k = t.runs.row k := by
      intro k hk
      rw [hrow, if_neg (fun h => hk h.symm), Option.or_none]
    have hnew : runs.row (ids.id q₀.id d) = some (newRun (ids.id q₀.id d) q₀ d now) := by
      rw [hrow, show t.runs.row (ids.id q₀.id d) = none from hat, Option.none_or]
      exact if_pos rfl
    simp only [hinsert]
    refine ⟨trivial, ⟨rfl, hframe, fun _ k q hq => ?_⟩, .inr ⟨trivial, hnew⟩⟩
    by_cases hk : k = ids.id q₀.id d
    · subst hk
      cases hnew.symm.trans hq
      exact ⟨d, rfl, rfl⟩
    · exact hn k q ((hframe k hk).symm.trans hq)

/-! ## Other routines -/

/-- **A tick at work on other routines**: since `t` nothing of the routine changed, and no routine is gone. -/
structure Aside (ids : RunIds) (i : String) (t t' : RoutineTables) : Prop where
  named : Named ids t'
  present : ∀ k, (t'.routines.row k).isSome = (t.routines.row k).isSome
  row : t'.routines.row i = t.routines.row i
  runs : ∀ d, at_ ids i t' d = at_ ids i t d

namespace Aside

variable {t'' : RoutineTables} (hji : j ≠ i)

theorem refl (h : Named ids t) : Aside ids i t t := ⟨h, fun _ => rfl, rfl, fun _ => rfl⟩

include hji

theorem run (h : Aside ids i t t') (htouches : TouchesRun ids j d t' t'') : Aside ids i t t'' := by
  refine ⟨htouches.named h.named, fun k => ?_, ?_, fun d' => ?_⟩
  · rw [htouches.routines]
    exact h.present k
  · rw [htouches.routines, h.row]
  · rw [at_, htouches.frame _ fun heq => hji (ids.injective _ _ _ _ heq).1.symm]
    exact h.runs d'

theorem routine (h : Aside ids i t t') (htouches : TouchesRoutine j t' t'') : Aside ids i t t'' := by
  refine ⟨htouches.named h.named, fun k => ?_, ?_, fun d => ?_⟩
  · rw [htouches.present]
    exact h.present k
  · rw [htouches.frame i hji.symm, h.row]
  · rw [at_, htouches.runs]
    exact h.runs d

theorem supersede (h : Aside ids i t t') (keep now : Int) : Aside ids i t (supersedeQueuedRuns j keep now t') := by
  refine ⟨h.named.updateAll _ fun _ => rfl, h.present, h.row, fun d => ?_⟩
  rw [← h.runs d, at_]
  rcases t'.runs.row_updateAll_cases (skipChange (fun r => queued j r && r.occurrenceAt.any (fun o => o != keep)) now
    replacedReason) (ids.id i d) with heq | ⟨q, hq, htakes, -⟩
  · exact heq
  · obtain ⟨hqueued, -⟩ := Bool.and_eq_true_iff.1 htakes
    exact absurd ((RoutineSystem.queued_iff.1 hqueued).1.symm.trans (h.named.of_at hq).1) hji

end Aside

section Other

variable {env : TickEnv} {routine : RoutineRow} {next : Option Int} (hj : routine.id ≠ i)
  (hpresent : (t.routines.row routine.id).isSome = true)
include hj

theorem other_fireRun (d : Int) (h : Aside env.ids i t t') :
    (fireRun env routine next (env.ids.id routine.id d)).Holds (Aside env.ids i t) (fun _ => Aside env.ids i t) t' := by
  have hclaim := h.run hj (touches_claim _ _ routine.id d env.now)
  refine Prog.Holds.bind (Prog.holds_atomic (Q := fun _ => Aside env.ids i t) hclaim hclaim) fun claimed t₁ h₁ => ?_
  cases claimed with
  | false => exact Prog.holds_pure h₁
  | true =>
    have hfinish := h₁.run hj (touches_finish _ _ routine.id d (env.dispatch (env.ids.id routine.id d)).status.status
      (env.dispatch (env.ids.id routine.id d)).finishedAt (env.dispatch (env.ids.id routine.id d)).error
      (env.dispatch (env.ids.id routine.id d)).conversationId)
    refine Prog.Holds.bind (Prog.holds_atomic (Q := fun _ => Aside env.ids i t) hfinish hfinish) fun _ t₂ h₂ => ?_
    have hrecord := h₂.routine hj (touches_record routine.id (env.dispatch (env.ids.id routine.id d)).status.status
      env.now next)
    exact Prog.holds_atomic hrecord hrecord

include hpresent

theorem other_insertRun (d : Int) (h : Aside env.ids i t t') :
    (insertRun env routine d).Holds (Aside env.ids i t)
      (fun inserted t' => inserted = .ok (env.ids.id routine.id d) ∧ Aside env.ids i t t') t' := by
  obtain ⟨q₀, hq₀⟩ := Option.isSome_iff_exists.1 ((h.present _).trans hpresent)
  obtain ⟨hok, htouches, -⟩ := insert_spec h.named hq₀ d env.now
  exact Prog.holds_atomic (h.run hj htouches) ⟨hok, h.run hj htouches⟩

variable (env next) in
theorem other_fireOne (d : Int) (existing : Option String)
    (hexisting : ∀ runId, existing = some runId → ∃ d', runId = env.ids.id routine.id d') (h : Aside env.ids i t t') :
    (fireOne env routine d next existing).Holds (Aside env.ids i t) (fun _ => Aside env.ids i t) t' := by
  cases existing with
  | some runId =>
    obtain ⟨d', rfl⟩ := hexisting runId rfl
    exact Prog.Holds.bind (other_fireRun hj d' h) fun _ _ h₁ => Prog.holds_pure h₁
  | none =>
    refine Prog.Holds.bind (other_insertRun hj hpresent d h) ?_
    rintro inserted t₁ ⟨rfl, h₁⟩
    exact Prog.Holds.bind (other_fireRun hj d h₁) fun _ _ h₂ => Prog.holds_pure h₂

theorem other_recordSkipped (d : Int) (reason : String) (h : Aside env.ids i t t') :
    (recordSkipped env routine d reason).Holds (Aside env.ids i t)
      (fun result t' => result = .ok () ∧ Aside env.ids i t t') t' := by
  refine Prog.Holds.bind (other_insertRun hj hpresent d h) ?_
  rintro inserted t₁ ⟨rfl, h₁⟩
  have hskip := h₁.run hj (touches_skip _ _ routine.id d env.now reason)
  exact Prog.Holds.bind (Prog.holds_atomic (Q := fun _ => Aside env.ids i t) hskip hskip) fun _ _ h₂ =>
    Prog.holds_pure ⟨rfl, h₂⟩

theorem other_skipAll : ∀ (ds : List Int) {t' : RoutineTables}, Aside env.ids i t t' →
    (skipAll env routine ds).Holds (Aside env.ids i t) (fun result t' => result = .ok () ∧ Aside env.ids i t t') t'
  | [], _, h => Prog.holds_pure ⟨rfl, h⟩
  | d :: ds, _, h => by
    refine Prog.Holds.bind (other_recordSkipped hj hpresent d missedReason h) ?_
    rintro result t₁ ⟨rfl, h₁⟩
    exact other_skipAll ds h₁

theorem other_executeOne (active : Bool) (d : Int) (h : Aside env.ids i t t') :
    (executeOne env routine active d).Holds (Aside env.ids i t)
      (fun result t' => result = .ok () ∧ Aside env.ids i t t') t' := by
  have hqueue : ∀ {t₁}, Aside env.ids i t t₁ → Prog.Holds (Aside env.ids i t)
      (fun result t' => result = .ok () ∧ Aside env.ids i t t') (do
        let inserted ← insertRun env routine d
        pure (inserted.map fun _ => ())) t₁ := by
    intro t₁ h₁
    refine Prog.Holds.bind (other_insertRun hj hpresent d h₁) ?_
    rintro inserted t₂ ⟨rfl, h₂⟩
    exact Prog.holds_pure ⟨rfl, h₂⟩
  unfold executeOne
  split
  · split
    · exact other_recordSkipped hj hpresent d overlapReason h
    · have hsupersede := h.supersede hj d env.now
      exact Prog.Holds.bind (Prog.holds_atomic (Q := fun _ => Aside env.ids i t) hsupersede hsupersede)
        fun _ _ h₁ => hqueue h₁
    · exact hqueue h
  · exact Prog.Holds.bind (other_fireOne env _ hj hpresent d none (fun _ h => by cases h) h) fun _ _ h₁ =>
      Prog.holds_pure ⟨rfl, h₁⟩

theorem other_executeAll (active : Bool) : ∀ (ds : List Int) {t' : RoutineTables}, Aside env.ids i t t' →
    (executeAll env routine active ds).Holds (Aside env.ids i t)
      (fun result t' => result = .ok () ∧ Aside env.ids i t t') t'
  | [], _, h => Prog.holds_pure ⟨rfl, h⟩
  | d :: ds, _, h => by
    refine Prog.Holds.bind (other_executeOne hj hpresent active d h) ?_
    rintro result t₁ ⟨rfl, h₁⟩
    exact other_executeAll active ds h₁

variable (env) in
theorem other_tickRoutine (h : Aside env.ids i t t') : (tickRoutine env routine).Holds (Aside env.ids i t)
    (fun result t' => result = .ok () ∧ Aside env.ids i t t') t' := by
  refine Prog.Holds.bind (Prog.holds_read (Q := fun _ => Aside env.ids i t) h h) fun active t₁ h₁ => ?_
  refine Prog.Holds.bind (other_skipAll hj hpresent _ h₁) ?_
  rintro result t₂ ⟨rfl, h₂⟩
  refine Prog.Holds.bind (other_executeAll hj hpresent active _ h₂) ?_
  rintro result t₃ ⟨rfl, h₃⟩
  have hadvance := h₃.routine hj (touches_advance routine.id env.now (routine.nextRunAfter env.cal env.now))
  exact Prog.Holds.bind (Prog.holds_atomic (Q := fun _ => Aside env.ids i t) hadvance hadvance) fun _ _ h₄ =>
    Prog.holds_pure ⟨rfl, h₄⟩

end Other

/-! ## The schedule of a routine -/

structure SameDefinition (r r' : RoutineRow) : Prop where
  id : r'.id = r.id
  enabled : r'.enabled = r.enabled
  scheduleCron : r'.scheduleCron = r.scheduleCron
  timezone : r'.timezone = r.timezone
  missedRunPolicy : r'.missedRunPolicy = r.missedRunPolicy
  missedRunLimit : r'.missedRunLimit = r.missedRunLimit
  overlapPolicy : r'.overlapPolicy = r.overlapPolicy

section Schedule

variable {cal : Calendar} {r r' : RoutineRow} {now c n : Int} {ds : List Int} {tip : Option Int}

theorem SameDefinition.refl (r : RoutineRow) : SameDefinition r r := ⟨rfl, rfl, rfl, rfl, rfl, rfl, rfl⟩

theorem SameDefinition.trans {r'' : RoutineRow} (h : SameDefinition r r') (h' : SameDefinition r' r'') :
    SameDefinition r r'' :=
  ⟨h'.id.trans h.id, h'.enabled.trans h.enabled, h'.scheduleCron.trans h.scheduleCron, h'.timezone.trans h.timezone,
    h'.missedRunPolicy.trans h.missedRunPolicy, h'.missedRunLimit.trans h.missedRunLimit,
    h'.overlapPolicy.trans h.overlapPolicy⟩

theorem SameDefinition.nextFire (h : SameDefinition r r') : r'.nextFire cal = r.nextFire cal := by
  funext after
  rw [RoutineRow.nextFire, h.scheduleCron, h.timezone, RoutineRow.nextFire]

theorem SameDefinition.parses (h : SameDefinition r r') : r'.parses cal = r.parses cal := by
  rw [RoutineRow.parses, h.scheduleCron, h.timezone, RoutineRow.parses]

theorem increasing_nextFire (cal : Calendar) (r : RoutineRow) : Recurrence.Increasing (r.nextFire cal) :=
  fun d e h => cal.increasing r.scheduleCron r.timezone d e h

theorem nextRunAfter_eq (hparses : r.parses cal = true) (hvalid : cal.valid now = true) :
    r.nextRunAfter cal now = r.nextFire cal now := by
  rw [RoutineRow.nextRunAfter, hparses, hvalid]
  rfl

theorem nextFire_eq_tip (hcal : cal.Cron) : ∀ {ds : List Int} {c : Int}, c ≤ now →
    Recurrence.Follows (r.nextFire cal) (some c) ds tip → (∀ d ∈ ds, d ≤ now) → (∀ t, tip = some t → now < t) →
      r.nextFire cal now = tip
  | [], c, hc, hds, _, htip => absurd (htip c hds.of_nil) (by omega)
  | [d], c, hc, hds, _, htip => by
    obtain ⟨hd, htail⟩ := hds.of_cons
    obtain rfl := Option.some.inj hd
    cases hnext : r.nextFire cal c with
    | none =>
      rw [htail.of_nil, hnext]
      exact hcal.last _ _ c now hnext hc
    | some n =>
      have htip' := htail.of_nil
      rw [htip', hnext]
      exact hcal.least _ _ c now n hnext hc (htip n (htip'.trans hnext))
  | d :: e :: ds, c, hc, hds, hle, htip => by
    obtain ⟨-, htail⟩ := hds.of_cons
    obtain ⟨he, -⟩ := htail.of_cons
    rw [he] at htail
    exact nextFire_eq_tip hcal (hle e (by simp)) htail (fun d hd => hle d (List.mem_cons_of_mem _ hd)) htip

theorem valid_of_instant (hcal : cal.Cron) (hc : cal.valid c = true)
    (h : Recurrence.Instant (r.nextFire cal) (some c) n) : cal.valid n = true := by
  obtain ⟨ds, hds⟩ := h
  generalize hstart : some c = start at hds
  generalize htip : some n = tip at hds
  induction hds generalizing c with
  | nil =>
    cases hstart.trans htip.symm
    exact hc
  | @cons d ds tip h ih =>
    obtain rfl := Option.some.inj hstart
    cases hnext : r.nextFire cal c with
    | none =>
      rw [hnext] at h
      subst htip
      cases h
    | some e => exact ih (hcal.valid _ _ c e hnext) hnext.symm htip

theorem dueFrom_eq_take (hcal : cal.Cron) : ∀ {ds : List Int} {c : Int} (limit : Nat), cal.valid c = true →
    Recurrence.Follows (r.nextFire cal) (some c) ds tip → (∀ d ∈ ds, d ≤ now) → (∀ t, tip = some t → now < t) →
      r.dueFrom cal now limit c = ds.take limit
  | ds, c, 0, _, _, _, _ => by rw [RoutineRow.dueFrom, List.take_zero]
  | [], c, limit + 1, _, hds, _, htip => by
    have hlt := htip c hds.of_nil
    rw [RoutineRow.dueFrom, if_neg (by omega), List.take_nil]
  | d :: ds, c, limit + 1, hc, hds, hle, htip => by
    obtain ⟨hd, htail⟩ := hds.of_cons
    obtain rfl := Option.some.inj hd
    have hdue := hle c List.mem_cons_self
    rw [RoutineRow.dueFrom, if_pos hdue, if_pos hc, List.take_succ_cons]
    cases hnext : r.nextFire cal c with
    | none =>
      cases ds with
      | nil => rw [List.take_nil]
      | cons e ds =>
        rw [hnext] at htail
        cases htail.of_cons.1
    | some e =>
      have hlt := increasing_nextFire cal r c e hnext
      rw [hnext] at htail
      simp only [if_neg (by omega : ¬ e ≤ c)]
      rw [dueFrom_eq_take hcal limit (hcal.valid _ _ c e hnext) htail
        (fun d hd => hle d (List.mem_cons_of_mem _ hd)) htip]

theorem dueOccurrences_of_coalesce (hpolicy : r.missedRunPolicy = .coalesce) (hc : r.nextRunAt = some c)
    (hdue : c ≤ now) : r.dueOccurrences cal now = [c] := by
  simp only [RoutineRow.dueOccurrences, hc]
  rw [if_pos ⟨hpolicy, hdue⟩]

theorem dueOccurrences_eq (hcal : cal.Cron) (hparses : r.parses cal = true) (hpolicy : r.missedRunPolicy ≠ .coalesce)
    (hc : r.nextRunAt = some c) (hvalid : cal.valid c = true)
    (hds : Recurrence.Follows (r.nextFire cal) (some c) ds tip) (hle : ∀ d ∈ ds, d ≤ now)
    (htip : ∀ t, tip = some t → now < t) (hlength : ds.length ≤ 1000) : r.dueOccurrences cal now = ds := by
  simp only [RoutineRow.dueOccurrences, hc]
  rw [if_neg fun h => hpolicy h.1, if_pos hparses, dueFrom_eq_take hcal 1000 hvalid hds hle htip,
    List.take_of_length_le hlength]

theorem mem_dueOccurrences {d : Int} (hcal : cal.Cron) (hparses : r.parses cal = true) (hvalid : ∀ c, r.nextRunAt = some c →
    cal.valid c = true) (hds : Recurrence.Follows (r.nextFire cal) r.nextRunAt ds tip) (hle : ∀ d ∈ ds, d ≤ now)
    (htip : ∀ t, tip = some t → now < t) (h : d ∈ r.dueOccurrences cal now) : d ∈ ds := by
  unfold RoutineRow.dueOccurrences at h
  cases hc : r.nextRunAt with
  | none => simp [hc] at h
  | some c =>
    rw [hc] at hds
    simp only [hc, hparses, if_true] at h
    split at h
    · next hcoalesce =>
      obtain rfl := List.mem_singleton.1 h
      cases ds with
      | nil =>
        have hlt := htip d hds.of_nil
        omega
      | cons a ds =>
        cases hds.of_cons.1
        exact List.mem_cons_self
    · rw [dueFrom_eq_take hcal 1000 (hvalid c hc) hds hle htip] at h
      exact List.mem_of_mem_take h

end Schedule

end Ticks

end Execlaw
