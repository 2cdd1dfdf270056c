import Execlaw.RoutineTickRuns
/-!
# RoutineTickCells — what a tick leaves of its own routine

A tick either fires the routine's pending runs again, or plans its due occurrences; both are seen through `Mid`, what
holds wherever the tick is cut off.
-/
namespace Execlaw

open Table RoutineStore Interleave

namespace Ticks

open Tick

/-! ## The plan -/

section Plan

variable {cal : Calendar} {r : RoutineRow} {now c d : Int} {ds : List Int}

theorem mem_plan (policy : MissedRunPolicy) (limit : Nat) (hpolicy : policy ≠ .coalesce) :
    (d ∈ (planDueOccurrences policy limit now ds).execute ∨ d ∈ (planDueOccurrences policy limit now ds).skip) ↔
      d ∈ ds ∧ d ≤ now := by
  have hdue : d ∈ ds ∧ d ≤ now ↔ d ∈ ds.filter (fun at_ => decide (at_ ≤ now)) := by simp
  rw [hdue]
  unfold planDueOccurrences
  generalize ds.filter (fun at_ => decide (at_ ≤ now)) = due
  have hsplit : d ∈ due ↔ d ∈ due.filter (ordinary now) ∨ d ∈ due.filter (fun at_ => !ordinary now at_) := by
    cases h : ordinary now d <;> simp [h]
  cases policy with
  | coalesce => exact absurd rfl hpolicy
  | skip => simp only [mem_orderBy, hsplit]
  | catchUp =>
    have hcut (missed : List Int) :
        d ∈ missed ↔ d ∈ missed.take (clampLimit limit) ∨ d ∈ missed.drop (clampLimit limit) := by
      rw [← List.mem_append, List.take_append_drop]
    simp only [mem_orderBy, List.mem_append]
    rw [hsplit, hcut (due.filter fun at_ => !ordinary now at_)]
    tauto

theorem mem_of_plan (policy : MissedRunPolicy) (limit : Nat)
    (h : d ∈ (planDueOccurrences policy limit now ds).execute ∨ d ∈ (planDueOccurrences policy limit now ds).skip) :
    d ∈ ds ∧ d ≤ now := by
  by_cases hpolicy : policy = .coalesce
  · subst hpolicy
    suffices hdue : d ∈ ds.filter (fun at_ => decide (at_ ≤ now)) by simpa using hdue
    unfold planDueOccurrences at h
    generalize ds.filter (fun at_ => decide (at_ ≤ now)) = due at h ⊢
    simp only at h
    split at h
    · exact (List.mem_filter.1 ((mem_orderBy id).1 (h.resolve_right nofun))).1
    · simp at h
    · next latest hlatest =>
      rcases h with h | h
      · exact List.mem_singleton.1 h ▸ List.mem_of_getLast? hlatest
      · exact (List.takeWhile_sublist _).subset ((mem_orderBy id).1 h)
  · exact (mem_plan policy limit hpolicy).1 h

theorem plan_disjoint (hnd : ds.Nodup) (policy : MissedRunPolicy) (limit : Nat) (hpolicy : policy ≠ .coalesce)
    (hexecute : d ∈ (planDueOccurrences policy limit now ds).execute) :
    d ∉ (planDueOccurrences policy limit now ds).skip := by
  intro hskip
  have hnd' := hnd.filter (fun at_ => decide (at_ ≤ now))
  unfold planDueOccurrences at hexecute hskip
  generalize ds.filter (fun at_ => decide (at_ ≤ now)) = due at hnd' hexecute hskip
  cases policy with
  | coalesce => exact absurd rfl hpolicy
  | skip =>
    simp only [mem_orderBy, List.mem_filter] at hexecute hskip
    simp [hexecute.2] at hskip
  | catchUp =>
    simp only [mem_orderBy, List.mem_append] at hexecute hskip
    rcases hexecute with htake | hordinary
    · have hmissed := (hnd'.filter (fun at_ => !ordinary now at_))
      rw [← List.take_append_drop (clampLimit limit) (due.filter _), List.nodup_append] at hmissed
      exact hmissed.2.2 d htake d hskip rfl
    · have hmissed := (List.mem_filter.1 (List.mem_of_mem_drop hskip)).2
      simp [(List.mem_filter.1 hordinary).2] at hmissed

theorem plan_coalesce (limit : Nat) (hc : c ≤ now) : planDueOccurrences .coalesce limit now [c] = ⟨[c], []⟩ := by
  unfold planDueOccurrences
  have hdue : [c].filter (fun at_ => decide (at_ ≤ now)) = [c] :=
    List.filter_eq_self.2 fun d hd => decide_eq_true (List.mem_singleton.1 hd ▸ hc)
  rw [hdue]
  cases h : ordinary now c with
  | true => simp [h, orderBy]
  | false => simp [h]

end Plan

/-! ## Where a tick may be cut off -/

def Executed (q : RoutineRunRow) : Prop := q.status = .success ∨ q.status = .failed

theorem executed_status (s : DispatchStatus) : s.status = .success ∨ s.status = .failed := by
  cases s
  · exact .inl rfl
  · exact .inr rfl

section Mid

variable {env : TickEnv} {t₀ t t' : RoutineTables} {r₀ routine : RoutineRow} {d : Int}

/-- **One occurrence in a tick**: its run is as it was, or was pending and is fired, or is made as the plan says. -/
inductive Cell (env : TickEnv) (r₀ : RoutineRow) (d : Int) : Option RoutineRunRow → Option RoutineRunRow → Prop
  | same (q : Option RoutineRunRow) : Cell env r₀ d q q
  | fired {q q' : RoutineRunRow} (h : q.status = .pending) (h' : q'.status ≠ .skipped) : Cell env r₀ d (some q) (some q')
  | made {q' : RoutineRunRow}
      (hplan : d ∈ (r₀.plan env.cal env.now).execute ∨ d ∈ (r₀.plan env.cal env.now).skip)
      (hskip : q'.status = .skipped → d ∈ (r₀.plan env.cal env.now).skip)
      (hexecute : Executed q' → d ∈ (r₀.plan env.cal env.now).execute) : Cell env r₀ d none (some q')

theorem Cell.change {q₀ : Option RoutineRunRow} {q q' : RoutineRunRow} (h : Cell env r₀ d q₀ (some q))
    (hpending : q.status = .pending) (hskip : q'.status = .skipped → q₀ = none ∧ d ∈ (r₀.plan env.cal env.now).skip)
    (hexecute : Executed q' → q₀ = none → d ∈ (r₀.plan env.cal env.now).execute) : Cell env r₀ d q₀ (some q') := by
  cases h with
  | same => exact .fired hpending fun h => by cases (hskip h).1
  | fired h _ => exact .fired h fun h => by cases (hskip h).1
  | made hplan _ _ => exact .made hplan (fun h => (hskip h).2) (fun h => hexecute h rfl)

def Busy (env : TickEnv) (r₀ : RoutineRow) (t : RoutineTables) : Prop :=
  (∃ d, (at_ env.ids r₀.id t d).isSome = true) ∨ ∃ c, r₀.nextRunAt = some c ∧ c ≤ env.now

/-- **What holds wherever the tick of a routine is cut off**; a coalesced window is left once its run was executed. -/
structure Mid (env : TickEnv) (t₀ : RoutineTables) (r₀ : RoutineRow) (t : RoutineTables) : Prop where
  named : Named env.ids t
  present : ∀ k, (t.routines.row k).isSome = (t₀.routines.row k).isSome
  row : ∃ r, t.routines.row r₀.id = some r ∧ SameDefinition r₀ r ∧
    (r.nextRunAt = r₀.nextRunAt ∨ r.nextRunAt = r₀.nextFire env.cal env.now ∧ Busy env r₀ t ∧
      (r₀.missedRunPolicy = .coalesce →
        ∀ c, r₀.nextRunAt = some c → ∃ q, at_ env.ids r₀.id t c = some q ∧ q.status ≠ .pending))
  cells : ∀ d, Cell env r₀ d (at_ env.ids r₀.id t₀ d) (at_ env.ids r₀.id t d)

def Settled (ids : RunIds) (i : String) (t : RoutineTables) : Prop := ∀ d q, at_ ids i t d = some q → q.status ≠ .pending

theorem Settled.idle {ids : RunIds} {i : String} (h : Settled ids i t) : Idle ids i t :=
  fun d q hq => RoutineSystem.inactive_of_status (h d q hq)

def Moved (env : TickEnv) (r₀ : RoutineRow) (t : RoutineTables) : Prop :=
  ∃ r, t.routines.row r₀.id = some r ∧ r.nextRunAt = r₀.nextFire env.cal env.now

theorem mid_self (hn : Named env.ids t₀) (hrow : t₀.routines.row r₀.id = some r₀) : Mid env t₀ r₀ t₀ :=
  ⟨hn, fun _ => rfl, ⟨r₀, hrow, .refl r₀, .inl rfl⟩, fun _ => .same _⟩

theorem Mid.aside (h : Mid env t₀ r₀ t) (haside : Aside env.ids r₀.id t t') : Mid env t₀ r₀ t' := by
  refine ⟨haside.named, fun k => (haside.present k).trans (h.present k), ?_, fun d => ?_⟩
  · rw [haside.row]
    obtain ⟨r, hr, hsame, hnext | ⟨hnext, hbusy, hwindow⟩⟩ := h.row
    · exact ⟨r, hr, hsame, .inl hnext⟩
    · refine ⟨r, hr, hsame, .inr ⟨hnext, ?_, fun hpolicy c hc => ?_⟩⟩
      · exact hbusy.imp_left fun ⟨d, hd⟩ => ⟨d, by rwa [haside.runs]⟩
      · rw [haside.runs]
        exact hwindow hpolicy c hc
  · rw [haside.runs]
    exact h.cells d

theorem Mid.isSome (h : Mid env t₀ r₀ t) (hd : (at_ env.ids r₀.id t₀ d).isSome = true) :
    (at_ env.ids r₀.id t d).isSome = true := by
  have hcell := h.cells d
  generalize at_ env.ids r₀.id t₀ d = q₀ at hcell hd
  generalize at_ env.ids r₀.id t d = q at hcell
  cases hcell with
  | same => exact hd
  | fired | made => rfl

theorem Mid.run (h : Mid env t₀ r₀ t) (htouches : TouchesRun env.ids r₀.id d t t')
    (hcell : Cell env r₀ d (at_ env.ids r₀.id t₀ d) (at_ env.ids r₀.id t' d))
    (hsome : (at_ env.ids r₀.id t' d).isSome = true)
    (hkeep : ∀ q, at_ env.ids r₀.id t d = some q → q.status = .pending) : Mid env t₀ r₀ t' := by
  have hother : ∀ d', d' ≠ d → at_ env.ids r₀.id t' d' = at_ env.ids r₀.id t d' := fun d' hd' =>
    htouches.frame _ fun heq => hd' (env.ids.injective _ _ _ _ heq).2
  refine ⟨htouches.named h.named, fun k => ?_, ?_, fun d' => ?_⟩
  · rw [htouches.routines]
    exact h.present k
  · rw [htouches.routines]
    obtain ⟨r, hr, hsame, hnext | ⟨hnext, -, hwindow⟩⟩ := h.row
    · exact ⟨r, hr, hsame, .inl hnext⟩
    · refine ⟨r, hr, hsame, .inr ⟨hnext, .inl ⟨d, hsome⟩, fun hpolicy c hc => ?_⟩⟩
      obtain ⟨q, hq, hstatus⟩ := hwindow hpolicy c hc
      rw [hother c fun heq => hstatus (hkeep q (heq ▸ hq))]
      exact ⟨q, hq, hstatus⟩
  · by_cases hd' : d' = d
    · exact hd' ▸ hcell
    · rw [hother d' hd']
      exact h.cells d'

theorem Mid.advance (h : Mid env t₀ r₀ t) {c : RoutineChange} (htakes : ∀ r, c.takes r = true)
    (hset : ∀ r, SameDefinition r (c.set r) ∧ (c.set r).nextRunAt = r₀.nextFire env.cal env.now)
    (htouches : TouchesRoutine r₀.id t t') (ht' : t'.routines = t.routines.update r₀.id c) (hbusy : Busy env r₀ t)
    (hwindow : r₀.missedRunPolicy = .coalesce → ∀ c, r₀.nextRunAt = some c →
      ∃ q, at_ env.ids r₀.id t c = some q ∧ q.status ≠ .pending) : Mid env t₀ r₀ t' ∧ Moved env r₀ t' := by
  obtain ⟨r, hr, hsame, -⟩ := h.row
  have hr' : t'.routines.row r₀.id = some (c.set r) := by
    rw [ht']
    exact Keyed.row_update_of_changed hr (htakes r)
  have hat : ∀ d, at_ env.ids r₀.id t' d = at_ env.ids r₀.id t d := fun d => by rw [at_, htouches.runs, at_]
  have hnext := (hset r).2
  refine ⟨⟨htouches.named h.named, fun k => (htouches.present k).trans (h.present k), ?_, fun d => ?_⟩, _, hr', hnext⟩
  · refine ⟨_, hr', hsame.trans (hset r).1, .inr ⟨hnext, ?_, fun hpolicy c hc => ?_⟩⟩
    · refine hbusy.imp_left ?_
      rintro ⟨d, hd⟩
      exact ⟨d, by rwa [hat]⟩
    · rw [hat]
      exact hwindow hpolicy c hc
  · rw [hat]
    exact h.cells d

end Mid

/-! ## One occurrence -/

/-- The run of an occurrence is fired if it is pending; nothing else of the routine changes. -/
structure Fired (env : TickEnv) (t₀ : RoutineTables) (r₀ : RoutineRow) (d : Int) (t t' : RoutineTables) : Prop where
  mid : Mid env t₀ r₀ t'
  settled : ∀ q, at_ env.ids r₀.id t' d = some q → q.status ≠ .pending
  isSome : (at_ env.ids r₀.id t d).isSome = true → (at_ env.ids r₀.id t' d).isSome = true
  frame : ∀ d', d' ≠ d → at_ env.ids r₀.id t' d' = at_ env.ids r₀.id t d'
  moved : ∀ q, at_ env.ids r₀.id t d = some q → q.status = .pending → Moved env r₀ t'
  still : (∀ q, at_ env.ids r₀.id t d = some q → q.status ≠ .pending) → t' = t

section Own

variable {env : TickEnv} {t₀ t t' : RoutineTables} {r₀ routine : RoutineRow} {next : Option Int} {d : Int}

theorem claim_of_pending {ids : RunIds} {i : String} (hn : Named ids t) (hidle : Idle ids i t) {q : RoutineRunRow}
    (hq : at_ ids i t d = some q) (hpending : q.status = .pending) (now : Int) :
    (claimPendingRun (ids.id i d) now t).1 = true ∧
      at_ ids i (claimPendingRun (ids.id i d) now t).2 d = some { q with startedAt := some now } := by
  have hstarted : q.startedAt.isNone = true := by
    have hinactive := hidle d q hq
    rw [RoutineSystem.active_of_pending hpending, Option.isSome_eq_false_iff] at hinactive
    exact hinactive
  have hothers : t.runs.rows.any (fun q' => q'.routineId == q.routineId && q'.active && q'.id != q.id) = false := by
    refine List.any_eq_false.2 fun q' hq' h => ?_
    rw [(hn.of_at hq).1, Bool.and_eq_true] at h
    exact List.any_eq_false.1 (hn.hasActiveRun hidle) q' hq' h.1
  have htakes : (claimChange t now).takes q = true := by
    simp only [claimChange, hpending, hstarted, hothers]
    rfl
  exact ⟨Keyed.changed_iff.2 ⟨q, hq, htakes⟩, Keyed.row_update_of_changed hq htakes⟩

theorem claim_of_settled {k : String} (h : ∀ q, t.runs.row k = some q → q.status ≠ .pending) (now : Int) :
    claimPendingRun k now t = (false, t) := by
  have hchanged : t.runs.changed k (claimChange t now) = false := by
    refine Bool.eq_false_iff.2 fun hchanged => ?_
    obtain ⟨q, hq, htakes⟩ := Keyed.changed_iff.1 hchanged
    simp only [claimChange, Bool.and_eq_true, beq_iff_eq] at htakes
    exact h q hq htakes.1.1
  rw [claimPendingRun, hchanged, Keyed.update_eq_self hchanged]

variable (hid : routine.id = r₀.id) (hnext : next = r₀.nextFire env.cal env.now)
include hid hnext

theorem own_fireRun (h : Mid env t₀ r₀ t) (hidle : Idle env.ids r₀.id t)
    (hfire : ∀ q, at_ env.ids r₀.id t d = some q → q.status = .pending →
      (at_ env.ids r₀.id t₀ d = none → d ∈ (r₀.plan env.cal env.now).execute) ∧
        (r₀.missedRunPolicy = .coalesce → r₀.nextRunAt = some d)) :
    (fireRun env routine next (env.ids.id r₀.id d)).Holds (Mid env t₀ r₀) (fun _ => Fired env t₀ r₀ d t) t := by
  unfold fireRun
  rw [hid, hnext]
  generalize hk : env.ids.id r₀.id d = k
  generalize env.dispatch k = dispatch
  by_cases hpending : ∀ q, at_ env.ids r₀.id t d = some q → q.status ≠ .pending
  · -- the claim takes nothing
    have hclaim := claim_of_settled (k := k) (fun q hq => hpending q (by rw [at_, hk, hq])) env.now
    refine Prog.Holds.bind (M := fun claimed t' => claimed = false ∧ t' = t)
      (Prog.holds_atomic (by rw [hclaim]; exact h) (by rw [hclaim]; exact ⟨rfl, rfl⟩)) ?_
    rintro claimed t₁ ⟨rfl, rfl⟩
    exact Prog.holds_pure ⟨h, hpending, id, fun _ _ => rfl, fun q hq hq' => absurd hq' (hpending q hq), fun _ => rfl⟩
  · push Not at hpending
    obtain ⟨q, hq, hstatus⟩ := hpending
    obtain ⟨hplan, hwindow⟩ := hfire q hq hstatus
    obtain ⟨htaken, hq₁⟩ := claim_of_pending h.named hidle hq hstatus env.now
    have htouch₁ := touches_claim env.ids t r₀.id d env.now
    rw [hk] at htaken hq₁ htouch₁
    have h₁ : Mid env t₀ r₀ (claimPendingRun k env.now t).2 := by
      refine h.run htouch₁ ?_ (by rw [hq₁]; rfl) fun q' hq' => Option.mem_unique hq hq' ▸ hstatus
      rw [hq₁]
      refine (hq ▸ h.cells d).change hstatus (fun h => ?_) fun h _ => ?_
      · cases hstatus.symm.trans h
      · rcases h with h | h <;> cases hstatus.symm.trans h
    refine Prog.Holds.bind (M := fun claimed t' => claimed = true ∧ t' = (claimPendingRun k env.now t).2)
      (Prog.holds_atomic h₁ ⟨htaken, rfl⟩) ?_
    rintro claimed t₁ ⟨rfl, heq₁⟩
    rw [← heq₁] at h₁ hq₁ htouch₁
    clear heq₁ htaken
    have htouch₂ := touches_finish env.ids t₁ r₀.id d dispatch.status.status dispatch.finishedAt
      dispatch.error dispatch.conversationId
    rw [hk] at htouch₂
    obtain ⟨q₂, hq₂, hexecuted⟩ : ∃ q₂, at_ env.ids r₀.id (finishRun k dispatch.status.status dispatch.finishedAt
        dispatch.error dispatch.conversationId t₁) d = some q₂ ∧ Executed q₂ := by
      subst hk
      exact ⟨_, Keyed.row_update_of_changed hq₁ rfl, executed_status dispatch.status⟩
    generalize heq₂ : finishRun k dispatch.status.status dispatch.finishedAt dispatch.error dispatch.conversationId t₁ =
      t₂ at htouch₂ hq₂
    have hsettled₂ : q₂.status ≠ .pending := fun h => by rcases hexecuted with h' | h' <;> cases h.symm.trans h'
    have h₂ : Mid env t₀ r₀ t₂ := by
      refine h₁.run htouch₂ ?_ (by rw [hq₂]; rfl) fun q' hq' => Option.mem_unique hq₁ hq' ▸ hstatus
      rw [hq₂]
      refine (hq₁ ▸ h₁.cells d).change hstatus (fun h => ?_) fun _ => hplan
      rcases hexecuted with h' | h' <;> cases h.symm.trans h'
    refine Prog.Holds.bind (M := fun _ t' => t' = t₂) (Prog.holds_atomic (heq₂ ▸ h₂) heq₂) ?_
    rintro - t' rfl
    have htouch₃ := touches_record (t := t') r₀.id dispatch.status.status env.now (r₀.nextFire env.cal env.now)
    obtain ⟨h₃, hmoved⟩ := h₂.advance (fun _ => rfl) (fun _ => ⟨⟨rfl, rfl, rfl, rfl, rfl, rfl, rfl⟩, rfl⟩) htouch₃ rfl
      (.inl ⟨d, by rw [hq₂]; rfl⟩) fun hpolicy c hc => ⟨q₂, Option.mem_unique hc (hwindow hpolicy) ▸ hq₂, hsettled₂⟩
    have hruns : ∀ d', at_ env.ids r₀.id
        (recordRun r₀.id dispatch.status.status env.now (r₀.nextFire env.cal env.now) t') d' =
        at_ env.ids r₀.id t' d' := fun _ => rfl
    refine Prog.holds_atomic h₃ ⟨h₃, fun q' hq' => ?_, fun _ => ?_, fun d' hd' => ?_, fun _ _ _ => hmoved, fun hnot => ?_⟩
    · rw [hruns, hq₂] at hq'
      exact Option.some.inj hq' ▸ hsettled₂
    · rw [hruns, hq₂]
      rfl
    · have hother : env.ids.id r₀.id d' ≠ env.ids.id r₀.id d := fun heq => hd' (env.ids.injective _ _ _ _ heq).2
      rw [hruns, at_, htouch₂.frame _ hother, htouch₁.frame _ hother, at_]
    · exact absurd hstatus (hnot q hq)

omit hid hnext

/-- Between two occurrences: no run is pending, and those of `done` are there. -/
structure Handled (env : TickEnv) (t₀ : RoutineTables) (r₀ : RoutineRow) (done : List Int) (t : RoutineTables) : Prop where
  mid : Mid env t₀ r₀ t
  settled : Settled env.ids r₀.id t
  done : ∀ d ∈ done, (at_ env.ids r₀.id t d).isSome = true

variable {done : List Int}

theorem Handled.snoc (h : Handled env t₀ r₀ done t) (hmid : Mid env t₀ r₀ t')
    (hsettled : ∀ q, at_ env.ids r₀.id t' d = some q → q.status ≠ .pending)
    (hsome : (at_ env.ids r₀.id t' d).isSome = true)
    (hframe : ∀ d', d' ≠ d → at_ env.ids r₀.id t' d' = at_ env.ids r₀.id t d') : Handled env t₀ r₀ (done ++ [d]) t' := by
  refine ⟨hmid, fun d' q hq => ?_, fun d' hd' => ?_⟩
  · by_cases heq : d' = d
    · exact hsettled q (heq ▸ hq)
    · exact h.settled d' q ((hframe d' heq).symm.trans hq)
  · by_cases heq : d' = d
    · exact heq ▸ hsome
    · rw [hframe d' heq]
      rcases List.mem_append.1 hd' with hd' | hd'
      · exact h.done d' hd'
      · exact absurd (List.mem_singleton.1 hd') heq

structure Inserted (env : TickEnv) (t₀ : RoutineTables) (r₀ : RoutineRow) (d : Int) (t t' : RoutineTables) : Prop where
  mid : Mid env t₀ r₀ t'
  idle : Idle env.ids r₀.id t'
  isSome : (at_ env.ids r₀.id t' d).isSome = true
  frame : ∀ d', d' ≠ d → at_ env.ids r₀.id t' d' = at_ env.ids r₀.id t d'
  fresh : ∀ q, at_ env.ids r₀.id t' d = some q → q.status = .pending → at_ env.ids r₀.id t₀ d = none

theorem own_insertRun (h : Mid env t₀ r₀ t) (hsettled : Settled env.ids r₀.id t)
    (hplan : d ∈ (r₀.plan env.cal env.now).execute ∨ d ∈ (r₀.plan env.cal env.now).skip) :
    (insertRun env r₀ d).Holds (Mid env t₀ r₀)
      (fun inserted t' => inserted = .ok (env.ids.id r₀.id d) ∧ Inserted env t₀ r₀ d t t') t := by
  obtain ⟨r, hr, -⟩ := h.row
  obtain ⟨hok, htouches, hinsert⟩ := insert_spec h.named hr d env.now
  have hframe : ∀ d', d' ≠ d → at_ env.ids r₀.id (insertRunForOccurrence r₀.id d env.now (env.ids.id r₀.id d) t).2 d' =
      at_ env.ids r₀.id t d' := fun d' hd' => htouches.frame _ fun heq => hd' (env.ids.injective _ _ _ _ heq).2
  unfold insertRun
  rcases hinsert with ⟨hsome, heq⟩ | ⟨hnone, hnew⟩
  · have hpost : Inserted env t₀ r₀ d t t :=
      ⟨h, hsettled.idle, hsome, fun _ _ => rfl, fun q hq hq' => absurd hq' (hsettled d q hq)⟩
    exact Prog.holds_atomic (by rw [heq]; exact h) ⟨hok, by rw [heq]; exact hpost⟩
  · have hnone₀ : at_ env.ids r₀.id t₀ d = none := by
      refine Option.eq_none_iff_forall_not_mem.2 fun q hq => ?_
      have hsome := h.isSome (d := d) (by rw [Option.mem_def.1 hq]; rfl)
      rw [hnone] at hsome
      cases hsome
    have hmid : Mid env t₀ r₀ (insertRunForOccurrence r₀.id d env.now (env.ids.id r₀.id d) t).2 := by
      refine h.run htouches ?_ (by rw [hnew]; rfl) fun q hq => ?_
      · rw [hnone₀, hnew]
        refine .made hplan (fun h => ?_) fun h => ?_
        · cases h
        · rcases h with h | h <;> cases h
      · rw [hnone] at hq
        cases hq
    refine Prog.holds_atomic hmid ⟨hok, hmid, fun d' q hq => ?_, by rw [hnew]; rfl, hframe, fun _ _ _ => hnone₀⟩
    by_cases hd' : d' = d
    · subst hd'
      cases hnew.symm.trans hq
      rfl
    · exact hsettled.idle d' q ((hframe d' hd').symm.trans hq)

theorem own_recordSkipped (reason : String) (h : Handled env t₀ r₀ done t)
    (hskip : d ∈ (r₀.plan env.cal env.now).skip) : (recordSkipped env r₀ d reason).Holds (Mid env t₀ r₀)
      (fun result t' => result = .ok () ∧ Handled env t₀ r₀ (done ++ [d]) t') t := by
  refine Prog.Holds.bind (own_insertRun h.mid h.settled (.inr hskip)) ?_
  rintro inserted t₁ ⟨rfl, h₁⟩
  have htouches := touches_skip env.ids t₁ r₀.id d env.now reason
  have hframe : ∀ d', d' ≠ d → at_ env.ids r₀.id (skipRun (env.ids.id r₀.id d) env.now reason t₁) d' =
      at_ env.ids r₀.id t₁ d' := fun d' hd' => htouches.frame _ fun heq => hd' (env.ids.injective _ _ _ _ heq).2
  have hpost : Handled env t₀ r₀ (done ++ [d]) (skipRun (env.ids.id r₀.id d) env.now reason t₁) := by
    obtain ⟨q, hq⟩ := Option.isSome_iff_exists.1 h₁.isSome
    by_cases hpending : q.status = .pending
    · have hset : at_ env.ids r₀.id (skipRun (env.ids.id r₀.id d) env.now reason t₁) d =
          some ((skipChange (fun r => r.status == .pending) env.now reason).set q) :=
        Keyed.row_update_of_changed hq (by simp [skipChange, hpending])
      refine h.snoc ?_ (fun q' hq' => ?_) (by rw [hset]; rfl) fun d' hd' => (hframe d' hd').trans (h₁.frame d' hd')
      · refine h₁.mid.run htouches ?_ (by rw [hset]; rfl) fun q' hq' => Option.mem_unique hq hq' ▸ hpending
        rw [hset]
        refine (hq ▸ h₁.mid.cells d).change hpending (fun _ => ⟨h₁.fresh q hq hpending, hskip⟩) fun h _ => ?_
        rcases h with h | h <;> cases h
      · cases hset.symm.trans hq'
        intro hstatus
        cases hstatus
    · -- the run of the occurrence was decided before
      have hsame : skipRun (env.ids.id r₀.id d) env.now reason t₁ = t₁ := by
        have hchanged : t₁.runs.changed (env.ids.id r₀.id d)
            (skipChange (fun r => r.status == .pending) env.now reason) = false := by
          rw [Keyed.changed, show t₁.runs.row (env.ids.id r₀.id d) = some q from hq]
          simp [skipChange, hpending]
        rw [skipRun, Keyed.update_eq_self hchanged]
      rw [hsame]
      exact h.snoc h₁.mid (fun q' hq' => Option.mem_unique hq hq' ▸ hpending) h₁.isSome h₁.frame
  exact Prog.Holds.bind (Prog.holds_atomic (Q := fun _ t' => Handled env t₀ r₀ (done ++ [d]) t') hpost.mid hpost)
    fun _ _ h₂ => Prog.holds_pure ⟨rfl, h₂⟩

theorem own_skipAll : ∀ (ds : List Int) {done : List Int} {t : RoutineTables},
    (∀ d ∈ ds, d ∈ (r₀.plan env.cal env.now).skip) → Handled env t₀ r₀ done t →
      (skipAll env r₀ ds).Holds (Mid env t₀ r₀)
        (fun result t' => result = .ok () ∧ Handled env t₀ r₀ (done ++ ds) t') t
  | [], done, _, _, h => Prog.holds_pure ⟨rfl, by rw [List.append_nil]; exact h⟩
  | d :: ds, done, _, hds, h => by
    obtain ⟨hd, hds⟩ := List.forall_mem_cons.1 hds
    refine Prog.Holds.bind (own_recordSkipped missedReason h hd) ?_
    rintro result t₁ ⟨rfl, h₁⟩
    rw [List.append_cons]
    exact own_skipAll ds hds h₁

section Execute

variable (hafter : r₀.nextRunAfter env.cal env.now = r₀.nextFire env.cal env.now)
  (hwindow : ∀ d ∈ (r₀.plan env.cal env.now).execute, r₀.missedRunPolicy = .coalesce → r₀.nextRunAt = some d)
include hafter hwindow

theorem own_executeOne (h : Handled env t₀ r₀ done t) (hexecute : d ∈ (r₀.plan env.cal env.now).execute) :
    (executeOne env r₀ false d).Holds (Mid env t₀ r₀)
      (fun result t' => result = .ok () ∧ Handled env t₀ r₀ (done ++ [d]) t') t := by
  have hfire : (fireOne env r₀ d (r₀.nextRunAfter env.cal env.now) none).Holds (Mid env t₀ r₀)
      (fun _ => Handled env t₀ r₀ (done ++ [d])) t := by
    refine Prog.Holds.bind (own_insertRun h.mid h.settled (.inl hexecute)) ?_
    rintro inserted t₁ ⟨rfl, h₁⟩
    refine Prog.Holds.bind (own_fireRun rfl hafter h₁.mid h₁.idle fun _ _ _ =>
      ⟨fun _ => hexecute, hwindow d hexecute⟩) fun _ t₂ h₂ => Prog.holds_pure ?_
    exact h.snoc h₂.mid h₂.settled (h₂.isSome h₁.isSome) fun d' hd' => (h₂.frame d' hd').trans (h₁.frame d' hd')
  exact Prog.Holds.bind hfire fun _ _ h₁ => Prog.holds_pure ⟨rfl, h₁⟩

theorem own_executeAll : ∀ (ds : List Int) {done : List Int} {t : RoutineTables},
    (∀ d ∈ ds, d ∈ (r₀.plan env.cal env.now).execute) → Handled env t₀ r₀ done t →
      (executeAll env r₀ false ds).Holds (Mid env t₀ r₀)
        (fun result t' => result = .ok () ∧ Handled env t₀ r₀ (done ++ ds) t') t
  | [], done, _, _, h => Prog.holds_pure ⟨rfl, by rw [List.append_nil]; exact h⟩
  | d :: ds, done, _, hds, h => by
    obtain ⟨hd, hds⟩ := List.forall_mem_cons.1 hds
    refine Prog.Holds.bind (own_executeOne hafter hwindow h hd) ?_
    rintro result t₁ ⟨rfl, h₁⟩
    rw [List.append_cons]
    exact own_executeAll ds hds h₁

theorem own_tickRoutine (h : Handled env t₀ r₀ [] t) (hdue : ∃ c, r₀.nextRunAt = some c ∧ c ≤ env.now)
    (hcoalesce : r₀.missedRunPolicy = .coalesce → ∀ c, r₀.nextRunAt = some c → c ∈ (r₀.plan env.cal env.now).execute) :
    (tickRoutine env r₀).Holds (Mid env t₀ r₀) (fun result t' => result = .ok () ∧ Moved env r₀ t' ∧
      Handled env t₀ r₀ ((r₀.plan env.cal env.now).skip ++ (r₀.plan env.cal env.now).execute) t') t := by
  have hactive := h.mid.named.hasActiveRun h.settled.idle
  refine Prog.Holds.bind (M := fun active t' => active = false ∧ Handled env t₀ r₀ [] t')
    (Prog.holds_read h.mid ⟨hactive, h⟩) ?_
  rintro active t₁ ⟨rfl, h₁⟩
  refine Prog.Holds.bind (own_skipAll _ (fun _ => id) h₁) ?_
  rintro result t₂ ⟨rfl, h₂⟩
  refine Prog.Holds.bind (own_executeAll hafter hwindow _ (fun _ => id) h₂) ?_
  rintro result t₃ ⟨rfl, h₃⟩
  rw [List.nil_append] at h₃
  simp only [hafter]
  obtain ⟨hmid, hmoved⟩ := h₃.mid.advance (fun _ => rfl) (fun _ => ⟨⟨rfl, rfl, rfl, rfl, rfl, rfl, rfl⟩, rfl⟩)
    (touches_advance r₀.id env.now (r₀.nextFire env.cal env.now)) rfl (.inr hdue) fun hpolicy c hc => by
      obtain ⟨q, hq⟩ := Option.isSome_iff_exists.1 (h₃.done c (List.mem_append_right _ (hcoalesce hpolicy c hc)))
      exact ⟨q, hq, h₃.settled c q hq⟩
  refine Prog.Holds.bind (M := fun _ t' => Moved env r₀ t' ∧ Handled env t₀ r₀ ((r₀.plan env.cal env.now).skip ++
    (r₀.plan env.cal env.now).execute) t') (Prog.holds_atomic hmid ⟨hmoved, hmid, h₃.settled, h₃.done⟩) ?_
  exact fun _ _ h₄ => Prog.holds_pure ⟨rfl, h₄⟩

end Execute

end Own

end Ticks

end Execlaw
