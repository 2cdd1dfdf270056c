import Execlaw.NextAction
/-!
# Cancellation — what a cancelled run leaves behind

`cancel_run` ends the run and every descendant of the moment.  The parent of a later `create_run_with_id` is only
looked up, so a run started under a cancelled one is pending and claimable; nothing else escapes the cascade.
-/
namespace Execlaw

open Steps

/-- `runId` has `ancestor` above it, over any number of parents. -/
def Db.Descends (db : Db) (ancestor runId : String) : Prop :=
  Relation.TransGen (fun p x => (p, x) ∈ db.parentEdges) ancestor runId

def Db.Cancels (db : Db) (runId : String) : Prop :=
  ∃ prior, db.run runId = some prior ∧ (prior.status.active = true ∨ prior.status = .cancelled)

/-- **Nothing below a run is alive**: every descendant is final, and no step of one can be claimed. -/
structure Db.Quiet (db : Db) (ancestor : String) : Prop where
  runs : ∀ runId r, db.Descends ancestor runId → db.run runId = some r → r.status.active = false
  steps : ∀ runId stepId worker now leaseExpiresAt s, db.Descends ancestor runId →
    (claimStep runId stepId worker now leaseExpiresAt db).1 ≠ .ok s

/-- A `create_run_with_id` that stores a run: its parent passes, its id is new, its input event exists. -/
def Db.storesRun (db : Db) (runId : String) (new : NewRun) : Bool :=
  (checkParent db new).isOk && (db.run runId).isNone && decide (0 < new.inputEventSeq) &&
    db.hasEvent new.conversationId new.inputEventSeq

/-- A `fork_run` that stores a run. -/
def Db.storesFork (db : Db) (sourceRunId newId : String) : Bool :=
  (db.run sourceRunId).any (fun source => db.hasEvent source.conversationId source.inputEventSeq) &&
    (db.run newId).isNone

/-- The call stores a run under `ancestor`: its parent is `ancestor` or descends from it. -/
def Db.Adopts (db : Db) (ancestor : String) : RunCall → Prop
  | .createRunWithId runId new => db.storesRun runId new = true ∧
      ∃ p, new.parentRunId = some p ∧ (p = ancestor ∨ db.Descends ancestor p)
  | .forkRun source newId _ => db.storesFork source newId = true ∧ (source = ancestor ∨ db.Descends ancestor source)
  | _ => False

/-! ## The tree of runs -/

section Tree

variable {db db' : Db} {c : RunCall}

theorem mem_parentEdges {p x : String} :
    (p, x) ∈ db.parentEdges ↔ ∃ r ∈ db.runs, r.parentRunId = some p ∧ r.runId = x := by
  simp only [Db.parentEdges, List.mem_filterMap, Option.map_eq_some_iff, Prod.mk.injEq]
  constructor
  · rintro ⟨r, hr, q, hq, rfl, rfl⟩
    exact ⟨r, hr, hq, rfl⟩
  · rintro ⟨r, hr, hp, rfl⟩
    exact ⟨r, hr, p, hp, rfl, rfl⟩

theorem parentEdges_map (f : RunRow → RunRow) (hid : ∀ r, (f r).runId = r.runId)
    (hparent : ∀ r, (f r).parentRunId = r.parentRunId) (hruns : db'.runs = db.runs.map f) :
    db'.parentEdges = db.parentEdges := by
  unfold Db.parentEdges
  rw [hruns, List.filterMap_map]
  refine List.filterMap_congr fun r _ => ?_
  simp only [Function.comp, hid, hparent]

theorem terminate_parent (r : RunRow) (status : RunStatus) : (r.terminate status).parentRunId = r.parentRunId := by
  unfold RunRow.terminate
  split <;> rfl

/-- **The tree only grows by leaves**: a call leaves it alone or stores one run under an existing one. -/
theorem RunMove.tree (h : RunMove db c db') : db'.parentEdges = db.parentEdges ∨
    ∃ r p, db.run r.runId = none ∧ r.status = .pending ∧ r.parentRunId = some p ∧ (db.run p).isSome = true ∧
      db'.runs = db.runs ++ [r] ∧ db'.parentEdges = db.parentEdges ++ [(p, r.runId)] ∧
      ((∃ new, c = .createRunWithId r.runId new ∧ r.parentRunId = new.parentRunId) ∨
        ∃ source now, c = .forkRun source r.runId now ∧ r.parentRunId = some source) := by
  cases h with
  | quiet hruns _ | defined _ _ _ hruns _ => exact .inl (by rw [Db.parentEdges, hruns, Db.parentEdges])
  | bounded hruns _ | moved _ _ _ hruns _ | advanced _ _ _ _ hruns _ | completed _ _ _ hruns _ =>
    refine .inl (parentEdges_map _ ?_ ?_ hruns) <;>
    · intro r
      split <;> rfl
  | ended hends hruns _ =>
    refine .inl (parentEdges_map _ ?_ ?_ hruns)
    · intro r
      split
      · exact (r.terminate_spec hends.final).1
      · rfl
    · intro r
      split
      · exact terminate_parent r _
      · rfl
  | @created _ r _ hfresh hst _ hparent hruns _ hins =>
    have hedges : db'.parentEdges = db.parentEdges ++ (r.parentRunId.map (fun p => (p, r.runId))).toList := by
      unfold Db.parentEdges
      rw [hruns, List.filterMap_append]
      cases hp : r.parentRunId <;> simp [hp]
    cases hp : r.parentRunId with
    | none => exact .inl (by rw [hedges, hp]; simp)
    | some p => exact .inr ⟨r, p, hfresh, hst, hp, hparent p hp, hruns, by rw [hedges, hp]; rfl, hp ▸ hins⟩

def Db.TreeOk (db : Db) : Prop :=
  ∀ p x, (p, x) ∈ db.parentEdges → (db.run p).isSome = true ∧ (db.run x).isSome = true

theorem Db.NoRuns.treeOk (h : db.NoRuns) : db.TreeOk := by
  intro p x hmem
  simp [Db.parentEdges, h.runs] at hmem

theorem RunMove.run_isSome (h : RunMove db c db') (hok : db.RunsOk) {x : String} (hx : (db.run x).isSome = true) :
    (db'.run x).isSome = true := by
  obtain ⟨r, hr⟩ := Option.isSome_iff_exists.1 hx
  obtain ⟨r', hr', -⟩ := h.run_after hok hr
  rw [hr']
  rfl

theorem RunMove.treeOk (h : RunMove db c db') (hok : db.RunsOk) (htree : db.TreeOk) : db'.TreeOk := by
  intro p x hmem
  rcases h.tree with hedges | ⟨r, q, hfresh, -, -, hq, hruns, hedges, -⟩
  · rw [hedges] at hmem
    exact ⟨h.run_isSome hok (htree p x hmem).1, h.run_isSome hok (htree p x hmem).2⟩
  · rw [hedges] at hmem
    rcases List.mem_append.1 hmem with hmem | hmem
    · exact ⟨h.run_isSome hok (htree p x hmem).1, h.run_isSome hok (htree p x hmem).2⟩
    · cases List.mem_singleton.1 hmem
      refine ⟨h.run_isSome hok hq, ?_⟩
      rw [((h.ok hok).run_iff (r := r)).2 ⟨by rw [hruns]; simp, rfl⟩]
      rfl

theorem Db.TreeOk.isSome_of_descends (htree : db.TreeOk) {r x : String} (h : db.Descends r x) :
    (db.run x).isSome = true := by
  cases h with
  | single hmem | tail _ hmem => exact (htree _ _ hmem).2

/-! ## The cascade -/

variable {runId : String}

theorem cancelRun_eq (h : db.Cancels runId) (cancelledAt : Int) :
    db.exec (.cancelRun runId cancelledAt) =
      db.terminate (runId :: db.descendants runId) .cancelled (fun _ => some "error:cancelled") cancelledAt := by
  obtain ⟨prior, hr, hlive⟩ := h
  have hno : ¬ ((!prior.status.active && prior.status != .cancelled) = true) := by
    rcases hlive with h | h <;> simp [h]
  simp only [Db.exec, cancelRun, runTx, transaction, hr, if_neg hno]

theorem parentEdges_cancel (h : db.Cancels runId) (cancelledAt : Int) :
    (db.exec (.cancelRun runId cancelledAt)).parentEdges = db.parentEdges := by
  rw [cancelRun_eq h]
  refine parentEdges_map  _ ?_ ?_ rfl
  · intro r
    split
    · exact (r.terminate_spec rfl).1
    · rfl
  · intro r
    split
    · exact terminate_parent r _
    · rfl

theorem Db.Quiet.of_runs {r : String}
    (h : ∀ runId q, db.Descends r runId → db.run runId = some q → q.status.active = false) : db.Quiet r where
  runs := h
  steps := by
    intro runId stepId worker now leaseExpiresAt s hdesc hclaim
    obtain ⟨t, ht, -, hcur⟩ := claimable_of_claimStep hclaim
    obtain ⟨rfl, -⟩ := step_key ht
    unfold Db.atCursor at hcur
    cases hq : db.run t.runId with
    | none => simp [hq] at hcur
    | some q => simp [hq, h t.runId q hdesc hq] at hcur

theorem cancel_quiet (hok : db.RunsOk) (h : db.Cancels runId) (cancelledAt : Int) :
    (db.exec (.cancelRun runId cancelledAt)).Quiet runId := by
  refine .of_runs fun x q hdesc hq => ?_
  unfold Db.Descends at hdesc
  rw [parentEdges_cancel h] at hdesc
  have hin : (runId :: db.descendants runId).contains x = true :=
    List.contains_iff_mem.2 (List.mem_cons_of_mem _ (Closure.mem_reach.2 hdesc))
  have hok' := (exec_move db (.cancelRun runId cancelledAt)).ok hok
  obtain ⟨hmem, rfl⟩ := hok'.run_iff.1 hq
  rw [cancelRun_eq h] at hmem
  obtain ⟨q₀, -, hterm⟩ := List.mem_map.1 hmem
  have hid : q₀.runId = q.runId := by
    rw [← hterm]
    split
    · exact (q₀.terminate_spec rfl).1.symm
    · rfl
  rw [hid, if_pos hin] at hterm
  rw [← hterm]
  exact (q₀.terminate_spec rfl).2.2.1

theorem cancel_others {runId x : String} (h : db.Cancels runId) (cancelledAt : Int) (hne : x ≠ runId)
    (hdesc : ¬ db.Descends runId x) : (db.exec (.cancelRun runId cancelledAt)).run x = db.run x ∧
      ∀ stepId, (db.exec (.cancelRun runId cancelledAt)).step x stepId = db.step x stepId := by
  have hin : ¬ (runId :: db.descendants runId).contains x = true := by
    rw [List.contains_iff_mem, List.mem_cons]
    rintro (hx | hx)
    · exact hne hx
    · exact hdesc (Closure.mem_reach.1 hx)
  rw [cancelRun_eq h]
  constructor
  · unfold Db.run
    rw [Db.terminate, Table.byKey_map]
    · cases hr : Table.byKey RunRow.runId x db.runs with
      | none => rfl
      | some r =>
        have hid : r.runId = x := Table.key_of_byKey hr
        rw [Option.map_some, hid, if_neg hin]
    · intro r
      split
      · exact (r.terminate_spec rfl).1
      · rfl
  · intro stepId
    unfold Db.step
    rw [Db.terminate, Table.byKey_map]
    · cases hs : Table.byKey RunStepRecord.key (x, stepId) db.steps with
      | none => rfl
      | some s =>
        have hkey : s.key = (x, stepId) := Table.key_of_byKey hs
        have hid : s.runId = x := (Prod.mk.inj hkey).1
        rw [Option.map_some, hid, if_neg hin]
    · intro s
      split
      · have hsame := (s.close_spec (fun _ => some "error:cancelled") cancelledAt).1
        simp [RunStepRecord.key, hsame.runId, hsame.stepId]
      · rfl

end Tree

/-! ## Children started later -/

section Later

variable {db : Db} {r : String}

theorem insertRun_eq (db : Db) (runId : String) (new : NewRun) :
    (db.hasEvent new.conversationId new.inputEventSeq = true ∧ ∃ db', db.insertRun runId new = .ok db') ∨
      (db.hasEvent new.conversationId new.inputEventSeq = false ∧ db.insertRun runId new = .error foreignKey) := by
  unfold Db.insertRun
  cases db.hasEvent new.conversationId new.inputEventSeq <;> simp

theorem createRun_stores (runId : String) (new : NewRun) :
    (db.storesRun runId new = true ∧ ∃ q : RunRow, q.runId = runId ∧ q.status = .pending ∧
      q.parentRunId = new.parentRunId ∧ (db.exec (.createRunWithId runId new)).runs = db.runs ++ [q]) ∨
    (db.storesRun runId new = false ∧ db.exec (.createRunWithId runId new) = db) := by
  simp only [Db.exec, createRunWithId_snd, createRunTx, runTx, transaction, Db.storesRun]
  cases hpar : checkParent db new with
  | error e => exact .inr ⟨rfl, rfl⟩
  | ok u =>
    cases hrun : db.run runId with
    | some old => exact .inr ⟨by simp, by simp⟩
    | none =>
      by_cases hseq : new.inputEventSeq ≤ 0
      · exact .inr ⟨by simp [hseq], by simp [hseq]⟩
      · rcases insertRun_eq db runId new with ⟨hev, db', hins⟩ | ⟨hev, hins⟩
        · obtain ⟨q, hq, hst, -, hparent, hruns, -⟩ := insertRun_ok hins
          exact .inl ⟨by simp [hev, not_le.1 hseq, Except.isOk, Except.toBool],
            q, hq, hst, hparent, by simp [hseq, hins, hruns, Except.map]⟩
        · exact .inr ⟨by simp [hev], by simp [hseq, hins, Except.map]⟩

theorem forkRun_stores (source newId : String) (now : Int) :
    (db.storesFork source newId = true ∧ ∃ q : RunRow, q.runId = newId ∧ q.status = .pending ∧
      q.parentRunId = some source ∧ (db.exec (.forkRun source newId now)).runs = db.runs ++ [q]) ∨
    (db.storesFork source newId = false ∧ db.exec (.forkRun source newId now) = db) := by
  simp only [Db.exec, forkRun, requiredRun, runTx, transaction, Db.storesFork]
  cases hsource : db.run source with
  | none => exact .inr ⟨rfl, rfl⟩
  | some src =>
    obtain rfl := run_id hsource
    cases hrun : db.run newId with
    | some old => exact .inr ⟨by simp, by simp⟩
    | none =>
      rcases insertRun_eq db newId
          { conversationId := src.conversationId, parentRunId := some src.runId
            inputEventSeq := src.inputEventSeq, startedAt := now, deadlineAt := none } with
        ⟨hev, db', hins⟩ | ⟨hev, hins⟩
      · obtain ⟨q, hq, hst, -, hparent, hruns, -⟩ := insertRun_ok hins
        exact .inl ⟨by simpa using hev, q, hq, hst, hparent, by simp [hins, hruns, Except.map]⟩
      · exact .inr ⟨by simpa using hev, by simp [hins, Except.map]⟩

theorem quiet_exec (hok : db.RunsOk) (htree : db.TreeOk) (hquiet : db.Quiet r) {c : RunCall} (hc : ¬ db.Adopts r c) :
    (db.exec c).Quiet r := by
  have hmove := exec_move db c
  refine .of_runs fun x q hdesc hq => ?_
  have hold : db.Descends r x → q.status.active = false := by
    intro hdesc
    obtain ⟨q₀, hq₀⟩ := Option.isSome_iff_exists.1 (htree.isSome_of_descends hdesc)
    have hfinal := hquiet.runs x q₀ hdesc hq₀
    obtain ⟨q', hq', hafter⟩ := hmove.run_after hok hq₀
    rw [hq] at hq'
    cases hq'
    rw [(hafter.final hfinal).1, hfinal]
  rcases hmove.tree with hedges | ⟨n, p, hfresh, -, hp, hpsome, -, hedges, hins⟩
  · refine hold ?_
    unfold Db.Descends at hdesc
    rw [hedges] at hdesc
    exact hdesc
  · unfold Db.Descends at hdesc
    rw [hedges] at hdesc
    have hsource : ∀ y, (n.runId, y) ∉ db.parentEdges := by
      intro y hmem
      have := (htree _ _ hmem).1
      rw [hfresh] at this
      cases this
    have hne : p ≠ n.runId := by
      rintro rfl
      rw [hfresh] at hpsome
      cases hpsome
    rcases Closure.transGen_leaf hsource hne hdesc with hdesc | ⟨rfl, hbelow⟩
    · exact hold hdesc
    · -- the new run hangs below `r`: the call adopted it
      refine absurd ?_ hc
      rcases hins with ⟨new, rfl, hpar⟩ | ⟨source, now, rfl, hpar⟩
      · rcases createRun_stores n.runId new with ⟨hstores, -⟩ | ⟨-, hsame⟩
        · exact ⟨hstores, p, hpar.symm.trans hp, hbelow⟩
        · rw [hsame, hfresh] at hq
          cases hq
      · rcases forkRun_stores source n.runId now with ⟨hstores, -⟩ | ⟨-, hsame⟩
        · cases hpar.symm.trans hp
          exact ⟨hstores, hbelow⟩
        · rw [hsame, hfresh] at hq
          cases hq

theorem not_quiet_of_adopts (hok : db.RunsOk) {c : RunCall} (hc : db.Adopts r c) : ¬ (db.exec c).Quiet r := by
  have hmove := exec_move db c
  obtain ⟨q, p, hst, hp, hbelow, hruns⟩ : ∃ (q : RunRow) (p : String), q.status = .pending ∧
      q.parentRunId = some p ∧ (p = r ∨ db.Descends r p) ∧ (db.exec c).runs = db.runs ++ [q] := by
    cases c with
    | createRunWithId runId new =>
      obtain ⟨hstores, p, hp, hbelow⟩ := hc
      rcases createRun_stores runId new with ⟨-, q, -, hst, hpar, hruns⟩ | ⟨hno, -⟩
      · exact ⟨q, p, hst, hpar.trans hp, hbelow, hruns⟩
      · rw [hstores] at hno
        cases hno
    | forkRun source newId now =>
      obtain ⟨hstores, hbelow⟩ := hc
      rcases forkRun_stores source newId now with ⟨-, q, -, hst, hpar, hruns⟩ | ⟨hno, -⟩
      · exact ⟨q, source, hst, hpar, hbelow, hruns⟩
      · rw [hstores] at hno
        cases hno
    | _ => exact hc.elim
  intro hquiet
  have hq : (db.exec c).run q.runId = some q := (hmove.ok hok).run_iff.2 ⟨by rw [hruns]; simp, rfl⟩
  have hedge : (p, q.runId) ∈ (db.exec c).parentEdges :=
    mem_parentEdges.2 ⟨q, by rw [hruns]; simp, hp, rfl⟩
  have hedges : db.parentEdges ⊆ (db.exec c).parentEdges := by
    unfold Db.parentEdges
    rw [hruns, List.filterMap_append]
    exact List.subset_append_left _ _
  have hdesc : (db.exec c).Descends r q.runId := by
    rcases hbelow with rfl | hbelow
    · exact .single hedge
    · exact .tail (hbelow.lift id fun _ _ hmem => hedges hmem) hedge
  have hfinal := hquiet.runs _ q hdesc hq
  rw [hst] at hfinal
  cases hfinal

theorem quiet_iff : ∀ {later : List RunCall} {db : Db}, db.RunsOk → db.TreeOk → db.Quiet r →
    ((∀ pre, pre <+: later → (db.execAll pre).Quiet r) ↔
      ∀ pre c, pre ++ [c] <+: later → ¬ (db.execAll pre).Adopts r c)
  | [], db, _, _, hquiet => by
    constructor
    · intro _ pre c hpre
      exact absurd (List.prefix_nil.1 hpre) (by simp)
    · intro _ pre hpre
      obtain rfl := List.prefix_nil.1 hpre
      exact hquiet
  | c :: later, db, hok, htree, hquiet => by
    have hmove := exec_move db c
    constructor
    · intro hall pre c' hpre
      cases pre with
      | nil =>
        obtain rfl : c' = c := (List.cons_prefix_cons.1 hpre).1
        intro hc
        exact not_quiet_of_adopts hok hc (hall [c'] (by simp))
      | cons d pre =>
        obtain ⟨rfl, htail⟩ := List.cons_prefix_cons.1 hpre
        have hnext : (db.exec d).Quiet r := hall [d] (by simp)
        refine (quiet_iff (hmove.ok hok) (hmove.treeOk hok htree) hnext).1 ?_ pre c' htail
        intro pre' hpre'
        exact hall (d :: pre') (List.cons_prefix_cons.2 ⟨rfl, hpre'⟩)
    · intro hall pre hpre
      cases pre with
      | nil => exact hquiet
      | cons d pre =>
        obtain ⟨rfl, htail⟩ := List.cons_prefix_cons.1 hpre
        have hnext := quiet_exec hok htree hquiet (hall [] d (by simp))
        refine (quiet_iff (hmove.ok hok) (hmove.treeOk hok htree) hnext).2 ?_ pre htail
        intro pre' c' hpre'
        exact hall (d :: pre') c' (List.cons_prefix_cons.2 ⟨rfl, hpre'⟩)

theorem run_treeOk {db' : Db} {calls : List RunCall} (hok : db.RunsOk) (htree : db.TreeOk)
    (hrun : Run RunCall.Step db calls db') : db'.TreeOk := by
  have hinv : db'.RunsOk ∧ db'.TreeOk := by
    refine run_invariant (P := fun db => db.RunsOk ∧ db.TreeOk) hrun ⟨hok, htree⟩ ?_
    rintro m c m' ⟨hm, ht⟩ rfl
    exact ⟨(exec_move m c).ok hm, (exec_move m c).treeOk hm ht⟩
  exact hinv.2

end Later

/-- **Cancellation reaches every descendant, as long as no later call starts a run below.**  The runs that do not
descend from the cancelled one keep their row and their steps. -/
theorem cancellation_reaches_descendants {db₀ db : Db} {calls : List RunCall} (h₀ : db₀.NoRuns)
    (hrun : Run RunCall.Step db₀ calls db) {runId : String} (h : db.Cancels runId) (cancelledAt : Int)
    (later : List RunCall) :
    ((∀ pre, pre <+: later → ((db.exec (.cancelRun runId cancelledAt)).execAll pre).Quiet runId) ↔
      ∀ pre c, pre ++ [c] <+: later → ¬ ((db.exec (.cancelRun runId cancelledAt)).execAll pre).Adopts runId c) ∧
    ∀ x, x ≠ runId → ¬ db.Descends runId x → (db.exec (.cancelRun runId cancelledAt)).run x = db.run x ∧
      ∀ stepId, (db.exec (.cancelRun runId cancelledAt)).step x stepId = db.step x stepId := by
  have hok := run_runsOk h₀.ok hrun
  have htree := run_treeOk h₀.ok h₀.treeOk hrun
  have hmove := exec_move db (.cancelRun runId cancelledAt)
  refine ⟨quiet_iff (hmove.ok hok) (hmove.treeOk hok htree) (cancel_quiet hok h cancelledAt), ?_⟩
  intro x hne hdesc
  exact cancel_others h cancelledAt hne hdesc

def sampleChild : RunCall :=
  .createRunWithId "child" { conversationId := "c", parentRunId := some "r", inputEventSeq := 1, startedAt := 2 }

/-- The child was there before the cancellation, and is claimed too late. -/
theorem cancellation_reaches_descendants_child :
    ((sampleEvents.execAll (sampleCalls.take 1 ++ [sampleChild])).exec (.cancelRun "r" 2)).Quiet "r" ∧
      (((sampleEvents.execAll (sampleCalls.take 1 ++ [sampleChild])).exec (.cancelRun "r" 2)).execAll
        [.claimStep "child" "s" "w" 3 63]).Quiet "r" := by
  have hcancels : (sampleEvents.execAll (sampleCalls.take 1 ++ [sampleChild])).Cancels "r" := ⟨_, rfl, .inl rfl⟩
  have hquiet := (cancellation_reaches_descendants ⟨rfl, rfl⟩
    (run_execAll sampleEvents (sampleCalls.take 1 ++ [sampleChild])) hcancels 2
    [.claimStep "child" "s" "w" 3 63]).1.2 (by
      rintro (_ | ⟨d, pre⟩) c hpre
      · obtain rfl : c = .claimStep "child" "s" "w" 3 63 := by simpa using hpre
        exact id
      · simp at hpre)
  exact ⟨hquiet [] List.nil_prefix, hquiet _ (List.prefix_refl _)⟩

/-- **A run started under a cancelled one is pending**, with the cancelled one above it. -/
theorem cancelled_run_adopts :
    (sampleEvents.execAll (sampleCalls.take 1)).Cancels "r" ∧
      ¬ (((sampleEvents.execAll (sampleCalls.take 1)).exec (.cancelRun "r" 1)).execAll [sampleChild]).Quiet "r" := by
  refine ⟨⟨_, rfl, .inl rfl⟩, ?_⟩
  intro hquiet
  have hfinal := hquiet.runs "child" _ (.single (by decide)) rfl
  revert hfinal
  decide

end Execlaw
