import Execlaw.ToolChainOutline
/-!
# ToolChainWatch — one approval under any calls

The run of one approval is watched while any calls of any workers go on.  What its log says fixes its status and who
may execute it; every call is a sequence of moves that keep this, as long as nobody's first write comes late.
-/
namespace Execlaw

open Table Interleave ToolChain

structure Approval where
  run : ChainRunRow
  approvalId : String
  plan : ChainPlanRow

namespace Approval

variable (codec : ChainCodec) (ap : Approval)

def Approves (step : StoredStep) : Prop :=
  ∃ plan, ap.plan.plan = .ok plan ∧ ap.run.approvalEffectHash = some (approvalEffectHash codec plan) ∧
    step ∈ plan.steps ∧ step.effectKind.isSome = true

def concerns : ChainEvent → Bool
  | .opened _ runId _ _ | .closed _ runId _ _ | .enqueued runId _ => runId == ap.run.id
  | .looked .. | .recorded .. | .sent .. => false

/-! ## What the log says -/

def statusAfter (log : List ChainEvent) : ChainRunStatus :=
  log.foldl (fun status e => match e with
    | .opened _ runId _ written | .closed _ runId _ written => if runId = ap.run.id then written else status
    | _ => status) .awaitingApproval

def owner (log : List ChainEvent) : Option Nat :=
  log.foldl (fun owner e => match e with
    | .opened worker runId _ written =>
      if runId = ap.run.id then (if written = .running then some worker else none) else owner
    | .closed _ runId _ _ => if runId = ap.run.id then none else owner
    | _ => owner) none

def changes (log : List ChainEvent) : List ChainRunStatus :=
  log.flatMap (fun e => match e with
    | .opened _ runId found written | .closed _ runId found written =>
      if runId = ap.run.id ∧ found ≠ written then [written] else []
    | _ => [])

/-- **No first write is late**: it finds the run waiting, or at the terminal status it writes. -/
def Timely (log : List ChainEvent) : Prop :=
  ∀ worker found written, .opened worker ap.run.id found written ∈ log →
    found = .awaitingApproval ∨ found = written ∧ written ≠ .running

def Allowed (worker : Nat) (log : List ChainEvent) : ChainEvent → Prop
  | .opened by_ _ found written =>
    by_ = worker ∧ found = ap.statusAfter log ∧ (written = .denied ∨ written = .failed ∨ written = .running)
  | .closed _ _ found written =>
    ap.owner log = some worker ∧ found = ap.statusAfter log ∧ (written = .completed ∨ written = .failed)
  | .enqueued _ step => ap.owner log = some worker ∧ ap.Approves codec step
  | .looked .. | .recorded .. | .sent .. => True

def courses : List (List ChainRunStatus) :=
  [[], [.denied], [.failed], [.running], [.running, .completed], [.running, .failed]]

/-- **Where the run stands.** -/
structure Phase (log : List ChainEvent) : Prop where
  changes : ap.changes log ∈ courses
  status : ap.statusAfter log = (ap.changes log).getLastD .awaitingApproval
  owner : ∀ worker, ap.owner log = some worker → ap.changes log = [.running]
  began : .running ∈ ap.changes log → ∃ worker, .opened worker ap.run.id .awaitingApproval .running ∈ log
  effects : ∀ step, .enqueued ap.run.id step ∈ log → .running ∈ ap.changes log ∧ ap.Approves codec step
  denied : ∀ worker found, .opened worker ap.run.id found .denied ∈ log → ap.changes log = [.denied]

variable {codec ap} {log : List ChainEvent} {e : ChainEvent} {worker : Nat}

theorem statusAfter_snoc_of_not (h : ap.concerns e = false) : ap.statusAfter (log ++ [e]) = ap.statusAfter log := by
  cases e <;> simp_all [statusAfter, concerns]

theorem owner_snoc_of_not (h : ap.concerns e = false) : ap.owner (log ++ [e]) = ap.owner log := by
  cases e <;> simp_all [owner, concerns]

theorem changes_snoc_of_not (h : ap.concerns e = false) : ap.changes (log ++ [e]) = ap.changes log := by
  cases e <;> simp_all [changes, concerns]

theorem Timely.of_append {later : List ChainEvent} (h : ap.Timely (log ++ later)) : ap.Timely log :=
  fun worker found written hmem => h worker found written (List.mem_append_left _ hmem)

theorem Phase.nil : ap.Phase codec [] := by
  constructor <;> simp [courses, Approval.changes, statusAfter, Approval.owner]

theorem Phase.other (h : ap.Phase codec log) (hother : ap.concerns e = false) : ap.Phase codec (log ++ [e]) := by
  have hmem {e' : ChainEvent} (hconcerns : ap.concerns e' = true) (hin : e' ∈ log ++ [e]) : e' ∈ log := by
    rcases List.mem_append.1 hin with hin | hin
    · exact hin
    · rw [List.mem_singleton.1 hin, hother] at hconcerns
      cases hconcerns
  refine ⟨?_, ?_, ?_, ?_, ?_, ?_⟩
  · rw [changes_snoc_of_not hother]
    exact h.changes
  · rw [changes_snoc_of_not hother, statusAfter_snoc_of_not hother]
    exact h.status
  · rw [changes_snoc_of_not hother, owner_snoc_of_not hother]
    exact h.owner
  · rw [changes_snoc_of_not hother]
    intro hrunning
    obtain ⟨worker, hopened⟩ := h.began hrunning
    exact ⟨worker, List.mem_append_left _ hopened⟩
  · intro step hin
    rw [changes_snoc_of_not hother]
    exact h.effects step (hmem (by simp [concerns]) hin)
  · intro worker found hin
    rw [changes_snoc_of_not hother]
    exact h.denied worker found (hmem (by simp [concerns]) hin)

theorem Phase.snoc (h : ap.Phase codec log) (htimely : ap.Timely (log ++ [e])) (hconcerns : ap.concerns e = true)
    (hallowed : ap.Allowed codec worker log e) : ap.Phase codec (log ++ [e]) := by
  cases e with
  | looked | recorded | sent => cases hconcerns
  | enqueued runId step =>
    obtain rfl : runId = ap.run.id := by simpa [concerns] using hconcerns
    obtain ⟨howner, happroves⟩ := hallowed
    have hrunning := h.owner worker howner
    have hsame : ap.changes (log ++ [.enqueued ap.run.id step]) = ap.changes log := by simp [Approval.changes]
    have hstatus : ap.statusAfter (log ++ [.enqueued ap.run.id step]) = ap.statusAfter log := by simp [statusAfter]
    have howners : ap.owner (log ++ [.enqueued ap.run.id step]) = ap.owner log := by simp [Approval.owner]
    refine ⟨hsame ▸ h.changes, ?_, ?_, ?_, ?_, ?_⟩
    · rw [hsame, hstatus]
      exact h.status
    · rw [hsame, howners]
      exact h.owner
    · rw [hsame]
      intro hmem
      obtain ⟨w, hopened⟩ := h.began hmem
      exact ⟨w, List.mem_append_left _ hopened⟩
    · intro other hmem
      rw [hsame]
      rcases List.mem_append.1 hmem with hmem | hmem
      · exact h.effects other hmem
      · obtain ⟨-, rfl⟩ := ChainEvent.enqueued.inj (List.mem_singleton.1 hmem)
        rw [hrunning]
        exact ⟨by simp, happroves⟩
    · intro w found hmem
      rw [hsame]
      exact h.denied w found (by simpa using hmem)
  | opened by_ runId found written =>
    obtain rfl : runId = ap.run.id := by simpa [concerns] using hconcerns
    obtain ⟨rfl, rfl, hwritten⟩ := hallowed
    have hstatus : ap.statusAfter (log ++ [.opened by_ ap.run.id (ap.statusAfter log) written]) = written := by
      simp [statusAfter]
    rcases htimely by_ (ap.statusAfter log) written (by simp) with hwaiting | ⟨hsame, hne⟩
    · -- the run waited: this is its first change
      have hnone : ap.changes log = [] := by
        have hlast := h.status.symm.trans hwaiting
        have hcases := h.changes
        simp only [courses, List.mem_cons, List.not_mem_nil, or_false] at hcases
        rcases hcases with hc | hc | hc | hc | hc | hc <;> rw [hc] at hlast <;> first | exact hc | cases hlast
      have hchanges : ap.changes (log ++ [.opened by_ ap.run.id (ap.statusAfter log) written]) = [written] := by
        have hne : ¬ (ChainRunStatus.awaitingApproval = written) := by rcases hwritten with rfl | rfl | rfl <;> simp
        rw [hwaiting]
        unfold Approval.changes at hnone ⊢
        rw [List.flatMap_append, hnone]
        simp [hne]
      refine ⟨?_, ?_, ?_, ?_, ?_, ?_⟩
      · rw [hchanges]
        rcases hwritten with rfl | rfl | rfl <;> simp [courses]
      · rw [hchanges, hstatus]
        rfl
      · intro w hw
        rw [hchanges]
        by_cases hrunning : written = .running
        · rw [hrunning]
        · simp [Approval.owner, hrunning] at hw
      · rw [hchanges]
        intro hrunning
        obtain rfl := List.mem_singleton.1 hrunning
        exact ⟨by_, by simp [hwaiting]⟩
      · intro step hmem
        have hbefore := (h.effects step (by simpa using hmem)).1
        rw [hnone] at hbefore
        cases hbefore
      · intro w found hmem
        rw [hchanges]
        rcases List.mem_append.1 hmem with hmem | hmem
        · have hbefore := h.denied w found hmem
          rw [hnone] at hbefore
          cases hbefore
        · obtain ⟨-, -, -, rfl⟩ := ChainEvent.opened.inj (List.mem_singleton.1 hmem)
          rfl
    · -- the status was there already
      have hchanges : ap.changes (log ++ [.opened by_ ap.run.id (ap.statusAfter log) written]) = ap.changes log := by
        simp [Approval.changes, hsame]
      refine ⟨hchanges ▸ h.changes, ?_, ?_, ?_, ?_, ?_⟩
      · rw [hchanges, hstatus, ← h.status, hsame]
      · intro w hw
        simp [Approval.owner, hne] at hw
      · rw [hchanges]
        intro hmem
        obtain ⟨w, hopened⟩ := h.began hmem
        exact ⟨w, List.mem_append_left _ hopened⟩
      · intro step hmem
        rw [hchanges]
        exact h.effects step (by simpa using hmem)
      · intro w found hmem
        rw [hchanges]
        rcases List.mem_append.1 hmem with hmem | hmem
        · exact h.denied w found hmem
        · obtain ⟨-, -, -, rfl⟩ := ChainEvent.opened.inj (List.mem_singleton.1 hmem)
          have hlast := h.status.symm.trans hsame
          have hcases := h.changes
          simp only [courses, List.mem_cons, List.not_mem_nil, or_false] at hcases
          rcases hcases with hc | hc | hc | hc | hc | hc <;> rw [hc] at hlast <;> first | exact hc | cases hlast
  | closed by_ runId found written =>
    obtain rfl : runId = ap.run.id := by simpa [concerns] using hconcerns
    obtain ⟨howner, rfl, hwritten⟩ := hallowed
    have hrunning := h.owner worker howner
    have hfound : ap.statusAfter log = .running := by rw [h.status, hrunning]; rfl
    have hchanges : ap.changes (log ++ [.closed by_ ap.run.id (ap.statusAfter log) written]) = [.running, written] := by
      have hne : ¬ (ChainRunStatus.running = written) := by rcases hwritten with rfl | rfl <;> simp
      rw [hfound]
      unfold Approval.changes at hrunning ⊢
      rw [List.flatMap_append, hrunning]
      simp [hne]
    refine ⟨?_, ?_, ?_, ?_, ?_, ?_⟩
    · rw [hchanges]
      rcases hwritten with rfl | rfl <;> simp [courses]
    · rw [hchanges]
      simp [statusAfter]
    · intro w hw
      simp [Approval.owner] at hw
    · intro _
      obtain ⟨w, hopened⟩ := h.began (by rw [hrunning]; simp)
      exact ⟨w, List.mem_append_left _ hopened⟩
    · intro step hmem
      rw [hchanges]
      exact ⟨by simp, (h.effects step (by simpa using hmem)).2⟩
    · intro w found hmem
      have hbefore := h.denied w found (by simpa using hmem)
      rw [hrunning] at hbefore
      cases hbefore

/-! ## The watched run in the tables -/

variable (codec ap)

/-- **The invariant**: the run is as the log says, and every effect of it was enqueued once. -/
structure Watch (s : ChainState) : Prop where
  row : ∃ row, s.runs.row ap.run.id = some row ∧ row.approvalId = some ap.approvalId ∧
    row.planId = ap.run.planId ∧ row.conversationId = ap.run.conversationId ∧ row.runSeq = ap.run.runSeq ∧
    row.approvalEffectHash = ap.run.approvalEffectHash ∧ row.status = ap.statusAfter s.log
  unique : ∀ row ∈ s.runs.rows, row.approvalId = some ap.approvalId → row.id = ap.run.id
  plan : s.plans.row ap.run.planId = some ap.plan
  once : ∀ step, s.log.count (.enqueued ap.run.id step) ≤ 1
  queued : ∀ step, .enqueued ap.run.id step ∈ s.log →
    (outboxRow (step.key ap.run.conversationId ap.run.runSeq) s.db).isSome = true
  phase : ap.Timely s.log → ap.Phase codec s.log

def Guar (worker : Nat) (s s' : ChainState) : Prop :=
  ap.Watch codec s → ap.Watch codec s' ∧ ∃ l, l.length ≤ 1 ∧ s'.log = s.log ++ l ∧
    (ap.Timely s'.log → ∀ e ∈ l, ap.concerns e = true → ap.Allowed codec worker s.log e)

def Rely (worker : Nat) (s s' : ChainState) : Prop :=
  ap.Watch codec s → ap.Watch codec s' ∧ ∃ l, s'.log = s.log ++ l ∧
    (ap.Timely s'.log → ap.owner s.log = some worker → ap.owner s'.log = some worker)

def Quiet (s s' : ChainState) : Prop :=
  ap.Watch codec s → ap.Watch codec s' ∧ ∃ l, l.length ≤ 1 ∧ s'.log = s.log ++ l ∧ ∀ e ∈ l, ap.concerns e = false

variable {codec ap} {s s' : ChainState}

theorem Rely.refl (worker : Nat) (s : ChainState) : ap.Rely codec worker s s :=
  fun h => ⟨h, [], by simp, fun _ howner => howner⟩

theorem Rely.trans (worker : Nat) (a b c : ChainState) (hab : ap.Rely codec worker a b)
    (hbc : ap.Rely codec worker b c) : ap.Rely codec worker a c := by
  intro h
  obtain ⟨hb, l, hl, howner⟩ := hab h
  obtain ⟨hc, l', hl', howner'⟩ := hbc hb
  refine ⟨hc, l ++ l', by rw [hl', hl, List.append_assoc], fun htimely hown => howner' htimely (howner ?_ hown)⟩
  rw [hl'] at htimely
  exact htimely.of_append

theorem short_cases {l : List ChainEvent} (h : l.length ≤ 1) : l = [] ∨ ∃ e, l = [e] := by
  match l, h with
  | [], _ => exact .inl rfl
  | [e], _ => exact .inr ⟨e, rfl⟩

theorem Quiet.guar (h : ap.Quiet codec s s') (worker : Nat) : ap.Guar codec worker s s' := by
  intro hs
  obtain ⟨hs', l, hshort, hl, hquiet⟩ := h hs
  exact ⟨hs', l, hshort, hl, fun _ e he hconcerns => by rw [hquiet e he] at hconcerns; cases hconcerns⟩

theorem Quiet.owner (h : ap.Quiet codec s s') (hs : ap.Watch codec s) : ap.owner s'.log = ap.owner s.log := by
  obtain ⟨-, l, hshort, hl, hquiet⟩ := h hs
  rcases short_cases hshort with rfl | ⟨e, rfl⟩
  · rw [hl, List.append_nil]
  · rw [hl, owner_snoc_of_not (hquiet e (by simp))]

theorem Quiet.rely (h : ap.Quiet codec s s') (worker : Nat) : ap.Rely codec worker s s' := by
  intro hs
  obtain ⟨hs', l, -, hl, -⟩ := h hs
  exact ⟨hs', l, hl, fun _ howner => by rw [h.owner hs, howner]⟩

theorem Guar.rely {i j : Nat} (h : ap.Guar codec i s s') (hij : i ≠ j) : ap.Rely codec j s s' := by
  intro hs
  obtain ⟨hs', l, hshort, hl, hallowed⟩ := h hs
  refine ⟨hs', l, hl, fun htimely howner => ?_⟩
  rcases short_cases hshort with rfl | ⟨e, rfl⟩
  · rw [hl, List.append_nil, howner]
  · rw [hl]
    cases hconcerns : ap.concerns e with
    | false => rw [owner_snoc_of_not hconcerns, howner]
    | true =>
      have hmove := hallowed htimely e (by simp) hconcerns
      rw [hl] at htimely
      have hphase := hs.phase htimely.of_append
      cases e with
      | looked | recorded | sent => cases hconcerns
      | enqueued runId step => exact absurd (Option.mem_unique hmove.1 howner) hij
      | closed _ runId found written => exact absurd (Option.mem_unique hmove.1 howner) hij
      | opened by_ runId found written =>
        exfalso
        obtain rfl : runId = ap.run.id := by simpa [concerns] using hconcerns
        have hrunning : ap.statusAfter s.log = .running := by
          rw [hphase.status, hphase.owner j howner]
          rfl
        obtain ⟨-, rfl, hwritten⟩ := hmove
        rcases htimely by_ (ap.statusAfter s.log) written (by simp) with hwaiting | ⟨hsame, hne⟩
        · rw [hrunning] at hwaiting
          cases hwaiting
        · exact hne (hsame.symm.trans hrunning)

def Has (codec : ChainCodec) (ap : Approval) (worker : Nat) (runId : String) (s : ChainState) : Prop :=
  ap.Watch codec s ∧ (ap.Timely s.log → runId = ap.run.id → ap.owner s.log = some worker)

theorem stable_watch (worker : Nat) : Stable (ap.Rely codec worker) (ap.Watch codec) := fun _ _ h hmove => (hmove h).1

theorem stable_has (worker : Nat) (runId : String) : Stable (ap.Rely codec worker) (ap.Has codec worker runId) := by
  rintro s s' ⟨hs, hhas⟩ hmove
  obtain ⟨hs', l, hl, howner⟩ := hmove hs
  refine ⟨hs', fun htimely hid => howner htimely (hhas ?_ hid)⟩
  rw [hl] at htimely
  exact htimely.of_append

theorem Has.quiet {worker : Nat} {runId : String} (h : ap.Has codec worker runId s) (hmove : ap.Quiet codec s s') :
    ap.Has codec worker runId s' := by
  obtain ⟨hs, hhas⟩ := h
  obtain ⟨hs', l, -, hl, -⟩ := hmove hs
  refine ⟨hs', fun htimely hid => ?_⟩
  rw [hl] at htimely
  rw [hmove.owner hs]
  exact hhas htimely.of_append hid

end Approval

end Execlaw
