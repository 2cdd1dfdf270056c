import Execlaw.ToolChainApprovals
/-!
# ToolChainEffects — the outbox rows of recorded steps (`execute_run_steps`)

A step is recorded as completed when its key is in the outbox, whoever put it there.  As long as every row found under
a step's key is that step's own, each recorded effect step has its row, and shares it with no other run and no send.
-/
namespace Execlaw

open Table Interleave

namespace ToolChain

variable {codec : ChainCodec} {s s' : ChainState} {runId key : String} {step : StoredStep}

def Stored (codec : ChainCodec) (key : String) (effect : ChainEffect) (s : ChainState) : Prop :=
  ∃ o, outboxRow key s.db = some o ∧ codec.encode effect = .ok o.payload

/-- **Every row found under a step's key is the step's own.** -/
def FindsOwn (codec : ChainCodec) (log : List ChainEvent) : Prop :=
  ∀ runId step payload, .looked runId step (some payload) ∈ log → codec.encode (step.effect runId) = .ok payload

theorem FindsOwn.of_prefix {log log' : List ChainEvent} (h : FindsOwn codec log') (hfront : log <+: log') :
    FindsOwn codec log :=
  fun runId step payload hmem => h runId step payload (hfront.subset hmem)

/-- **The invariant**: what was recorded is in the outbox, and what others sent still is. -/
structure Kept (codec : ChainCodec) (s : ChainState) : Prop where
  stored : FindsOwn codec s.log → ∀ runId step key, .recorded runId step (some key) ∈ s.log →
    Stored codec key (step.effect runId) s
  effect : ∀ runId step, .recorded runId step none ∈ s.log → step.effectKind = none
  sent : ∀ key payload, .sent key payload ∈ s.log → ∃ o, outboxRow key s.db = some o ∧ o.payload = payload
  rows : ∀ r ∈ s.steps.rows, ∃ step, .recorded r.runId step r.outboxKey ∈ s.log ∧ step.stepIndex = r.stepIndex

def RowsStay (db db' : Db) : Prop :=
  ∀ key o, outboxRow key db = some o → ∃ o', outboxRow key db' = some o' ∧ o'.payload = o.payload

def Grows (codec : ChainCodec) (s s' : ChainState) : Prop :=
  Kept codec s → Kept codec s' ∧ s.log <+: s'.log ∧ RowsStay s.db s'.db

theorem RowsStay.refl (db : Db) : RowsStay db db := fun _ o h => ⟨o, h, rfl⟩

theorem RowsStay.trans {a b c : Db} (hab : RowsStay a b) (hbc : RowsStay b c) : RowsStay a c := by
  intro key o h
  obtain ⟨o', h', hpayload⟩ := hab key o h
  obtain ⟨o'', h'', hpayload'⟩ := hbc key o' h'
  exact ⟨o'', h'', hpayload'.trans hpayload⟩

theorem Stored.stays {effect : ChainEffect} (h : Stored codec key effect s) (hrows : RowsStay s.db s'.db) :
    Stored codec key effect s' := by
  obtain ⟨o, ho, hencode⟩ := h
  obtain ⟨o', ho', hpayload⟩ := hrows key o ho
  exact ⟨o', ho', hpayload ▸ hencode⟩

theorem Grows.refl (s : ChainState) : Grows codec s s := fun h => ⟨h, List.prefix_rfl, RowsStay.refl _⟩

theorem Grows.trans {a b c : ChainState} (hab : Grows codec a b) (hbc : Grows codec b c) : Grows codec a c := by
  intro h
  obtain ⟨hb, hlog, hrows⟩ := hab h
  obtain ⟨hc, hlog', hrows'⟩ := hbc hb
  exact ⟨hc, hlog.trans hlog', hrows.trans hrows'⟩

/-! ## Moves -/

theorem grows_plain {l : List ChainEvent} (hlog : s'.log = s.log ++ l) (hsteps : s'.steps = s.steps)
    (hrows : RowsStay s.db s'.db) (hrecorded : ∀ runId step key, .recorded runId step key ∉ l)
    (hsent : ∀ key payload, .sent key payload ∈ l → ∃ o, outboxRow key s'.db = some o ∧ o.payload = payload) :
    Grows codec s s' := by
  intro h
  have hfront : s.log <+: s'.log := hlog ▸ List.prefix_append ..
  have hold {runId : String} {step : StoredStep} {key : Option String} (hmem : .recorded runId step key ∈ s'.log) :
      .recorded runId step key ∈ s.log := by
    rw [hlog] at hmem
    exact (List.mem_append.1 hmem).resolve_right (hrecorded runId step key)
  refine ⟨⟨?_, fun runId step hmem => h.effect runId step (hold hmem), ?_, ?_⟩, hfront, hrows⟩
  · intro hfinds runId step key hmem
    exact (h.stored (hfinds.of_prefix hfront) runId step key (hold hmem)).stays hrows
  · intro key payload hmem
    rw [hlog] at hmem
    rcases List.mem_append.1 hmem with hmem | hmem
    · obtain ⟨o, ho, hpayload⟩ := h.sent key payload hmem
      obtain ⟨o', ho', hpayload'⟩ := hrows key o ho
      exact ⟨o', ho', hpayload'.trans hpayload⟩
    · exact hsent key payload hmem
  · intro r hr
    rw [hsteps] at hr
    obtain ⟨step, hmem, hindex⟩ := h.rows r hr
    exact ⟨step, hfront.subset hmem, hindex⟩

theorem grows_same (hlog : s'.log = s.log) (hsteps : s'.steps = s.steps) (hdb : s'.db = s.db) : Grows codec s s' :=
  grows_plain (l := []) (by rw [hlog, List.append_nil]) hsteps (hdb ▸ RowsStay.refl _) (by simp) (by simp)

theorem grows_calm {New : String → Prop} (h : Calm New s s') : Grows codec s s' := by
  cases h with
  | read => exact Grows.refl s
  | planned h =>
    unfold insertPlan at h
    split at h
    · cases h
    · cases h
      exact grows_same rfl rfl rfl
  | created h =>
    unfold insertRun at h
    dsimp only at h
    split at h
    · cases h
    · split at h
      · cases h
      · cases h
        exact grows_same rfl rfl rfl
  | waits _ h =>
    unfold waitRun at h
    split at h
    · cases h
    · cases h
      exact grows_same rfl rfl rfl
  | reviewed h =>
    unfold insertCompensation at h
    split at h
    · cases h
    · cases h
      exact grows_same rfl rfl rfl
  | marked => exact grows_same rfl rfl rfl

theorem enqueueIdempotent_ok {row : OutboxRow} {now : Int} {db db' : Db} {a : Int × Bool}
    (h : enqueueIdempotent row now db = (.ok a, db')) :
    (∃ o, outboxRow row.idempotencyKey db' = some o ∧ o.payload = row.payload) ∧ RowsStay db db' := by
  unfold enqueueIdempotent enqueueIdempotentGuarded at h
  rw [transaction_ok] at h
  simp only [Option.any_none, Bool.false_eq_true, if_false] at h
  split at h
  · next o hfound =>
    split at h
    · next hsame =>
      split at h
      · cases h
      · cases h
        exact ⟨⟨o, hfound, hsame.2.2⟩, RowsStay.refl _⟩
    · cases h
  · next hnone =>
    cases h
    constructor
    · simp [outboxRow, Db.insertEffect, List.find?_append, hnone]
    · intro key o ho
      unfold outboxRow at ho
      exact ⟨o, by simp [outboxRow, Db.insertEffect, List.find?_append, ho], rfl⟩

theorem grows_env (o : ChainEnv) : Grows codec s (env s o) := by
  cases o with
  | observed version | planned row => exact grows_same rfl rfl rfl
  | queued row now =>
    simp only [env]
    split
    · next db henqueue =>
      obtain ⟨hqueued, hrows⟩ := enqueueIdempotent_ok henqueue
      refine grows_plain rfl rfl hrows (by simp) fun key payload hmem => ?_
      obtain ⟨rfl, rfl⟩ := ChainEvent.sent.inj (List.mem_singleton.1 hmem)
      exact hqueued
    · next e db henqueue =>
      have hsame : db = s.db := by
        have herror := transaction_error (e := e) (congrArg Prod.fst henqueue)
        exact (congrArg Prod.snd henqueue).symm.trans herror
      exact grows_same rfl rfl hsame
  | marked key status =>
    refine grows_plain (l := []) (by simp [env]) rfl (fun k o ho => ?_) (by simp) (by simp)
    unfold outboxRow at ho ⊢
    have hkey : (fun r : OutboxRec => r.idempotencyKey == k) ∘
        (fun r => if r.idempotencyKey = key then { r with status := status } else r) =
        fun r => r.idempotencyKey == k := by
      funext r
      by_cases h : r.idempotencyKey = key <;> simp [h]
    refine ⟨if o.idempotencyKey = key then { o with status := status } else o, ?_, ?_⟩
    · simp only [env, List.find?_map, hkey, ho, Option.map_some]
    · split <;> rfl

/-! ## Assertions -/

def Ready (codec : ChainCodec) (runId : String) (step : StoredStep) (key : String) (s : ChainState) : Prop :=
  Kept codec s ∧ (FindsOwn codec s.log → Stored codec key (step.effect runId) s)

theorem stable_kept : Stable (Grows codec) (Kept codec) := fun _ _ h hmove => (hmove h).1

theorem stable_ready : Stable (Grows codec) (Ready codec runId step key) := by
  rintro s s' ⟨hs, hready⟩ hmove
  obtain ⟨hs', hlog, hrows⟩ := hmove hs
  exact ⟨hs', fun hfinds => (hready (hfinds.of_prefix hlog)).stays hrows⟩

theorem frame_kept : Frame (Grows codec) (Grows codec) (fun _ => True) (Kept codec) where
  refl := Grows.refl
  stable := stable_kept
  calm := fun _ _ hs h => ⟨grows_calm h, (grows_calm h hs).1⟩
  new := fun _ _ _ _ _ _ _ _ _ _ => trivial

theorem keeps_grows {α : Type} {f : ChainState → Except String (α × ChainState)}
    (h : ∀ s a s', f s = .ok (a, s') → Grows codec s s') : Keeps (Grows codec) (Grows codec) (Kept codec) (stmt f) :=
  triple_stmt stable_kept (fun _ => stable_kept) stable_kept (fun s hs => ⟨Grows.refl s, hs⟩) fun s a s' hs hok =>
    ⟨h s a s' hok, (h s a s' hok hs).1⟩

theorem keeps_writeStatus {change : ChainRunChange} {note : ChainRunStatus → ChainEvent}
    (hnote : ∀ found, (∀ runId step key, note found ≠ .recorded runId step key) ∧
      ∀ key payload, note found ≠ .sent key payload) :
    Keeps (Grows codec) (Grows codec) (Kept codec) (stmt (writeStatus runId change note)) := by
  refine keeps_grows fun s a s' h => ?_
  cases h
  refine grows_plain rfl rfl (RowsStay.refl _) (fun runId step key hmem => ?_) (fun key payload hmem => ?_)
  · obtain ⟨r, -, heq⟩ := Option.map_eq_some_iff.1 (Option.mem_toList.1 hmem)
    exact absurd heq ((hnote r.status).1 runId step key)
  · obtain ⟨r, -, heq⟩ := Option.map_eq_some_iff.1 (Option.mem_toList.1 hmem)
    exact absurd heq ((hnote r.status).2 key payload)

theorem triple_looks :
    Triple (Grows codec) (Grows codec) (Kept codec) (outboxAlreadyHasKey runId step key)
      (fun found s => if found = true then Ready codec runId step key s else Kept codec s) (fun _ => Kept codec) := by
  have hpost (found : Bool) : Stable (Grows codec)
      (fun s => if found = true then Ready codec runId step key s else Kept codec s) := by
    cases found
    · exact stable_kept
    · exact stable_ready
  have hmove (s : ChainState) (found : Option (List UInt8)) :
      Grows codec s { s with log := s.log ++ [.looked runId step found] } :=
    grows_plain rfl rfl (RowsStay.refl _) (by simp) (by simp)
  refine Triple.atomic stable_kept (fun s _ => hmove s _) hpost (fun _ => stable_kept) fun s hs => ?_
  have hend := (hmove s ((outboxRow key s.db).map OutboxRec.payload) hs).1
  simp only [Calls.transact]
  cases hrow : outboxRow key s.db with
  | none => simpa [hrow] using hend
  | some o =>
    rw [hrow] at hend
    exact ⟨hend, fun hfinds => ⟨o, hrow, hfinds runId step o.payload (by simp)⟩⟩

theorem triple_enqueues {row : OutboxRow} {now : Int} (hencode : codec.encode (step.effect runId) = .ok row.payload) :
    Triple (Grows codec) (Grows codec) (Kept codec) (stmt (enqueueStep row runId step now))
      (fun _ => Ready codec runId step row.idempotencyKey) (fun _ => Kept codec) := by
  refine triple_stmt stable_kept (fun _ => stable_ready) stable_kept (fun s hs => ⟨Grows.refl s, hs⟩) fun s a s' hs h => ?_
  obtain ⟨db, rfl, -, ⟨o, ho, hpayload⟩, hkept⟩ := enqueueStep_ok h
  have hmove : Grows codec s { s with db := db, log := s.log ++ [.enqueued runId step] } :=
    grows_plain rfl rfl (fun key r hr => ⟨r, hkept key r hr, rfl⟩) (by simp) (by simp)
  exact ⟨hmove, (hmove hs).1, fun _ => ⟨o, ho, hpayload ▸ hencode⟩⟩

theorem grows_recordStep {outboxKey : Option String} {now : Int} {a : Unit}
    (hkey : ∀ key, outboxKey = some key → Ready codec runId step key s)
    (hnone : outboxKey = none → step.effectKind = none) (h : recordStep runId step outboxKey now s = .ok (a, s')) :
    Grows codec s s' := by
  unfold recordStep at h
  split at h
  · cases h
  · cases h
    intro hs
    have hfront : s.log <+: s.log ++ [.recorded runId step outboxKey] := List.prefix_append ..
    refine ⟨⟨?_, ?_, ?_, ?_⟩, hfront, RowsStay.refl _⟩
    · intro hfinds r st key hmem
      rcases List.mem_append.1 hmem with hmem | hmem
      · exact hs.stored (hfinds.of_prefix hfront) r st key hmem
      · obtain ⟨rfl, rfl, hsome⟩ := ChainEvent.recorded.inj (List.mem_singleton.1 hmem)
        exact (hkey key hsome.symm).2 (hfinds.of_prefix hfront)
    · intro r st hmem
      rcases List.mem_append.1 hmem with hmem | hmem
      · exact hs.effect r st hmem
      · obtain ⟨rfl, rfl, hsome⟩ := ChainEvent.recorded.inj (List.mem_singleton.1 hmem)
        exact hnone hsome.symm
    · intro key payload hmem
      exact hs.sent key payload (by simpa using hmem)
    · -- the new row, or the one it overwrote, was recorded last under this key
      intro q hq
      obtain ⟨p, hp, hpq, ⟨hne, rfl⟩ | ⟨hsame, rfl⟩⟩ := Keyed.mem_update hq
      · rcases Keyed.mem_insertOrIgnore hp with hp | rfl
        · obtain ⟨st, hmem, hindex⟩ := hs.rows q hp
          exact ⟨st, hfront.subset hmem, hindex⟩
        · exact absurd rfl hne
      · obtain ⟨hrun, hindex⟩ := Prod.mk.inj (hpq.trans hsame)
        refine ⟨step, ?_, hindex.symm⟩
        have happly : (stepChange outboxKey now).apply p = { p with outboxKey := outboxKey, updatedAt := now } := rfl
        rw [happly]
        exact List.mem_append_right _ (by simp [hrun])

/-- **The outline of the effects**: the same for every worker. -/
def effectOutline (codec : ChainCodec) (worker : Nat) : Outline codec worker where
  rely := Grows codec
  guar := Grows codec
  New _ := True
  Rest := Kept codec
  Exec _ := Kept codec
  Ready := Ready codec
  Seen _ := True
  Loaded _ _ := True
  Knows _ _ _ _ := True
  rest := frame_kept
  exec _ := frame_kept
  ready _ _ _ := stable_ready
  exec_rest _ _ h := h
  resolve _ := (keeps_query frame_kept _).weaken (fun _ h => h) (fun _ _ h => ⟨h, fun _ _ => trivial⟩) (fun _ _ h => h)
  load _ := (keeps_loadPlan frame_kept _).weaken (fun _ h => h) (fun _ _ h => ⟨h, trivial⟩) (fun _ _ h => h)
  knows _ _ _ _ _ := trivial
  new _ _ _ _ _ := trivial
  new_exec _ _ _ h := h
  opens _ _ _ _ _ := keeps_writeStatus (by simp)
  begins _ _ := keeps_writeStatus (by simp)
  closes _ _ _ _ _ := keeps_writeStatus (by simp)
  looks _ _ _ := triple_looks
  enqueues _ _ _ _ _ _ _ _ _ _ _ hencode := triple_enqueues hencode
  records _ _ key _ := triple_stmt stable_ready (fun _ => stable_kept) stable_kept (fun s hs => ⟨Grows.refl s, hs.1⟩)
    fun s a s' hs h => by
      have hmove := grows_recordStep (fun k hk => Option.some.inj hk ▸ hs) (by simp) h
      exact ⟨hmove, (hmove hs.1).1⟩
  notes _ step now hnone := keeps_grows fun s a s' h => grows_recordStep (by simp) (fun _ => hnone) h

structure NeverDropped (codec : ChainCodec) (s : ChainState) : Prop where
  stored : ∀ runId step key, .recorded runId step (some key) ∈ s.log → Stored codec key (step.effect runId) s
  keyed : ∀ runId step, .recorded runId step none ∈ s.log → step.effectKind = none
  rows : ∀ r ∈ s.steps.rows, ∃ step, .recorded r.runId step r.outboxKey ∈ s.log ∧ step.stepIndex = r.stepIndex
  apart : ∀ runId runId' step step' key, .recorded runId step (some key) ∈ s.log →
    .recorded runId' step' (some key) ∈ s.log → runId = runId' ∧ step.stepIndex = step'.stepIndex
  sends : ∀ runId step key payload, .recorded runId step (some key) ∈ s.log → .sent key payload ∉ s.log

def Tells (codec : ChainCodec) : Prop :=
  ∀ e e' bytes, codec.encode e = .ok bytes → codec.encode e' = .ok bytes →
    e.runId = e'.runId ∧ e.stepIndex = e'.stepIndex

def SendsOther (codec : ChainCodec) (log : List ChainEvent) : Prop :=
  ∀ key payload, .sent key payload ∈ log → ∀ e, codec.encode e ≠ .ok payload

theorem kept_run {p p' : ChainPool} {es : List (Event ChainCall (Except String ChainResult) ChainEnv)}
    (hsteps : p.shared.steps.rows = []) (hlog : p.shared.log = []) (hidle : ∀ i, p.procs i = none)
    (hrun : ChainRun codec p es p') : Kept codec p'.shared := by
  have hstart : Kept codec p.shared := by constructor <;> simp [hsteps, hlog]
  refine (Pool.together_run (fun _ => Grows.refl)
    (fun _ _ _ _ => Grows.trans) (fun _ _ _ _ _ _ h => h) (fun _ _ o _ => grows_env o) (fun _ _ _ hs h => (h hs).1)
    (fun _ o hs => (grows_env o hs).1) (fun i c s hs => (effectOutline codec i).ensures c hs) hrun hstart ?_).1
  intro i c q hi
  rw [hidle i] at hi
  cases hi

/-- **Effects are never dropped**, if every row found under a step's key is that step's own. -/
theorem neverDropped (codec : ChainCodec) (p p' : ChainPool)
    (es : List (Event ChainCall (Except String ChainResult) ChainEnv)) (hsteps : p.shared.steps.rows = [])
    (hlog : p.shared.log = []) (hidle : ∀ i, p.procs i = none) (hrun : ChainRun codec p es p') (htells : Tells codec)
    (hother : SendsOther codec p'.shared.log) (hfinds : FindsOwn codec p'.shared.log) :
    NeverDropped codec p'.shared := by
  have hkept := kept_run hsteps hlog hidle hrun
  refine ⟨hkept.stored hfinds, hkept.effect, hkept.rows, ?_, ?_⟩
  · intro runId runId' step step' key hmem hmem'
    obtain ⟨o, ho, hencode⟩ := hkept.stored hfinds runId step key hmem
    obtain ⟨o', ho', hencode'⟩ := hkept.stored hfinds runId' step' key hmem'
    cases ho.symm.trans ho'
    exact htells _ _ _ hencode hencode'
  · intro runId step key payload hmem hsent
    obtain ⟨o, ho, hencode⟩ := hkept.stored hfinds runId step key hmem
    obtain ⟨o', ho', hpayload⟩ := hkept.sent key payload hsent
    cases ho.symm.trans ho'
    exact hother key payload hsent _ (hpayload ▸ hencode)

/-! ## A chat turn's send and a chain step -/

open Approval

def sampleSend (turnSeq : Int) : OutboxRow where
  idempotencyKey := mint "c" turnSeq 0
  conversationId := "c"
  effectKind := "transport_send"
  payload := [0x92]
  enqueuedSeq := turnSeq

theorem tells_sample : Tells sampleCodec := by
  intro e e' bytes h h'
  have honly {e : ChainEffect} (h : sampleCodec.encode e = .ok bytes) : e = sampleChainStep.effect "r" := by
    simp only [sampleCodec] at h
    split at h
    · assumption
    · cases h
  rw [honly h, honly h']
  exact ⟨rfl, rfl⟩

def sendThenRun : List (Turn ChainCall ChainEnv) := .env (.queued (sampleSend 7) 0) :: granted

/-- **The hypotheses can be met**: the send and the step have rows of their own. -/
theorem neverDropped_sample : ∃ es p', ChainRun sampleCodec samplePool es p' ∧
    .recorded "r" sampleChainStep (some "c:1:0") ∈ p'.shared.log ∧ NeverDropped sampleCodec p'.shared := by
  have hplay : (samplePool.play (prog sampleCodec) env sendThenRun).map (fun p => p.shared.log) =
      some [.sent "c:7:0" [0x92], .opened 0 "r" .awaitingApproval .running, .looked "r" sampleChainStep none,
        .enqueued "r" sampleChainStep, .recorded "r" sampleChainStep (some "c:1:0"), .closed 0 "r" .running .completed] := by
    decide +kernel
  obtain ⟨p', hp', hlog⟩ := Option.map_eq_some_iff.1 hplay
  obtain ⟨es, hes⟩ := Pool.run_of_play hp'
  refine ⟨es, p', hes, by rw [hlog]; simp, neverDropped sampleCodec samplePool p' es rfl rfl (fun _ => rfl) hes
    tells_sample ?_ ?_⟩
  · intro key payload hmem e
    rw [hlog] at hmem
    have hpayload : key = "c:7:0" ∧ payload = [0x92] := by simpa using hmem
    simp only [sampleCodec, hpayload.2]
    split <;> simp
  · intro runId step payload hmem
    rw [hlog] at hmem
    simp at hmem

def sameSeq : List (Turn ChainCall ChainEnv) :=
  [.env (.queued (sampleSend 1) 0), .call 0 (resolving .approve)] ++ List.replicate 7 (.step 0)

/-- **The step is dropped for the send**: it is recorded as completed, and its row is the send's. -/
theorem sameSeq_dropped : ∃ es p', (samplePool.shared.steps.rows = [] ∧ samplePool.shared.log = [] ∧
    ∀ i, samplePool.procs i = none) ∧ ChainRun sampleCodec samplePool es p' ∧ Tells sampleCodec ∧
    SendsOther sampleCodec p'.shared.log ∧ ¬ NeverDropped sampleCodec p'.shared := by
  have hplay : (samplePool.play (prog sampleCodec) env sameSeq).map (fun p => p.shared.log) =
      some [.sent "c:1:0" [0x92], .opened 0 "r" .awaitingApproval .running, .looked "r" sampleChainStep (some [0x92]),
        .recorded "r" sampleChainStep (some "c:1:0"), .closed 0 "r" .running .completed] := by decide +kernel
  obtain ⟨p', hp', hlog⟩ := Option.map_eq_some_iff.1 hplay
  obtain ⟨es, hes⟩ := Pool.run_of_play hp'
  refine ⟨es, p', ⟨rfl, rfl, fun _ => rfl⟩, hes, tells_sample, ?_, fun h => ?_⟩
  · intro key payload hmem e
    rw [hlog] at hmem
    have hpayload : key = "c:1:0" ∧ payload = [0x92] := by simpa using hmem
    simp only [sampleCodec, hpayload.2]
    split <;> simp
  · exact h.sends "r" sampleChainStep "c:1:0" [0x92] (by rw [hlog]; simp) (by rw [hlog]; simp)

end ToolChain

end Execlaw
