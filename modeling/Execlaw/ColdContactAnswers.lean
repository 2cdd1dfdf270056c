import Execlaw.ColdContactRuns
import Execlaw.PrincipalMergeRuns
/-!
# ColdContactAnswers — an approval that is answered once, in every run

The handler does not know a decided approval from an open one.  In a run where every response that comes behind a
decision finds nothing left to do, an approval gives one turn to the agent, and a response behind a decision that has
taken effect moves nothing.
-/
namespace Execlaw

open Table Interleave Steps

abbrev ContactResult := Except ApiError (Option ApprovalResponse)

abbrev ContactPool := Pool ContactDb ContactCall ContactResult

abbrev ContactStepEvent := Event ContactCall ContactResult Empty

def contactStep (lib : ContactLib) : ContactPool → ContactStepEvent → ContactPool → Prop :=
  Pool.Step (fun _ => ContactCall.run lib) (fun _ e => e.elim)

def begins (lib : ContactLib) (a : String) : ContactStepEvent → Bool
  | .call _ c => c.decides lib a
  | _ => false

def takesEffect (lib : ContactLib) (a : String) : ContactStepEvent → Bool
  | .returns _ c (.ok (some _)) => c.decides lib a
  | _ => false

/-- The last call of process `i` came behind such an event. -/
def Behind (kind : ContactStepEvent → Bool) (es : List ContactStepEvent) (i : Nat) : Prop :=
  ∃ earlier c since, es = earlier ++ .call i c :: since ∧ (∀ d, .call i d ∉ since) ∧ ∃ e ∈ earlier, kind e = true

def Late (lib : ContactLib) (es : List ContactStepEvent) (i : Nat) (a : String) (call : ContactCall) : Prop :=
  call.decides lib a = true ∧ Behind (begins lib a) es i ∨ Behind (takesEffect lib a) es i

def Answered (lib : ContactLib) (start : ContactPool) (es : List ContactStepEvent) : Prop :=
  ∀ pre post m, es = pre ++ post → Run (contactStep lib) start pre m → ∀ i a req o now clock q,
    m.procs i = some (.respond a req o now clock, q) → Late lib pre i a (.respond a req o now clock) →
      NothingLeft lib a req m.shared

section Runs

variable {lib : ContactLib} {start p p' : ContactPool} {es : List ContactStepEvent} {c : ContactCall}

theorem Behind.earlier {kind : ContactStepEvent → Bool} {i : Nat} {earlier since : List ContactStepEvent}
    (h : Behind kind (earlier ++ .call i c :: since) i) (hlast : ∀ d, .call i d ∉ since) :
    ∃ e ∈ earlier, kind e = true := by
  obtain ⟨earlier', d, since', heq, -, e, he, hkind⟩ := h
  rcases List.append_eq_append_iff.1 heq with ⟨as, rfl, h⟩ | ⟨bs, rfl, h⟩
  · cases as with
    | nil => exact ⟨e, by simpa using he, hkind⟩
    | cons x as =>
      obtain ⟨-, hsince⟩ := List.cons.inj h
      exact absurd (hsince ▸ by simp) (hlast d)
  · exact ⟨e, by simp [he], hkind⟩

theorem moving_idle (hidle : ∀ i, start.procs i = none) : start.Moving fun _ => Within lib := by
  intro i c q hi
  rw [hidle i] at hi
  cases hi

theorem onward_run (hmoving : start.Moving fun _ => Within lib) (hrun : Run (contactStep lib) start es p) :
    Onward start.shared p.shared := by
  obtain ⟨-, hrun⟩ := Pool.moves_run (fun _ => within_run lib) hmoving hrun
  refine run_invariant (P := fun p => Onward start.shared p.shared) hrun (.refl _) fun m e m' hm ⟨_, hmove⟩ => ?_
  cases hmove with
  | still hsame => rwa [hsame]
  | took _ hmoved => exact hm.trans hmoved.onward
  | @outside e => exact e.elim

/-! ### Late responses -/

def AnswerStep (lib : ContactLib) : ContactCall → List ContactDb → ContactDb → ContactDb → Prop
  | .respond a req _ _ _ => IdleStep lib a req
  | .revoke _ _ _ _ | .setTrust _ _ _ _ => fun _ _ _ => True

theorem tells_anything {α : Type} (p : Prog ContactDb α) : p.Tells (fun _ _ _ => True) (fun _ _ => True) [] := by
  have h := @Prog.tells_of_forall _ _ (fun _ _ _ => True) (fun _ _ => True) [] (fun _ _ _ => trivial)
    (fun _ (_ : α) => trivial) p []
  exact h

theorem tells_run (call : ContactCall) : (call.run lib).Tells (AnswerStep lib call) (fun _ _ => True) [] := by
  cases call with
  | respond a req o now clock => exact idleStep_run lib a req o now clock
  | revoke id reason now clock | setTrust id req now clock =>
    exact tells_anything _

theorem late_step (hidle : ∀ i, start.procs i = none) (hrun : Run (contactStep lib) start es p)
    (h : Answered lib start es) {i : Nat} {a : String} {req : ApprovalRequest} {o : MapOrder} {now clock : Int}
    {q : Prog ContactDb ContactResult} (hi : p.procs i = some (.respond a req o now clock, q))
    (hlate : Late lib es i a (.respond a req o now clock)) (hstep : contactStep lib p (.step i) p') :
    Unmoved p.shared p'.shared := by
  obtain ⟨c, q', begun, since, met, hc, hsince, hmet, htold⟩ :=
    Pool.tells_step (fun _ _ _ h => h) hidle (fun _ => tells_run) hrun hstep
  cases hi.symm.trans hc
  obtain ⟨earlier, rfl, hbegun⟩ := hsince.before
  -- at each moment of the call, it was behind the same events
  have hbehind : ∀ {kind : ContactStepEvent → Bool} {pre : List ContactStepEvent} {post : List ContactStepEvent},
      since = pre ++ post → Behind kind (earlier ++ .call i (.respond a req o now clock) :: since) i →
        Behind kind (earlier ++ .call i (.respond a req o now clock) :: pre) i := by
    rintro kind pre post rfl hkind
    exact ⟨earlier, _, pre, rfl, fun d hd => hsince.last d (by simp [hd]), hkind.earlier hsince.last⟩
  have hleft : ∀ {pre post : List ContactStepEvent} {m : ContactPool}, since = pre ++ post →
      Run (contactStep lib) begun pre m → Run (contactStep lib) m post p → NothingLeft lib a req m.shared := by
    intro pre post m heq hpre hpost
    obtain ⟨q', hq'⟩ := Pool.in_call (fun _ _ _ h => h) hpost (fun d hd => hsince.last d (by simp [heq, hd])) hi
    refine h (earlier ++ .call i (.respond a req o now clock) :: pre) post m (by simp [heq]) ?_ i a req o now clock q' hq' ?_
    · rw [List.append_cons]
      exact run_append.2 ⟨begun, hbegun, hpre⟩
    · exact hlate.imp (fun hboth => ⟨hboth.1, hbehind heq hboth.2⟩) (hbehind heq)
  refine htold (fun r hr => ?_) fun r hr => ?_
  · obtain ⟨pre, post, m, hpre, hpost, rfl⟩ := (hmet r hr).split hsince
    obtain ⟨hmoving, -⟩ := Pool.moves_run (fun _ => within_run lib) (moving_idle hidle) hpre
    exact onward_run hmoving hpost
  · rcases List.mem_append.1 hr with hr | hr
    · obtain ⟨pre, post, m, heq, hpre, hpost, rfl⟩ := hmet r hr
      exact hleft heq hpre hpost
    · rw [List.mem_singleton.1 hr]
      exact hleft (List.append_nil since).symm hsince.run rfl

/-! ### The turns of an approval -/

theorem respond_of_decides {a : String} (h : c.decides lib a = true) :
    ∃ req o now clock, c = .respond a req o now clock := by
  cases c with
  | respond a' req o now clock =>
    simp only [ContactCall.decides, Bool.and_eq_true, decide_eq_true_eq] at h
    exact ⟨req, o, now, clock, by rw [h.1.1]⟩
  | revoke id reason now clock | setTrust id req now clock => cases h

theorem first_call {a : String} {i j : Nat} {c d : ContactCall} {earlier earlier' since since' : List ContactStepEvent}
    (h : earlier ++ .call i c :: since = earlier' ++ .call j d :: since') (hc : c.decides lib a = true)
    (hd : d.decides lib a = true) (hearlier : ∀ e ∈ earlier, begins lib a e = false)
    (hearlier' : ∀ e ∈ earlier', begins lib a e = false) : i = j := by
  have hfirst : ∀ {l r : List ContactStepEvent} {i : Nat} {c : ContactCall}, (∀ e ∈ l, begins lib a e = false) →
      c.decides lib a = true → (l ++ .call i c :: r).find? (begins lib a) = some (.call i c) := by
    intro l r i c hl hc
    rw [List.find?_append, List.find?_eq_none.2 (by simpa using hl), Option.none_or, List.find?_cons_of_pos (by exact hc)]
  have hfind := (hfirst (r := since) hearlier hc).symm.trans ((congrArg _ h).trans (hfirst hearlier' hd))
  simp only [Option.some.injEq, Event.call.injEq] at hfind
  exact hfind.1

/-- One turn at most; none before the first decision, and none while that one has steps to take. -/
structure OnceSoFar (lib : ContactLib) (a : String) (es : List ContactStepEvent) (p : ContactPool) : Prop where
  once : turnsOf a p.shared ≤ 1
  none_ : (∀ e ∈ es, begins lib a e = false) → turnsOf a p.shared = 0
  first : ∀ earlier i c since q, es = earlier ++ .call i c :: since → (∀ d, .call i d ∉ since) →
    (∀ e ∈ earlier, begins lib a e = false) → c.decides lib a = true → p.procs i = some (c, q) →
      turnsOf a p.shared = 0 ∨ ∃ x, q = .ret x

def TurnsLast (a : String) (p : ContactPool) : Prop := ∀ i c q, p.procs i = some (c, q) → q.AtLast (turnsOf a)

theorem turnsLast_step {a : String} (h : TurnsLast a p) {e : ContactStepEvent} (hstep : contactStep lib p e p') :
    TurnsLast a p' :=
  Pool.inFlight_step (fun _ c => atLast_run lib a c) (fun _ _ _ _ s hop => hop.cont s) h hstep

theorem snoc_eq {es earlier since : List ContactStepEvent} {e x : ContactStepEvent}
    (h : es ++ [e] = earlier ++ x :: since) :
    since = [] ∧ es = earlier ∧ e = x ∨ ∃ since', since = since' ++ [e] ∧ es = earlier ++ x :: since' := by
  rcases List.eq_nil_or_concat since with rfl | ⟨since', y, rfl⟩
  · obtain ⟨hes, he⟩ := List.append_inj' h rfl
    exact .inl ⟨rfl, hes, List.singleton_inj.1 he⟩
  · have h : es ++ [e] = (earlier ++ x :: since') ++ [y] := by simpa using h
    obtain ⟨hes, he⟩ := List.append_inj' h rfl
    exact .inr ⟨since', by rw [List.singleton_inj.1 he, List.concat_eq_append], hes⟩

theorem OnceSoFar.still {a : String} (h : OnceSoFar lib a es p) {e : ContactStepEvent}
    (hturns : turnsOf a p'.shared = turnsOf a p.shared)
    (hprocs : ∀ i c q, p'.procs i = some (c, q) → c.decides lib a = true →
      p.procs i = some (c, q) ∨ e = .call i c ∨ Behind (begins lib a) es i) : OnceSoFar lib a (es ++ [e]) p' where
  once := hturns ▸ h.once
  none_ := fun hnone => hturns ▸ h.none_ fun x hx => hnone x (by simp [hx])
  first := by
    intro earlier i c since q heq hlast hearlier hc hi
    rw [hturns]
    rcases snoc_eq heq with ⟨-, rfl, -⟩ | ⟨since', rfl, rfl⟩
    · exact .inl (h.none_ hearlier)
    have hlast' : ∀ d, .call i d ∉ since' := fun d hd => hlast d (by simp [hd])
    rcases hprocs i c q hi hc with hi | rfl | hbehind
    · exact h.first earlier i c since' q rfl hlast' hearlier hc hi
    · exact absurd (by simp) (hlast c)
    · obtain ⟨x, hx, hbegins⟩ := hbehind.earlier hlast'
      rw [hearlier x hx] at hbegins
      cases hbegins

theorem OnceSoFar.first_step {a : String} (h : OnceSoFar lib a es p) (hturns : TurnsLast a p) {i : Nat}
    {next : ContactDb → ContactDb} {cont : ContactDb → Prog ContactDb ContactResult}
    (hi : p.procs i = some (c, .op next cont)) (hc : c.decides lib a = true) {earlier since : List ContactStepEvent}
    (heq : es = earlier ++ .call i c :: since) (hlast : ∀ d, .call i d ∉ since)
    (hearlier : ∀ e ∈ earlier, begins lib a e = false) :
    OnceSoFar lib a (es ++ [.step i])
      ⟨next p.shared, Function.update p.procs i (some (c, cont p.shared))⟩ := by
  have hnone : turnsOf a p.shared = 0 := by
    rcases h.first earlier i c since _ heq hlast hearlier hc hi with hzero | ⟨x, hx⟩
    · exact hzero
    · cases hx
  rcases (hturns i c _ hi).next p.shared with hsame | ⟨hone, x, hx⟩
  · have hzero : turnsOf a (next p.shared) = 0 := hsame.trans hnone
    exact ⟨hzero.le.trans zero_le_one, fun _ => hzero, fun _ _ _ _ _ _ _ _ _ _ => .inl hzero⟩
  refine ⟨hone.trans (by rw [hnone]), fun hbegins => ?_, ?_⟩
  · have hcall := hbegins (.call i c) (by simp [heq])
    rw [begins, hc] at hcall
    cases hcall
  · intro earlier' j d since' q hsplit _ hearlier' hd hj
    right
    rcases snoc_eq hsplit with ⟨-, -, hcall⟩ | ⟨since'', -, hes⟩
    · cases hcall
    obtain rfl := first_call (heq.symm.trans hes) hc hd hearlier hearlier'
    simp only [hx, Function.update_self] at hj
    exact ⟨x, (Prod.mk.inj (Option.some.inj hj)).2.symm⟩

theorem once_step (hidle : ∀ i, start.procs i = none) (hrun : Run (contactStep lib) start es p)
    (hanswered : Answered lib start es) {a : String} (hturns : TurnsLast a p) (h : OnceSoFar lib a es p)
    {e : ContactStepEvent} (hstep : contactStep lib p e p') : OnceSoFar lib a (es ++ [e]) p' := by
  cases e with
  | call j d =>
    obtain ⟨-, rfl⟩ := hstep
    refine h.still rfl fun i c q hi _ => ?_
    by_cases hij : i = j
    · subst hij
      simp only [Function.update_self] at hi
      exact .inr (.inl (by rw [(Prod.mk.inj (Option.some.inj hi)).1]))
    · simp only [Function.update_of_ne hij] at hi
      exact .inl hi
  | step j =>
    obtain ⟨d, next, cont, hj, hp⟩ := hstep
    have hothers : (Behind (begins lib a) es j ∨ d.decides lib a = false) → ∀ i c q, p'.procs i = some (c, q) →
        c.decides lib a = true → p.procs i = some (c, q) ∨ (.step j : ContactStepEvent) = .call i c ∨
          Behind (begins lib a) es i := by
      intro hcase i c q hi hc
      by_cases hij : i = j
      · subst hij
        simp only [hp, Function.update_self] at hi
        cases hi
        rcases hcase with hbehind | hnot
        · exact .inr (.inr hbehind)
        · rw [hnot] at hc
          cases hc
      · simp only [hp, Function.update_of_ne hij] at hi
        exact .inl hi
    by_cases hd : d.decides lib a = true
    · obtain ⟨begun, since, met, hsince, -, -⟩ := Pool.since_run (fun _ _ _ h => h) hidle hrun hj
      obtain ⟨earlier, heq, -⟩ := hsince.before
      by_cases hbehind : Behind (begins lib a) es j
      · obtain ⟨req, o, now, clock, rfl⟩ := respond_of_decides hd
        have hmove := late_step hidle hrun hanswered hj (.inl ⟨hd, hbehind⟩) ⟨_, next, cont, hj, hp⟩
        exact h.still (by rw [turnsOf, hmove.dispatched, turnsOf]) (hothers (.inl hbehind))
      · rw [hp]
        refine h.first_step hturns hj hd heq hsince.last fun x hx => ?_
        by_contra hbegins
        exact hbehind ⟨earlier, d, since, heq, hsince.last, x, hx, by simpa using hbegins⟩
    · rw [Bool.not_eq_true] at hd
      obtain ⟨hmoving, -⟩ := Pool.moves_run (fun _ => within_run lib) (moving_idle hidle) hrun
      have hmove : Within lib d p.shared p'.shared := by
        rw [hp]
        exact (hmoving j d _ hj).next p.shared
      exact h.still (hmove.turns a hd) (hothers (.inr hd))
  | returns j d x =>
    obtain ⟨-, rfl⟩ := hstep
    exact h.still rfl (forall_update (fun i c q hi _ => .inl hi) fun _ _ heq => by cases heq)
  | crash j =>
    obtain rfl := hstep
    exact h.still rfl (forall_update (fun i c q hi _ => .inl hi) fun _ _ heq => by cases heq)
  | env e => exact e.elim

end Runs

structure DecidedOnce (lib : ContactLib) (es : List ContactStepEvent) (p : ContactPool) : Prop where
  once : ∀ a, turnsOf a p.shared ≤ 1
  spent : ∀ i a req o now clock q p', p.procs i = some (.respond a req o now clock, q) →
    Behind (takesEffect lib a) es i → contactStep lib p (.step i) p' → Unmoved p.shared p'.shared

/-- **A cold-contact approval decides once**, in a run where no late response finds anything left to do. -/
theorem decided_once {lib : ContactLib} {start p : ContactPool} {es : List ContactStepEvent}
    (hidle : ∀ i, start.procs i = none) (hfresh : ∀ a, turnsOf a start.shared = 0)
    (hrun : Run (contactStep lib) start es p) (h : Answered lib start es) : DecidedOnce lib es p where
  once := by
    intro a
    have hall : TurnsLast a p ∧ OnceSoFar lib a es p := by
      induction es using List.reverseRecOn generalizing p with
      | nil =>
        obtain rfl := hrun
        refine ⟨fun i c q hi => ?_, (hfresh a).le.trans zero_le_one, fun _ => hfresh a, fun _ _ _ _ _ _ _ _ _ _ =>
          .inl (hfresh a)⟩
        rw [hidle i] at hi
        cases hi
      | append_singleton es e ih =>
        obtain ⟨m, hm, he⟩ := run_snoc.1 hrun
        have hbefore : Answered lib start es := fun pre post m' heq => h pre (post ++ [e]) m' (by simp [heq])
        obtain ⟨hturns, honce⟩ := ih hm hbefore
        exact ⟨turnsLast_step hturns he, once_step hidle hm hbefore hturns honce he⟩
    exact hall.2.once
  spent := fun _ _ _ _ _ _ _ _ hi hbehind hstep => late_step hidle hrun h hi (.inr hbehind) hstep

/-! ### One response, and an old one -/

def sampleContactLib : ContactLib := ⟨sampleGroupLib, fun _ _ => .error "no token is signed here", "c"⟩

/-- The message of the unknown sender `s` waits for the operator's answer to the approval `ap`. -/
def parked : ContactPool where
  shared :=
    { ContactDb.empty with
      principals := (PrincipalTables.empty.upsert (samplePrincipal "c" "+1" .controller)).upsert
        (samplePrincipal "s" "+2" (.unknownPending 0 none))
      conversations := Keyed.empty.insertOrIgnore ⟨"k", .awaitingTrustDecision, "UnknownPending", none, 0⟩ trivial
      events := [("k", .coldContactArrived "hello" "s" "ap")] }
  procs := fun _ => none

def trustSender : ContactCall := .respond "ap" { verb := .trust } asListed 5 5

def senderClass (p : ContactPool) : Option String :=
  (p.shared.principals.get "s").map fun r => r.trustLevel.classTag

theorem not_late_of_single {lib : ContactLib} {i j : Nat} {c call : ContactCall} {a : String}
    {steps pre post : List ContactStepEvent} (hsteps : ∀ j d, .call j d ∉ steps)
    (h : .call i c :: steps = pre ++ post) : ¬Late lib pre j a call := by
  have hbehind : ∀ kind : ContactStepEvent → Bool, ¬Behind kind pre j := by
    rintro kind ⟨earlier, d, since, rfl, -, e, he, -⟩
    cases earlier with
    | nil => cases he
    | cons x earlier =>
      obtain ⟨-, hrest⟩ := List.cons.inj h
      exact hsteps j d (by simp [hrest])
  rintro (⟨-, hlate⟩ | hlate)
  · exact hbehind _ hlate
  · exact hbehind _ hlate

def ignoreAgain : ContactCall := .respond "ap" { verb := .ignoreOnce } asListed 7 7

def AllIdle (db : ContactDb) : Prop := ∀ row ∈ db.conversations.rows, row.phase = .idle

theorem allIdle_ignoreAgain : (ignoreAgain.run sampleContactLib).Moves fun db db' => AllIdle db → AllIdle db' := by
  have hread : ∀ {α : Type} (f : ContactDb → α), (Prog.read f).Moves fun db db' => AllIdle db → AllIdle db' :=
    fun f => Prog.moves_read fun _ h => h
  have hfind : (findColdContactEvent "ap").Moves fun db db' => AllIdle db → AllIdle db' := hread _
  unfold ignoreAgain ContactCall.run respondHandler
  refine hfind.bind fun found => ?_
  split
  · exact Prog.moves_ret _
  refine hfind.bind fun contact => ?_
  split
  · exact Prog.moves_ret _
  next contact =>
  refine Prog.Moves.bind ?_ fun _ => Prog.moves_ret _
  refine (hread _).bind fun row => ?_
  split
  · exact Prog.moves_ret _
  next row =>
  refine Prog.moves_atomic fun db hidle q hq => ?_
  rcases Keyed.mem_upsert hq with ⟨hq, -⟩ | rfl | ⟨q, -, -, rfl⟩
  · exact hidle q hq
  · rfl
  · rfl

def OnlyIgnores (p : ContactPool) : Prop :=
  AllIdle p.shared ∧ ∀ i c q, p.procs i = some (c, q) → c = ignoreAgain

theorem onlyIgnores_run {p p' : ContactPool} {es : List ContactStepEvent} (hnone : ∀ i, p.procs i = none)
    (hidle : AllIdle p.shared) (hcalls : ∀ i c, .call i c ∈ es → c = ignoreAgain)
    (hrun : Run (contactStep sampleContactLib) p es p') : OnlyIgnores p' := by
  have hprog : ∀ (_ : Nat) (c : ContactCall), (c.run sampleContactLib).Moves fun db db' =>
      c = ignoreAgain → AllIdle db → AllIdle db' := by
    intro _ c
    by_cases hc : c = ignoreAgain
    · subst hc
      exact allIdle_ignoreAgain.weaken fun _ _ hkeeps _ => hkeeps
    · exact (within_run sampleContactLib c).weaken fun _ _ _ heq => absurd heq hc
  have hidlers : ∀ {i cq}, p.procs i ≠ some cq := fun hi => by cases (hnone _).symm.trans hi
  obtain ⟨-, hrun⟩ := Pool.moves_run hprog (fun _ _ _ hi => absurd hi hidlers) hrun
  refine run_invariant (run_mem hrun) ⟨hidle, fun _ _ _ hi => absurd hi hidlers⟩ fun m e m' hm hstep => ?_
  obtain ⟨⟨hstep, hmove⟩, hmem⟩ := hstep
  constructor
  · cases hmove with
    | still hsame =>
      rw [hsame]
      exact hm.1
    | took hi hkeeps => exact hkeeps (hm.2 _ _ _ hi) hm.1
    | @outside e => exact e.elim
  · cases e with
    | call i c =>
      rw [hstep.2]
      exact forall_update hm.2 fun _ _ heq => (Prod.mk.inj (Option.some.inj heq)).1 ▸ hcalls i c hmem
    | step i =>
      obtain ⟨c, next, cont, hi, rfl⟩ := hstep
      exact forall_update hm.2 fun _ _ heq => (Prod.mk.inj (Option.some.inj heq)).1 ▸ hm.2 i c _ hi
    | returns i c x =>
      rw [hstep.2]
      exact forall_update hm.2 fun _ _ heq => by cases heq
    | crash i =>
      rw [show m' = _ from hstep]
      exact forall_update hm.2 fun _ _ heq => by cases heq
    | env e => exact e.elim

/-- **Trust, and then IgnoreOnce** on the conversation that is idle by then: the message is given to the agent once. -/
theorem decided_once_idle : ∃ es p, Run (contactStep sampleContactLib) parked es p ∧ DecidedOnce sampleContactLib es p ∧
    (∃ i, Behind (takesEffect sampleContactLib "ap") es i) ∧ senderClass p = some "KnownTrusted" ∧
    turnsOf "ap" p.shared = 1 := by
  obtain ⟨n, htrust⟩ := @Pool.run_alone _ _ _ Empty (fun _ => ContactCall.run sampleContactLib) (fun _ e => e.elim) parked 0
    trustSender rfl
  obtain ⟨n', hignore⟩ := @Pool.run_alone _ _ _ Empty (fun _ => ContactCall.run sampleContactLib) (fun _ e => e.elim)
    ⟨((trustSender.run sampleContactLib).alone parked.shared).2, parked.procs⟩ 1 ignoreAgain rfl
  have hrun := run_append.2 ⟨_, htrust, hignore⟩
  have hreturned : takesEffect sampleContactLib "ap" (.returns 0 trustSender
      ((trustSender.run sampleContactLib).alone parked.shared).1) = true := by decide +kernel
  refine ⟨_, _, hrun, decided_once (fun _ => rfl) (fun _ => rfl) hrun ?_,
    ⟨1, _, _, _, rfl, by simp, _, by simp, hreturned⟩, by decide +kernel, by decide +kernel⟩
  intro pre post m hsplit hm i a req o now clock q hi hlate
  rcases List.append_eq_append_iff.1 hsplit with ⟨later, rfl, hlater⟩ | ⟨rest, hfirst, -⟩
  · obtain ⟨m₁, hm₁, hm⟩ := run_append.1 hm
    obtain rfl := run_forward (fun _ _ _ _ _ h h' heq => Pool.step_unique h (heq ▸ h'))
      (List.forall₂_same.2 fun _ _ => rfl) htrust hm₁
    have hcalls : ∀ j d, .call j d ∈ later → d = ignoreAgain := fun j d hd => by
      have hmem := hlater ▸ List.mem_append_left post hd
      simp at hmem
      exact hmem.2
    obtain ⟨hidle, hall⟩ := onlyIgnores_run (fun _ => rfl) (by unfold AllIdle; decide +kernel) hcalls hm
    obtain ⟨-, rfl, -⟩ := ContactCall.respond.inj (hall i _ q hi)
    exact fun _ contact _ row hrow => hidle row (Keyed.row_iff.1 hrow).1
  · exact absurd hlate (not_late_of_single (by simp) hfirst)

def trustedThenRevoked : List (Turn ContactCall Empty) :=
  .call 0 trustSender :: List.replicate 9 (.step 0) ++
    [.returns 0, .call 1 (.revoke "s" none 6 6), .step 1, .step 1, .step 1, .returns 1]

def answeredAgain : List (Turn ContactCall Empty) := .call 2 trustSender :: List.replicate 9 (.step 2) ++ [.returns 2]

/-- **An old approval** trusts the sender blocked since, and gives its message to the agent again. -/
theorem old_approval_trusts_again : ∃ earlier later m p, Run (contactStep sampleContactLib) parked earlier m ∧
    Run (contactStep sampleContactLib) m later p ∧ senderClass m = some "Blocked" ∧
    senderClass p = some "KnownTrusted" ∧ ¬DecidedOnce sampleContactLib (earlier ++ later) p := by
  have hplay : ((parked.play (fun _ => ContactCall.run sampleContactLib) (fun _ e => e.elim) trustedThenRevoked).bind
      fun m => (m.play (fun _ => ContactCall.run sampleContactLib) (fun _ e => e.elim) answeredAgain).map fun p =>
        (senderClass m, senderClass p, turnsOf "ap" p.shared)) = some (some "Blocked", some "KnownTrusted", 2) := by
    decide +kernel
  obtain ⟨m, hm, hplay⟩ := Option.bind_eq_some_iff.1 hplay
  obtain ⟨p, hp, hends⟩ := Option.map_eq_some_iff.1 hplay
  simp only [Prod.mk.injEq] at hends
  obtain ⟨hblocked, htrusted, htwice⟩ := hends
  obtain ⟨earlier, hearlier⟩ := Pool.run_of_play hm
  obtain ⟨later, hlater⟩ := Pool.run_of_play hp
  refine ⟨earlier, later, m, p, hearlier, hlater, hblocked, htrusted, fun h => ?_⟩
  have honce := h.once "ap"
  omega

end Execlaw
