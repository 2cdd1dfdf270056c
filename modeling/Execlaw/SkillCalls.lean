import Execlaw.SkillRuns
/-!
# SkillCalls — the calls of the skill store, together

Whatever the other calls do between its transactions, each step of a call is a move of the store, and what it promises
of its answer holds from then on.  So the invariant holds in every state of every run, any two states of a run are a
step of `Evolves` apart, and what a maintainer relies on is read off the two.
-/
namespace Execlaw

open Table Interleave Steps

namespace SkillStore

variable {lib : SkillLib} {s s' : SkillStore} {α β : Type} {A : SkillStore → Prop} {B : α → SkillStore → Prop}

def Kept (lib : SkillLib) (A : SkillStore → Prop) : Prop := ∀ s s', Evolves lib s s' → A s → A s'

def Safe (lib : SkillLib) (A : SkillStore → Prop) (p : SkillProg α) (B : α → SkillStore → Prop) : Prop :=
  Triple (Move lib) (Move lib) (fun s => Sound lib s ∧ A s) p (fun a s => Sound lib s ∧ B a s) fun _ _ => True

theorem Kept.stable (hA : Kept lib A) : Stable (Move lib) fun s => Sound lib s ∧ A s := fun s s' hs hmove =>
  ⟨(hmove hs.1).1, hA s s' (hmove hs.1).2 hs.2⟩

theorem kept_true : Kept lib fun _ => True := fun _ _ _ _ => trivial

namespace Safe

variable {C : β → SkillStore → Prop}

theorem bind {p : SkillProg α} {f : α → SkillProg β} (hp : Safe lib A p B) (hf : ∀ a, Safe lib (B a) (f a) C) :
    Safe lib A (p >>= f) C :=
  Triple.bind Move.refl (fun _ _ _ _ _ => trivial) hp hf

theorem ret (hA : Kept lib A) {res : Except SkillError α} (h : ∀ a, res = .ok a → ∀ s, A s → B a s) :
    Safe lib A (ExceptT.mk (Prog.ret res)) B :=
  Triple.lift hA.stable (fun a s hres hs => ⟨hs.1, h a hres s hs.2⟩) fun _ _ _ _ => trivial

theorem checking (hA : Kept lib A) (checked : Except SkillError Unit) :
    Safe lib A (SkillStore.checking checked) fun _ => A :=
  ret hA fun _ _ _ => id

theorem query (hA : Kept lib A) (hB : ∀ a, Kept lib (B a)) {f : SkillStore → Except SkillError α}
    (h : ∀ s a, Sound lib s → A s → f s = .ok a → B a s) : Safe lib A (SkillStore.query f) B :=
  Triple.atomic (f := fun s => (f s, s)) hA.stable (fun s _ => Move.refl s) (fun a => (hB a).stable)
    (fun _ _ _ _ _ => trivial) fun s hs => by
      cases hf : f s with
      | ok a => exact ⟨hs.1, h s a hs.1 hs.2 hf⟩
      | error e => trivial

variable {body : SkillStore → Except DbError (α × SkillStore)} {fails : DbError → SkillError}

theorem transaction (hA : Kept lib A) (hB : ∀ a, Kept lib (B a))
    (h : ∀ s a s', Sound lib s → A s → body s = .ok (a, s') → (Sound lib s' ∧ Evolves lib s s') ∧ B a s') :
    Safe lib A (SkillStore.transaction fails body) B := by
  refine Triple.atomic hA.stable (fun s hs => ?_) (fun a => (hB a).stable) (fun _ _ _ _ _ => trivial) fun s hs => ?_
  · cases hbody : body s with
    | ok res => exact fun _ => (h s res.1 res.2 hs.1 hs.2 hbody).1
    | error e => exact Move.refl s
  · cases hbody : body s with
    | ok res =>
      obtain ⟨⟨hsound, -⟩, hB⟩ := h s res.1 res.2 hs.1 hs.2 hbody
      exact ⟨hsound, hB⟩
    | error e => trivial

theorem write (hA : Kept lib A) (h : ∀ s a s', Sound lib s → body s = .ok (a, s') → Sound lib s' ∧ Evolves lib s s') :
    Safe lib A (SkillStore.transaction fails body) fun _ => A :=
  transaction hA (fun _ => hA) fun s a s' hs hAs hbody =>
    ⟨h s a s' hs hbody, hA s s' (h s a s' hs hbody).2 hAs⟩

theorem map {f : α → β} {p : SkillProg α} (hC : ∀ b, Kept lib (C b)) (hp : Safe lib A p fun a => C (f a)) :
    Safe lib A (f <$> p) C := by
  intro s hs
  refine Prog.Ensures.bind Move.refl ?_ (hp s hs)
  intro res s hres
  cases res with
  | ok a => exact fun s' hmove => (hC (f a)).stable s s' hres hmove
  | error e => exact fun _ _ => trivial

end Safe

variable {now : Int}

theorem safe_create (hA : Kept lib A) (new : NewSkill) (strictness : Strictness) :
    Safe lib A (create lib new strictness now) fun _ => A :=
  (Safe.checking hA _).bind fun _ => Safe.write hA fun _ _ _ hs hrun => move_create hs hrun

theorem safe_addVersion (hA : Kept lib A) (name : String) (v : NewSkillVersion) (strictness : Strictness) :
    Safe lib A (addVersion lib name v strictness now) fun _ => A :=
  (Safe.checking hA _).bind fun _ => Safe.write hA fun _ _ _ hs hrun => move_addVersion hs hrun

def Asks (pid : Nat) (p : SkillProposal) (s : SkillStore) : Prop :=
  ∃ q ∈ s.proposals, q.id = pid ∧ q.kind = p.kind ∧ q.targetSkillId = p.targetSkillId

theorem kept_asks (pid : Nat) (p : SkillProposal) : Kept lib (Asks pid p) := by
  rintro s s' h ⟨q, hq, hid, hkind, htarget⟩
  obtain ⟨q', hq', hid', hleads⟩ := h.proposals q hq
  exact ⟨q', hq', hid'.trans hid, hleads.kind.1.trans hkind, hleads.kind.2.trans htarget⟩

theorem kept_and {A' : SkillStore → Prop} (hA : Kept lib A) (hA' : Kept lib A') : Kept lib fun s => A s ∧ A' s :=
  fun s s' h hs => ⟨hA s s' h hs.1, hA' s s' h hs.2⟩

theorem safe_writeProposal (hA : Kept lib A) (p : SkillProposal) (reviewer : String) (notes : Option String) :
    Safe lib A (writeProposal lib p reviewer notes now) fun skillId s =>
      A s ∧ (p.kind = .versionFork → p.targetSkillId = some skillId) := by
  have hfixed : ∀ P : Prop, Kept lib fun s => A s ∧ P := fun P => kept_and hA fun _ _ _ => id
  unfold writeProposal
  split
  · next hkind =>
    refine (safe_create hA _ _).weaken (fun _ => id) (fun a s hs => ⟨hs.1, hs.2, fun hfork => ?_⟩) fun _ _ _ => trivial
    rw [hkind] at hfork
    cases hfork
  · exact Safe.ret hA fun _ hres => by cases hres
  · next target _ htarget =>
    refine Safe.bind (Safe.query hA (fun _ => hA) fun _ _ _ hAs _ => hAs) fun name => ?_
    exact (safe_addVersion hA name _ _).bind fun _ => Safe.ret hA fun a ha s hs =>
      ⟨hs, fun _ => htarget.trans (congrArg some (Except.ok.inj ha))⟩

theorem safe_approveProposal (pid : Nat) (reviewer : String) (notes : Option String) :
    Safe lib (fun _ => True) (approveProposal lib pid reviewer notes now) fun _ _ => True := by
  refine Safe.bind (B := fun p => Asks pid p) ?_ fun p => ?_
  · refine Safe.query kept_true (kept_asks pid) fun s p _ _ hread => ?_
    unfold pendingProposal at hread
    split at hread
    · cases hread
    · next q hq =>
      split at hread
      · obtain rfl := Except.ok.inj hread
        exact ⟨q, mem_of_byKey hq, key_of_byKey hq, rfl, rfl⟩
      · cases hread
  refine (safe_writeProposal (kept_asks pid p) p reviewer notes).bind fun skillId => ?_
  have hasks : Kept lib fun s => Asks pid p s ∧ (p.kind = .versionFork → p.targetSkillId = some skillId) :=
    kept_and (kept_asks pid p) fun _ _ _ => id
  let written := fun (versionId : Nat) (s : SkillStore) =>
    (Asks pid p s ∧ (p.kind = .versionFork → p.targetSkillId = some skillId)) ∧
      ∃ v ∈ s.versions, v.id = versionId ∧ v.skillId = skillId
  have hwritten : ∀ versionId, Kept lib (written versionId) := fun versionId => by
    refine kept_and hasks ?_
    rintro s s' h ⟨v, hv, hid, hskill⟩
    obtain ⟨v', hv', hid', hskill'⟩ := h.onward v hv
    exact ⟨v', hv', hid'.trans hid, hskill'.trans hskill⟩
  refine Safe.bind (B := written) (Safe.query hasks hwritten fun s versionId hs hA hread => ⟨hA, ?_⟩) fun versionId => ?_
  · unfold currentVersionIdOf at hread
    split at hread
    · cases hread
    · next r hr =>
      cases hcurrent : r.currentVersionId with
      | none =>
        rw [hcurrent] at hread
        cases hread
      | some id =>
        rw [hcurrent] at hread
        cases hread
        obtain ⟨-, hlast⟩ := hs.ordered.of_current (mem_of_byKey hr) hcurrent
        obtain ⟨v, hv, hid⟩ := Option.map_eq_some_iff.1 hlast
        obtain ⟨hmem, hskill⟩ := List.mem_filter.1 (List.mem_of_getLast? hv)
        exact ⟨v, hmem, hid, (of_decide_eq_true hskill).trans (key_of_byKey hr)⟩
  · refine Safe.bind (B := fun _ _ => True) (Safe.transaction (hwritten versionId) (fun _ => kept_true) ?_) fun _ =>
      Safe.ret kept_true fun _ _ _ _ => trivial
    intro s _ s' hs hw hrun
    obtain ⟨⟨⟨q, hq, hid, hkind, htarget⟩, hfork⟩, hversion⟩ := hw
    cases hrun
    refine ⟨move_mark hs hversion fun x hx hxid hxkind => ?_, trivial⟩
    obtain rfl := eq_of_key (nodup_range hs.listed.ids) hx hq (hxid.trans hid.symm)
    exact htarget.trans (hfork (hkind.symm.trans hxkind))

def Promised (lib : SkillLib) : SkillCall → Except SkillError SkillReply → SkillStore → Prop
  | .forget name _ _ _, .ok (.report r), s => r.alreadyForgotten = false → Gone lib name s
  | _, _, _ => True

theorem kept_gone (name : String) (b : Bool) : Kept lib fun s => b = false → Gone lib name s :=
  fun _ _ h hs hfirst => h.gone (hs hfirst)

theorem kept_promised (c : SkillCall) (res : Except SkillError SkillReply) : Kept lib (Promised lib c res) := by
  intro s s' h hs
  unfold Promised at hs ⊢
  split
  · exact kept_gone _ _ s s' h hs
  · trivial

theorem gone_of_forgetBody (h : Sound lib s) {name requestedBy uuid : String} {report : SkillPrivacyDeletionReport}
    (hrun : s.forgetBody lib name requestedBy uuid now = .ok (report, s')) (hfirst : report.alreadyForgotten = false) :
    Gone lib name s' := by
  obtain ⟨-, hevolves⟩ := move_forget h hrun
  unfold forgetBody at hrun
  dsimp only at hrun
  split at hrun
  · split at hrun <;> cases hrun
    cases hfirst
  · next r hr =>
    split at hrun
    · cases hrun
      cases hfirst
    · next hlive =>
      split at hrun
      · cases hrun
      · split at hrun
        · cases hrun
        · cases hrun
          obtain rfl : r.name = name := key_of_byKey hr
          refine hevolves.leaves r (mem_of_byKey hr) (Bool.eq_false_iff.2 hlive) ?_
          rw [forgotten_scrub]
          simp

theorem safe_forget (name requestedBy uuid : String) : Safe lib (fun _ => True)
    (forget lib name requestedBy uuid now) fun report s => report.alreadyForgotten = false → Gone lib name s :=
  (Safe.checking kept_true _).bind fun _ => (Safe.checking kept_true _).bind fun _ =>
    Safe.transaction kept_true (fun report => kept_gone name report.alreadyForgotten) fun _ _ _ hs _ hrun =>
      ⟨move_forget hs hrun, gone_of_forgetBody hs hrun⟩

theorem ensures_of_safe {c : SkillCall} {p : SkillProg SkillReply} (hs : Sound lib s)
    (hp : Safe lib (fun _ => True) p fun reply s => Promised lib c (.ok reply) s)
    (herr : ∀ e s, Promised lib c (.error e) s) : p.run.Ensures (Move lib) (Move lib) (Promised lib c) s := by
  refine (hp s ⟨hs, trivial⟩).mono fun res s hres => ?_
  cases res with
  | ok a => exact hres.2
  | error e => exact herr e s

theorem ensures_call (i : Nat) (c : SkillCall) (hs : Sound lib s) :
    (SkillCall.prog lib i c).Ensures (Move lib) (Move lib) (Promised lib c) s := by
  have hquiet : ∀ {γ : Type} {f : γ → SkillReply} {p : SkillProg γ}, Safe lib (fun _ => True) p (fun _ _ => True) →
      (∀ res s, Promised lib c res s) → (f <$> p).run.Ensures (Move lib) (Move lib) (Promised lib c) s :=
    fun hp hpost => ensures_of_safe hs (Safe.map (fun _ => kept_promised c _)
      (hp.weaken (fun _ => id) (fun _ s h => ⟨h.1, hpost _ s⟩) fun _ _ => id)) fun e => hpost _
  cases c with
  | create new strictness now => exact hquiet (safe_create kept_true new strictness) fun _ _ => trivial
  | addVersion name v strictness now => exact hquiet (safe_addVersion kept_true name v strictness) fun _ _ => trivial
  | rollbackVersion name target author now =>
    exact hquiet (Safe.write kept_true fun _ _ _ hs hrun => move_rollback hs hrun) fun _ _ => trivial
  | promote name notes =>
    exact hquiet (Safe.write kept_true fun _ _ _ hs hrun => move_promote hs hrun) fun _ _ => trivial
  | archive name now =>
    exact hquiet (Safe.write kept_true fun _ _ _ hs hrun => move_archive hs hrun) fun _ _ => trivial
  | forget name requestedBy uuid now =>
    exact ensures_of_safe hs (Safe.map (fun _ => kept_promised _ _) (safe_forget name requestedBy uuid)) fun _ _ => trivial
  | importShipped new now =>
    refine hquiet ?_ fun _ _ => trivial
    refine (Safe.checking kept_true _).bind fun _ => Safe.bind (B := fun _ _ => True) ?_ fun owning => ?_
    · exact Safe.ret kept_true fun _ _ _ _ => trivial
    · exact Safe.write kept_true fun _ _ _ hs hrun => move_import hs hrun
  | archiveForPlugin pluginId now =>
    exact hquiet (Safe.write kept_true fun _ _ _ hs hrun => move_archiveForPlugin hs hrun) fun _ _ => trivial
  | submitProposal new now =>
    refine hquiet ?_ fun _ _ => trivial
    exact (Safe.checking kept_true _).bind fun _ => Safe.write kept_true fun _ _ _ hs hrun => move_submit hs hrun
  | approveProposal id reviewer notes now => exact hquiet (safe_approveProposal id reviewer notes) fun _ _ => trivial
  | rejectProposal id reviewer notes now =>
    exact hquiet (Safe.write kept_true fun _ _ _ hs hrun => move_reject hs hrun) fun _ _ => trivial
  | recordEvalRun r =>
    refine hquiet (Safe.write kept_true fun s _ s' hs hrun => ?_) fun _ _ => trivial
    split at hrun
    · next hversion =>
      cases hrun
      refine move_rest hs hs.listed (fun p hp => ⟨p, hp, rfl, .refl p⟩) (fun e he => List.mem_append_left _ he) fun e he => ?_
      rcases List.mem_append.1 he with he | he
      · exact hs.tested e he
      · rwa [List.mem_singleton.1 he]
    · cases hrun
  | saveEvalSuite name cases =>
    refine hquiet (Safe.write kept_true fun s _ s' hs hrun => ?_) fun _ _ => trivial
    dsimp only at hrun
    split at hrun <;> cases hrun
    exact move_rest hs hs.listed (fun p hp => ⟨p, hp, rfl, .refl p⟩) (fun _ => id) hs.tested

structure Flights (lib : SkillLib) (p : SkillPool) : Prop where
  sound : Sound lib p.shared
  calls : ∀ j, p.Follows j (Move lib) (fun _ => Move lib) (Promised lib)

variable {p p' : SkillPool} {es es' : List (Event SkillCall (Except SkillError SkillReply) Empty)}

theorem flights_start (lib : SkillLib) : Flights lib SkillPool.start :=
  ⟨sound_empty lib, fun _ => Pool.follows_of_idle rfl⟩

theorem flights_step (h : Flights lib p) {e : Event SkillCall (Except SkillError SkillReply) Empty}
    (hstep : Pool.Step (SkillCall.prog lib) (fun s _ => s) p e p') : Flights lib p' ∧ Evolves lib p.shared p'.shared ∧
      ∀ i c res, e = .returns i c res → Promised lib c res p'.shared := by
  have hmove : Move lib p.shared p'.shared := by
    cases e with
    | call i c | returns i c a =>
      obtain ⟨-, rfl⟩ := hstep
      exact Move.refl _
    | step i =>
      obtain ⟨_, _, _, hguar⟩ := (h.calls i).guarantee Move.refl hstep
      exact hguar
    | crash i =>
      obtain rfl := hstep
      exact Move.refl _
    | env e => exact e.elim
  obtain ⟨hsound, hevolves⟩ := hmove h.sound
  refine ⟨⟨hsound, fun j => ?_⟩, hevolves, fun i c res he => ?_⟩
  · exact (h.calls j).step Move.refl (fun _ _ _ => Move.trans) hstep hmove fun c _ => ensures_call j c h.sound
  · subst he
    exact kept_promised c res _ _ hevolves ((h.calls i).returns Move.refl hstep)

theorem flights_run (h : Flights lib p) (hrun : SkillRun lib p es p') : Flights lib p' ∧
    Evolves lib p.shared p'.shared ∧ ∀ i c res, .returns i c res ∈ es → Promised lib c res p'.shared := by
  induction es generalizing p with
  | nil =>
    obtain rfl := hrun
    exact ⟨h, .refl lib _, fun _ _ _ hmem => absurd hmem List.not_mem_nil⟩
  | cons e es ih =>
    obtain ⟨m, hm, hrun⟩ := hrun
    obtain ⟨hflights, hevolves, hfirst⟩ := flights_step h hm
    obtain ⟨hend, hevolves', hrest⟩ := ih hflights hrun
    refine ⟨hend, hevolves.trans hevolves', fun i c res he => ?_⟩
    rcases List.mem_cons.1 he with rfl | he
    · exact kept_promised c res _ _ hevolves' (hfirst i c res rfl)
    · exact hrest i c res he

theorem reached (hrun : SkillRun lib .start es p) : Flights lib p := (flights_run (flights_start lib) hrun).1

end SkillStore

end Execlaw
