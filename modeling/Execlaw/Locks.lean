import Execlaw.Steps
/-!
# Locks — processes under read and write locks

A `Prog` returns, takes one atomic step on the shared state, or waits for a lock and lets go of it.  A step carries a
mark by which it can be told from others, and an answer from outside it.  In a `Pool` any number of processes run in
any order; a crash takes them all, and their locks with them.  A `Discipline` says what a process may rely on while it
holds its locks and what its steps guarantee.  Where every program keeps to it (`Ensures`), every step of a run does,
as long as the steps fit the states they meet (`sound_step`).
-/
namespace Locks

inductive Mode | read | write

inductive Prog (σ κ τ β α : Type) where
  | ret (a : α)
  | op (mark : Option τ) (next : β → σ → σ) (cont : β → σ → Prog σ κ τ β α)
  | acquire (m : Mode) (k : κ) (rest : Prog σ κ τ β α)
  | release (m : Mode) (k : κ) (rest : Prog σ κ τ β α)

namespace Prog

variable {σ κ τ β α γ ε : Type}

def bind : Prog σ κ τ β α → (α → Prog σ κ τ β γ) → Prog σ κ τ β γ
  | ret a, f => f a
  | op mark next cont, f => op mark next (fun b s => (cont b s).bind f)
  | acquire m k rest, f => acquire m k (rest.bind f)
  | release m k rest, f => release m k (rest.bind f)

instance : Monad (Prog σ κ τ β) where
  pure := ret
  bind := bind

def mark : Prog σ κ τ β α → Option τ
  | op mark _ _ => mark
  | _ => none

/-- The program with no other in between, each answer `b`. -/
def alone (b : β) : Prog σ κ τ β α → σ → α × σ
  | ret a, s => (a, s)
  | op _ next cont, s => (cont b s).alone b (next b s)
  | acquire _ _ rest, s => rest.alone b s
  | release _ _ rest, s => rest.alone b s

end Prog

section Programs

variable {σ κ τ β α ε : Type}

def atomically (mark : Option τ) (f : β → σ → Except ε α × σ) : ExceptT ε (Prog σ κ τ β) α :=
  ExceptT.mk (.op mark (fun b s => (f b s).2) (fun b s => .ret (f b s).1))

def locked (m : Mode) (k : κ) (p : ExceptT ε (Prog σ κ τ β) α) : ExceptT ε (Prog σ κ τ β) α :=
  ExceptT.mk (.acquire m k (p.run.bind fun r => .release m k (.ret r)))

def attempt (p : ExceptT ε (Prog σ κ τ β) α) : ExceptT ε (Prog σ κ τ β) (Except ε α) := ExceptT.lift p.run

end Programs

structure Held (κ : Type) where
  writes : List κ
  reads : List κ

namespace Held

variable {κ : Type}

def none : Held κ := ⟨[], []⟩

def add (m : Mode) (k : κ) (h : Held κ) : Held κ :=
  match m with
  | .write => { h with writes := k :: h.writes }
  | .read => { h with reads := k :: h.reads }

def drop [DecidableEq κ] (m : Mode) (k : κ) (h : Held κ) : Held κ :=
  match m with
  | .write => { h with writes := h.writes.erase k }
  | .read => { h with reads := h.reads.erase k }

@[simp] theorem drop_add [DecidableEq κ] (m : Mode) (k : κ) (h : Held κ) : (h.add m k).drop m k = h := by
  cases m <;> simp [add, drop]

def admits [DecidableEq κ] (h : Held κ) (m : Mode) (k : κ) : Bool :=
  match m with
  | .write => !h.writes.contains k && !h.reads.contains k
  | .read => !h.writes.contains k

def Apart (h h' : Held κ) : Prop := (∀ k ∈ h.writes, k ∉ h'.writes ∧ k ∉ h'.reads) ∧ ∀ k ∈ h'.writes, k ∉ h.reads

variable {h h' : Held κ}

theorem Apart.symm (ha : h.Apart h') : h'.Apart h :=
  ⟨fun k hk => ⟨fun hk' => (ha.1 k hk').1 hk, ha.2 k hk⟩, fun k hk => (ha.1 k hk).2⟩

theorem apart_none (h : Held κ) : h.Apart none :=
  ⟨fun _ _ => ⟨List.not_mem_nil, List.not_mem_nil⟩, fun _ hk => by cases hk⟩

variable [DecidableEq κ]

theorem Apart.add (ha : h.Apart h') {m : Mode} {k : κ} (hadmits : h'.admits m k = true) : (h.add m k).Apart h' := by
  cases m with
  | write =>
    simp only [admits, Bool.and_eq_true, Bool.not_eq_true', List.contains_eq_mem, decide_eq_false_iff_not] at hadmits
    refine ⟨fun j hj => ?_, ha.2⟩
    rcases List.mem_cons.1 hj with rfl | hj
    · exact hadmits
    · exact ha.1 j hj
  | read =>
    simp only [admits, Bool.not_eq_true', List.contains_eq_mem, decide_eq_false_iff_not] at hadmits
    refine ⟨ha.1, fun j hj hmem => ?_⟩
    rcases List.mem_cons.1 hmem with rfl | hmem
    · exact hadmits hj
    · exact ha.2 j hj hmem

theorem Apart.drop (ha : h.Apart h') (m : Mode) (k : κ) : (h.drop m k).Apart h' := by
  cases m with
  | write => exact ⟨fun j hj => ha.1 j (List.mem_of_mem_erase hj), ha.2⟩
  | read => exact ⟨ha.1, fun j hj hmem => ha.2 j hj (List.mem_of_mem_erase hmem)⟩

end Held

structure Proc (σ κ τ β α : Type) where
  held : Held κ
  code : Prog σ κ τ β α

structure Pool (σ κ τ β α : Type) where
  shared : σ
  procs : List (Proc σ κ τ β α)

inductive Event (γ β ε : Type)
  | call (c : γ)
  | step (i : Nat) (b : β)
  | crash
  | env (e : ε)

section Pool

variable {σ κ τ β α γ ε : Type} [DecidableEq κ]

/-- The pool after the next step of process `i`; a lock is waited for while another process is in the way. -/
def Pool.advance (p : Pool σ κ τ β α) (i : Nat) (b : β) : Option (Pool σ κ τ β α) :=
  match p.procs[i]? with
  | none => none
  | some q =>
    match q.code with
    | .ret _ => none
    | .op _ next cont => some ⟨next b p.shared, p.procs.set i ⟨q.held, cont b p.shared⟩⟩
    | .acquire m k rest =>
      if (p.procs.eraseIdx i).all (fun other => other.held.admits m k) then
        some { p with procs := p.procs.set i ⟨q.held.add m k, rest⟩ }
      else none
    | .release m k rest => some { p with procs := p.procs.set i ⟨q.held.drop m k, rest⟩ }

def Pool.exec (prog : γ → Prog σ κ τ β α) (env : ε → σ → Option σ) (p : Pool σ κ τ β α) :
    Event γ β ε → Option (Pool σ κ τ β α)
  | .call c => some { p with procs := p.procs ++ [⟨.none, prog c⟩] }
  | .step i b => p.advance i b
  | .crash => some { p with procs := [] }
  | .env e => (env e p.shared).map (fun s => { p with shared := s })

def Pool.execAll (prog : γ → Prog σ κ τ β α) (env : ε → σ → Option σ) :
    List (Event γ β ε) → Pool σ κ τ β α → Option (Pool σ κ τ β α)
  | [], p => some p
  | e :: es, p => (p.exec prog env e).bind (Pool.execAll prog env es)

def Pool.Step (prog : γ → Prog σ κ τ β α) (env : ε → σ → Option σ) (p : Pool σ κ τ β α) (e : Event γ β ε)
    (p' : Pool σ κ τ β α) : Prop := p.exec prog env e = some p'

def Pool.execWhere (prog : γ → Prog σ κ τ β α) (env : ε → σ → Option σ)
    (check : Pool σ κ τ β α → Event γ β ε → Bool) : List (Event γ β ε) → Pool σ κ τ β α → Option (Pool σ κ τ β α)
  | [], p => some p
  | e :: es, p => if check p e then (p.exec prog env e).bind (Pool.execWhere prog env check es) else none

theorem run_of_execWhere {prog : γ → Prog σ κ τ β α} {env : ε → σ → Option σ}
    {check : Pool σ κ τ β α → Event γ β ε → Bool} : ∀ {es : List (Event γ β ε)} {p p' : Pool σ κ τ β α},
    Pool.execWhere prog env check es p = some p' →
      Steps.Run (fun p e p' => Pool.Step prog env p e p' ∧ check p e = true) p es p'
  | [], _, _, h => Option.some.inj h
  | e :: _, p, _, h => by
    unfold Pool.execWhere at h
    split at h
    · next hcheck =>
      obtain ⟨m, hm, h⟩ := Option.bind_eq_some_iff.1 h
      exact ⟨m, ⟨hm, hcheck⟩, run_of_execWhere h⟩
    · cases h

end Pool

/-! ## Assumption and guarantee -/

/-- What processes may rely on and what they guarantee, by the locks they hold and the mark of their next step.  A step
has to fit the state it is taken in, and must not clash with what another process is about to do. -/
structure Discipline (σ κ τ : Type) [DecidableEq κ] where
  inv : σ → Prop
  fit : Option τ → σ → Prop
  clash : Option τ → Option τ → Prop
  rely : Held κ → Option τ → σ → σ → Prop
  guar : Held κ → Option τ → σ → σ → Prop
  rely_refl : ∀ h m s, rely h m s s
  rely_trans : ∀ {h m s s' s''}, rely h m s s' → rely h m s' s'' → rely h m s s''
  rely_drop : ∀ {h mode k m s s'}, rely (h.add mode k) m s s' → rely h m s s'
  inv_guar : ∀ {h m s s'}, inv s → guar h m s s' → inv s'
  rely_guar : ∀ {h m h' m' s s'}, h.Apart h' → ¬ clash m m' → inv s → guar h m s s' → rely h' m' s s'

section Discipline

variable {σ κ τ β α γ ε : Type} [DecidableEq κ] (D : Discipline σ κ τ)

/-- From locks `h` and whatever the others do, each step that fits is a step of `guar`, and the program ends with locks
`final` and a result that satisfies `Q`. -/
def Prog.Ensures (final : Held κ) (Q : α → σ → Prop) : Held κ → Prog σ κ τ β α → σ → Prop
  | h, .ret a, s => h = final ∧ Q a s
  | h, .op m next cont, s => ∀ b s', D.rely h m s s' → D.inv s' → D.fit m s' →
      D.guar h m s' (next b s') ∧ (cont b s').Ensures final Q h (next b s')
  | h, .acquire mode k rest, s => ∀ s', D.rely h none s s' → rest.Ensures final Q (h.add mode k) s'
  | h, .release mode k rest, s => ∀ s', D.rely h none s s' → rest.Ensures final Q (h.drop mode k) s'

variable {D} {final mid h : Held κ} {Q : α → σ → Prop} {s s' : σ}

theorem Prog.Ensures.onward {p : Prog σ κ τ β α} (hp : p.Ensures D final (fun _ _ => True) h s)
    (hs : D.rely h p.mark s s') : p.Ensures D final (fun _ _ => True) h s' := by
  cases p with
  | ret a => exact ⟨hp.1, trivial⟩
  | op m next cont => exact fun b s'' hs' => hp b s'' (D.rely_trans hs hs')
  | acquire mode k rest | release mode k rest => exact fun s'' hs' => hp s'' (D.rely_trans hs hs')

theorem Prog.Ensures.bind {R : γ → σ → Prop} {f : α → Prog σ κ τ β γ}
    (hf : ∀ a s, Q a s → (f a).Ensures D final R mid s) : ∀ {p : Prog σ κ τ β α} {h : Held κ} {s : σ},
    p.Ensures D mid Q h s → (p.bind f).Ensures D final R h s
  | .ret a, _, s, ⟨hmid, ha⟩ => hmid ▸ hf a s ha
  | .op _ _ _, _, _, hp => fun b s' hs hinv hfit => ⟨(hp b s' hs hinv hfit).1, (hp b s' hs hinv hfit).2.bind hf⟩
  | .acquire _ _ _, _, _, hp => fun s' hs => (hp s' hs).bind hf
  | .release _ _ _, _, _, hp => fun s' hs => (hp s' hs).bind hf

theorem Prog.Ensures.mono {R : α → σ → Prop} (himp : ∀ a s, Q a s → R a s) :
    ∀ {p : Prog σ κ τ β α} {h : Held κ} {s : σ}, p.Ensures D final Q h s → p.Ensures D final R h s
  | .ret a, _, s, hp => ⟨hp.1, himp a s hp.2⟩
  | .op _ _ _, _, _, hp => fun b s' hs hinv hfit => ⟨(hp b s' hs hinv hfit).1, (hp b s' hs hinv hfit).2.mono himp⟩
  | .acquire _ _ _, _, _, hp => fun s' hs => (hp s' hs).mono himp
  | .release _ _ _, _, _, hp => fun s' hs => (hp s' hs).mono himp

variable (D) in
/-- A program that may fail, gives its locks back and satisfies `Q` where it succeeds. -/
def Keeps (h : Held κ) (Q : α → σ → Prop) (p : ExceptT ε (Prog σ κ τ β) α) (s : σ) : Prop :=
  Prog.Ensures D h (fun (r : Except ε α) s => ∀ a, r = .ok a → Q a s) h p.run s

theorem keeps_pure {a : α} (ha : Q a s) : Keeps D h Q (pure a : ExceptT ε (Prog σ κ τ β) α) s :=
  ⟨rfl, fun _ hb => Except.ok.inj hb ▸ ha⟩

theorem keeps_throw (e : ε) : Keeps D h Q (throw e : ExceptT ε (Prog σ κ τ β) α) s := ⟨rfl, nofun⟩

variable {p : ExceptT ε (Prog σ κ τ β) α}

theorem Keeps.bind {R : γ → σ → Prop} {f : α → ExceptT ε (Prog σ κ τ β) γ} (hp : Keeps D h Q p s)
    (hf : ∀ a s, Q a s → Keeps D h R (f a) s) : Keeps D h R (p >>= f) s := by
  refine Prog.Ensures.bind (fun r s hr => ?_) hp
  cases r with
  | error e => exact ⟨rfl, nofun⟩
  | ok a => exact hf a s (hr a rfl)

theorem keeps_atomically {m : Option τ} {f : β → σ → Except ε α × σ} (hf : ∀ b s', D.rely h m s s' → D.inv s' →
    D.fit m s' → D.guar h m s' (f b s').2 ∧ ∀ a, (f b s').1 = .ok a → Q a (f b s').2) :
    Keeps D h Q (atomically m f) s :=
  fun b s' hs hinv hfit => ⟨(hf b s' hs hinv hfit).1, rfl, (hf b s' hs hinv hfit).2⟩

theorem keeps_locked {mode : Mode} {k : κ} (hstable : ∀ a s s', D.rely h none s s' → Q a s → Q a s')
    (hp : ∀ s', D.rely h none s s' → Keeps D (h.add mode k) Q p s') : Keeps D h Q (locked mode k p) s := by
  intro s' hs
  have hrelease : ∀ (r : Except ε α) s, (∀ a, r = .ok a → Q a s) →
      Prog.Ensures D h (fun (r : Except ε α) s => ∀ a, r = .ok a → Q a s) (h.add mode k)
        (.release mode k (.ret r) : Prog σ κ τ β (Except ε α)) s := by
    intro r s hr s' hs'
    exact ⟨Held.drop_add mode k h, fun a ha => hstable a s s' (D.rely_drop hs') (hr a ha)⟩
  exact Prog.Ensures.bind hrelease (hp s' hs)

theorem keeps_attempt {R : Except ε α → σ → Prop} (hp : Keeps D h Q p s)
    (himp : ∀ r s, (∀ a, r = .ok a → Q a s) → R r s) : Keeps D h R (attempt p) s := by
  have hret : ∀ (r : Except ε α) s, (∀ a, r = .ok a → Q a s) →
      Prog.Ensures D h (fun (r' : Except ε (Except ε α)) s => ∀ r, r' = .ok r → R r s) h
        (.ret (.ok r) : Prog σ κ τ β (Except ε (Except ε α))) s := by
    intro r s hr
    exact ⟨rfl, fun _ hr' => Except.ok.inj hr' ▸ himp r s hr⟩
  exact Prog.Ensures.bind hret hp

def Pool.Fits (D : Discipline σ κ τ) (p : Pool σ κ τ β α) : Event γ β ε → Prop
  | .step i _ => ∀ q : Proc σ κ τ β α, p.procs[i]? = some q → D.fit q.code.mark p.shared ∧
      ∀ (j : Nat) (other : Proc σ κ τ β α), j ≠ i → p.procs[j]? = some other →
        ¬ D.clash q.code.mark other.code.mark
  | _ => True

instance Pool.decidableFits [∀ m s, Decidable (D.fit m s)] [∀ m m', Decidable (D.clash m m')] (p : Pool σ κ τ β α) :
    ∀ e : Event γ β ε, Decidable (p.Fits D e)
  | .step i _ => decidable_of_iff (∀ q ∈ p.procs[i]?, D.fit q.code.mark p.shared ∧
      ∀ j < p.procs.length, j ≠ i → ∀ other ∈ p.procs[j]?, ¬ D.clash q.code.mark other.code.mark) <| by
    refine forall_congr' fun q => imp_congr Iff.rfl (and_congr Iff.rfl ⟨fun h j other hji hj => ?_, fun h j _ hji other hj =>
      h j other hji hj⟩)
    exact h j (List.getElem?_eq_some_iff.1 hj).1 hji other hj
  | .call _ => isTrue trivial
  | .crash => isTrue trivial
  | .env _ => isTrue trivial

/-- **The invariant of a pool**: every process keeps to the discipline from here on, and their locks are apart. -/
structure Pool.Sound (D : Discipline σ κ τ) (p : Pool σ κ τ β α) : Prop where
  inv : D.inv p.shared
  codes : ∀ (i : Nat) (q : Proc σ κ τ β α), p.procs[i]? = some q → q.code.Ensures D .none (fun _ _ => True) q.held p.shared
  apart : ∀ (i j : Nat) (q q' : Proc σ κ τ β α), i ≠ j → p.procs[i]? = some q → p.procs[j]? = some q' →
    q.held.Apart q'.held

inductive Pool.Moved (D : Discipline σ κ τ) (p p' : Pool σ κ τ β α) : Event γ β ε → Prop
  | still {e : Event γ β ε} (same : p'.shared = p.shared) : Pool.Moved D p p' e
  | took {i : Nat} {b : β} {q : Proc σ κ τ β α} (at_ : p.procs[i]? = some q)
      (move : D.guar q.held q.code.mark p.shared p'.shared) : Pool.Moved D p p' (.step i b)
  | outside {e : ε} : Pool.Moved D p p' (.env e)

variable {p p' : Pool σ κ τ β α} {prog : γ → Prog σ κ τ β α} {env : ε → σ → Option σ} {e : Event γ β ε}
  {q q' : Proc σ κ τ β α}

theorem Pool.Sound.set (hsound : p.Sound D) {i : Nat} (hi : p.procs[i]? = some q) {s' : σ} (hinv : D.inv s')
    (hcode : q'.code.Ensures D .none (fun _ _ => True) q'.held s')
    (hrely : ∀ (j : Nat) (other : Proc σ κ τ β α), j ≠ i → p.procs[j]? = some other →
    D.rely other.held other.code.mark p.shared s') (hapart : ∀ (j : Nat) (other : Proc σ κ τ β α), j ≠ i →
    p.procs[j]? = some other → q'.held.Apart other.held) : Pool.Sound D ⟨s', p.procs.set i q'⟩ := by
  have hother : ∀ (j : Nat) (other : Proc σ κ τ β α), (p.procs.set i q')[j]? = some other →
      j = i ∧ other = q' ∨ j ≠ i ∧ p.procs[j]? = some other := by
    intro j other hj
    by_cases hji : j = i
    · subst hji
      obtain ⟨hlt, -⟩ := List.getElem?_eq_some_iff.1 hi
      rw [List.getElem?_set_self hlt] at hj
      exact .inl ⟨rfl, (Option.some.inj hj).symm⟩
    · rw [List.getElem?_set_ne (Ne.symm hji)] at hj
      exact .inr ⟨hji, hj⟩
  refine ⟨hinv, fun j other hj => ?_, fun j j' other other' hne hj hj' => ?_⟩
  · rcases hother j other hj with ⟨rfl, rfl⟩ | ⟨hji, hold⟩
    · exact hcode
    · exact (hsound.codes j other hold).onward (hrely j other hji hold)
  · rcases hother j other hj with ⟨rfl, rfl⟩ | ⟨hji, hold⟩
    · rcases hother j' other' hj' with ⟨rfl, -⟩ | ⟨hji', hold'⟩
      · exact absurd rfl hne
      · exact hapart j' other' hji' hold'
    · rcases hother j' other' hj' with ⟨rfl, rfl⟩ | ⟨hji', hold'⟩
      · exact (hapart j other hji hold).symm
      · exact hsound.apart j j' other other' hne hold hold'

theorem Pool.Sound.relock (hsound : p.Sound D) {i : Nat} (hi : p.procs[i]? = some q)
    (hcode : q'.code.Ensures D .none (fun _ _ => True) q'.held p.shared)
    (hapart : ∀ (j : Nat) (other : Proc σ κ τ β α), j ≠ i → p.procs[j]? = some other → q'.held.Apart other.held) :
    Pool.Sound D { p with procs := p.procs.set i q' } :=
  hsound.set hi hsound.inv hcode (fun _ _ _ _ => D.rely_refl _ _ _) hapart

theorem Pool.sound_advance (hsound : p.Sound D) {i : Nat} {b : β} (hfits : p.Fits D (.step i b : Event γ β ε))
    (hstep : p.advance i b = some p') : p'.Sound D ∧ Pool.Moved D p p' (.step i b : Event γ β ε) := by
  unfold Pool.advance at hstep
  cases hi : p.procs[i]? with
  | none =>
    rw [hi] at hstep
    cases hstep
  | some q =>
    obtain ⟨held, code⟩ := q
    have hcode := hsound.codes i _ hi
    have hapart : ∀ (j : Nat) (other : Proc σ κ τ β α), j ≠ i → p.procs[j]? = some other → held.Apart other.held :=
      fun j other hji hj => hsound.apart i j _ other (Ne.symm hji) hi hj
    rw [hi] at hstep
    cases code with
    | ret a => cases hstep
    | op m next cont =>
      cases hstep
      obtain ⟨hfit, hclash⟩ := hfits _ hi
      obtain ⟨hguar, hcont⟩ := hcode b p.shared (D.rely_refl _ _ _) hsound.inv hfit
      refine ⟨hsound.set hi (D.inv_guar hsound.inv hguar) hcont (fun j other hji hj => ?_) hapart, .took hi hguar⟩
      exact D.rely_guar (hapart j other hji hj) (hclash j other hji hj) hsound.inv hguar
    | acquire mode k rest =>
      dsimp only at hstep
      split at hstep
      · next hadmits =>
        cases hstep
        refine ⟨hsound.relock hi (hcode p.shared (D.rely_refl _ _ _)) (fun j other hji hj => ?_), .still rfl⟩
        refine (hapart j other hji hj).add (List.all_eq_true.1 hadmits other ?_)
        exact List.mem_eraseIdx_iff_getElem?.2 ⟨j, hji, hj⟩
      · cases hstep
    | release mode k rest =>
      cases hstep
      exact ⟨hsound.relock hi (hcode p.shared (D.rely_refl _ _ _))
        (fun j other hji hj => (hapart j other hji hj).drop mode k), .still rfl⟩

theorem Pool.sound_step (hprog : ∀ c s, (prog c).Ensures D .none (fun _ _ => True) .none s)
    (henv : ∀ e s s', env e s = some s' → D.inv s → D.inv s' ∧ ∀ h m, D.rely h m s s') (hsound : p.Sound D)
    (hfits : p.Fits D e) (hstep : Pool.Step prog env p e p') : p'.Sound D ∧ Pool.Moved D p p' e := by
  cases e with
  | call c =>
    cases hstep
    have hnew : ∀ (i : Nat) (q : Proc σ κ τ β α), (p.procs ++ [⟨.none, prog c⟩])[i]? = some q →
        p.procs[i]? = some q ∨ i = p.procs.length ∧ q = ⟨.none, prog c⟩ := by
      intro i q hi
      rcases Nat.lt_trichotomy i p.procs.length with hlt | rfl | hgt
      · rw [List.getElem?_append_left hlt] at hi
        exact .inl hi
      · rw [List.getElem?_concat_length] at hi
        exact .inr ⟨rfl, (Option.some.inj hi).symm⟩
      · rw [List.getElem?_eq_none (by simp; omega)] at hi
        cases hi
    refine ⟨⟨hsound.inv, fun i q hi => ?_, fun i j q q' hne hi hj => ?_⟩, .still rfl⟩
    · rcases hnew i q hi with hi | ⟨-, rfl⟩
      · exact hsound.codes i q hi
      · exact hprog c p.shared
    · rcases hnew i q hi with hi | ⟨rfl, rfl⟩
      · rcases hnew j q' hj with hj | ⟨-, rfl⟩
        · exact hsound.apart i j q q' hne hi hj
        · exact Held.apart_none _
      · rcases hnew j q' hj with hj | ⟨rfl, -⟩
        · exact (Held.apart_none _).symm
        · exact absurd rfl hne
  | step i b => exact Pool.sound_advance hsound hfits hstep
  | crash =>
    cases hstep
    refine ⟨⟨hsound.inv, fun i q hi => ?_, fun i j q q' hne hi => ?_⟩, .still rfl⟩ <;> simp at hi
  | env e =>
    obtain ⟨s', hs', rfl⟩ := Option.map_eq_some_iff.1 hstep
    obtain ⟨hinv, hrely⟩ := henv e p.shared s' hs' hsound.inv
    exact ⟨⟨hinv, fun i q hi => (hsound.codes i q hi).onward (hrely _ _), hsound.apart⟩, .outside⟩

end Discipline

/-! ## Results -/

section Results

variable {σ κ τ β α γ ε : Type} {I : σ → Prop} {Q : α → Prop}

/-- While the state stays in `I`, the program comes to no result but those of `Q`. -/
def Prog.Ends (I : σ → Prop) (Q : α → Prop) : Prog σ κ τ β α → Prop
  | .ret a => Q a
  | .op _ next cont => ∀ b s, I s → I (next b s) → (cont b s).Ends I Q
  | .acquire _ _ rest => rest.Ends I Q
  | .release _ _ rest => rest.Ends I Q

theorem Prog.Ends.bind {R : γ → Prop} {f : α → Prog σ κ τ β γ} (hf : ∀ a, Q a → (f a).Ends I R) :
    ∀ {p : Prog σ κ τ β α}, p.Ends I Q → (p.bind f).Ends I R
  | .ret a, hp => hf a hp
  | .op _ _ _, hp => fun b s hs hnext => (hp b s hs hnext).bind hf
  | .acquire _ _ rest, hp => Prog.Ends.bind hf (p := rest) hp
  | .release _ _ rest, hp => Prog.Ends.bind hf (p := rest) hp

/-- A program that succeeds with a result of `Q` only. -/
def Finds (I : σ → Prop) (Q : α → Prop) (p : ExceptT ε (Prog σ κ τ β) α) : Prop :=
  Prog.Ends I (fun (r : Except ε α) => ∀ a, r = .ok a → Q a) p.run

variable {p : ExceptT ε (Prog σ κ τ β) α}

theorem Finds.bind {R : γ → Prop} {f : α → ExceptT ε (Prog σ κ τ β) γ} (hp : Finds I Q p)
    (hf : ∀ a, Q a → Finds I R (f a)) : Finds I R (p >>= f) := by
  refine Prog.Ends.bind (fun r hr => ?_) hp
  cases r with
  | error e => exact nofun
  | ok a => exact hf a (hr a rfl)

theorem finds_atomically {m : Option τ} {f : β → σ → Except ε α × σ}
    (hf : ∀ b s, I s → I (f b s).2 → ∀ a, (f b s).1 = .ok a → Q a) :
    Finds I Q (atomically m f : ExceptT ε (Prog σ κ τ β) α) :=
  fun b s hs hnext => hf b s hs hnext

theorem finds_locked {mode : Mode} {k : κ} (hp : Finds I Q p) : Finds I Q (locked mode k p) :=
  Prog.Ends.bind (f := fun r => .release mode k (.ret r)) (fun _ hr => hr) hp

theorem ends_trivial : ∀ {p : Prog σ κ τ β α}, (∀ a, Q a) → p.Ends I Q
  | .ret a, h => h a
  | .op _ _ _, h => fun _ _ _ _ => ends_trivial h
  | .acquire _ _ rest, h => ends_trivial (p := rest) h
  | .release _ _ rest, h => ends_trivial (p := rest) h

theorem finds_trivial : Finds I (fun _ => True) p :=
  ends_trivial fun _ _ _ => trivial

variable [DecidableEq κ] {prog : γ → Prog σ κ τ β α} {env : ε → σ → Option σ}

theorem Prog.Ends.step {p p' : Pool σ κ τ β α} {e : Event γ β ε} (hstep : Pool.Step prog env p e p') (he : e ≠ .crash)
    (hp : I p.shared) (hp' : I p'.shared) {i : Nat} {q : Proc σ κ τ β α} (hi : p.procs[i]? = some q)
    (hq : q.code.Ends I Q) : ∃ q', p'.procs[i]? = some q' ∧ q'.code.Ends I Q := by
  obtain ⟨hlt, -⟩ := List.getElem?_eq_some_iff.1 hi
  cases e with
  | call c =>
    cases hstep
    exact ⟨q, (List.getElem?_append_left hlt).trans hi, hq⟩
  | crash => exact absurd rfl he
  | env e =>
    obtain ⟨s', -, rfl⟩ := Option.map_eq_some_iff.1 hstep
    exact ⟨q, hi, hq⟩
  | step j b =>
    change p.advance j b = some p' at hstep
    have hset : ∀ r, (j = i → r.code.Ends I Q) → ∃ q', (p.procs.set j r)[i]? = some q' ∧ q'.code.Ends I Q := by
      intro r hr
      by_cases hji : j = i
      · subst hji
        exact ⟨r, List.getElem?_set_self hlt, hr rfl⟩
      · exact ⟨q, (List.getElem?_set_ne hji).trans hi, hq⟩
    unfold Pool.advance at hstep
    cases hj : p.procs[j]? with
    | none =>
      rw [hj] at hstep
      cases hstep
    | some r =>
      obtain ⟨held, code⟩ := r
      have hcode : j = i → code.Ends I Q := by
        rintro rfl
        cases hi.symm.trans hj
        exact hq
      rw [hj] at hstep
      cases code with
      | ret a => cases hstep
      | op m next cont =>
        cases hstep
        exact hset _ fun hji => hcode hji b p.shared hp hp'
      | acquire mode k rest =>
        dsimp only at hstep
        split at hstep
        · cases hstep
          exact hset _ hcode
        · cases hstep
      | release mode k rest =>
        cases hstep
        exact hset _ hcode

theorem Prog.Ends.run : ∀ {es : List (Event γ β ε)} {p p' : Pool σ κ τ β α},
    Steps.Run (fun p e p' => Pool.Step prog env p e p' ∧ e ≠ .crash ∧ I p'.shared) p es p' → I p.shared →
    ∀ {i : Nat} {q : Proc σ κ τ β α}, p.procs[i]? = some q → q.code.Ends I Q →
    ∃ q', p'.procs[i]? = some q' ∧ q'.code.Ends I Q
  | [], _, _, rfl, _, _, _, hi, hq => ⟨_, hi, hq⟩
  | _ :: _, _, _, ⟨_, ⟨hstep, he, hm⟩, hrun⟩, hp, _, _, hi, hq => by
    obtain ⟨_, hi', hq'⟩ := hq.step hstep he hp hm hi
    exact Prog.Ends.run hrun hm hi' hq'

end Results

section Alone

variable {σ κ τ β α γ ε : Type} {b : β} {s : σ}

theorem alone_bind {f : α → Prog σ κ τ β γ} : ∀ {p : Prog σ κ τ β α} {s : σ},
    (p.bind f).alone b s = (f (p.alone b s).1).alone b (p.alone b s).2
  | .ret _, _ => rfl
  | .op _ next cont, s => alone_bind (p := cont b s) (s := next b s)
  | .acquire _ _ rest, _ => alone_bind (p := rest)
  | .release _ _ rest, _ => alone_bind (p := rest)

/-- Alone, the program succeeds with `a` and leaves `s'`. -/
def Yields (b : β) (p : ExceptT ε (Prog σ κ τ β) α) (s : σ) (a : α) (s' : σ) : Prop := p.run.alone b s = (.ok a, s')

variable {a : α}

theorem yields_pure : Yields b (pure a : ExceptT ε (Prog σ κ τ β) α) s a s := rfl

variable {p : ExceptT ε (Prog σ κ τ β) α}

theorem Yields.bind {f : α → ExceptT ε (Prog σ κ τ β) γ} {c : γ} {m s' : σ} (hp : Yields b p s a m)
    (hf : Yields b (f a) m c s') : Yields b (p >>= f) s c s' := by
  refine alone_bind.trans ?_
  change p.alone b s = (.ok a, m) at hp
  rw [hp]
  exact hf

theorem yields_atomically {m : Option τ} {f : β → σ → Except ε α × σ} {s' : σ} (hf : f b s = (.ok a, s')) :
    Yields b (atomically m f : ExceptT ε (Prog σ κ τ β) α) s a s' := by
  change ((f b s).1, (f b s).2) = _
  rw [hf]

theorem yields_locked {mode : Mode} {k : κ} {s' : σ} (hp : Yields b p s a s') : Yields b (locked mode k p) s a s' :=
  (alone_bind (f := fun r => .release mode k (.ret r))).trans hp

variable [DecidableEq κ]

theorem run_alone (prog : γ → Prog σ κ τ β α) (env : ε → σ → Option σ) (b : β) : ∀ (code : Prog σ κ τ β α)
    (held : Held κ) (s : σ), ∃ (k : Nat) (held' : Held κ), Pool.execAll prog env (List.replicate k (.step 0 b))
      ⟨s, [⟨held, code⟩]⟩ = some ⟨(code.alone b s).2, [⟨held', .ret (code.alone b s).1⟩]⟩
  | .ret a, held, s => ⟨0, held, rfl⟩
  | .op _ next cont, held, s => by
    obtain ⟨k, held', hrun⟩ := run_alone prog env b (cont b s) held (next b s)
    exact ⟨k + 1, held', hrun⟩
  | .acquire mode k rest, held, s => by
    obtain ⟨n, held', hrun⟩ := run_alone prog env b rest (held.add mode k) s
    exact ⟨n + 1, held', hrun⟩
  | .release mode k rest, held, s => by
    obtain ⟨n, held', hrun⟩ := run_alone prog env b rest (held.drop mode k) s
    exact ⟨n + 1, held', hrun⟩

end Alone

end Locks
