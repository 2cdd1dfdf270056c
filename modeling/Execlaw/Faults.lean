import Mathlib.Data.List.Basic
/-!
# Faults — programs of operations of which one may fail, and that may stop between any two

A run carries the store, the fault that is still to come or has come, and every store an operation has left: a stop at
any point leaves one of these.  `Ends C m Q s f` says of a program from a store and a fault that it ends in `Q` and
leaves stores of `C` on the way.  The rules follow the program; `step` is the one for an operation that can be done.
-/
namespace Faults

/-- The operation that fails: none, the one after `k` others, or one that has failed. -/
inductive Fault (ω : Type)
  | never
  | pending (k : Nat)
  | failed (o : ω)
deriving DecidableEq

structure Run (σ ω : Type) where
  store : σ
  fault : Fault ω
  seen : List σ

abbrev Prog (σ ω ε α : Type) := ExceptT ε (StateM (Run σ ω)) α

namespace Fault

variable {ω : Type} {P : ω → Prop} {f f' f'' : Fault ω} {o : ω}

def next : Fault ω → Fault ω
  | .pending (k + 1) => .pending k
  | f => f

def Settled (f : Fault ω) : Prop := ∀ k, f ≠ .pending k

def Fails (f : Fault ω) (o : ω) (f' : Fault ω) : Prop := (∃ k, f = .pending k) ∧ f' = .failed o

/-- What becomes of a fault in a run in which only the operations of `P` fail. -/
inductive Leads (P : ω → Prop) : Fault ω → Fault ω → Prop
  | refl (f : Fault ω) : Leads P f f
  | count (k j : Nat) : Leads P (.pending k) (.pending j)
  | fails (k : Nat) {o : ω} (h : P o) : Leads P (.pending k) (.failed o)

theorem Leads.trans (h : Leads P f f') (h' : Leads P f' f'') : Leads P f f'' := by
  cases h with
  | refl => exact h'
  | fails k ho =>
    cases h'
    exact .fails k ho
  | count k j =>
    cases h' with
    | refl => exact .count k j
    | count => exact .count k _
    | fails _ ho => exact .fails k ho

theorem leads_next (f : Fault ω) : Leads P f f.next := by
  cases f with
  | never | failed o => exact .refl _
  | pending k =>
    cases k with
    | zero => exact .refl _
    | succ k => exact .count _ _

theorem Fails.leads (h : Fails f o f') (ho : P o) : Leads P f f' := by
  obtain ⟨⟨k, rfl⟩, rfl⟩ := h
  exact .fails k ho

theorem Fails.settled (h : Fails f o f') : f'.Settled := by
  obtain ⟨-, rfl⟩ := h
  exact fun k => nofun

theorem Leads.eq_of_settled (h : Leads P f f') (hf : f.Settled) : f' = f := by
  cases h with
  | refl => rfl
  | count k j | fails k => exact absurd rfl (hf k)

theorem not_fails_of_settled (hf : f.Settled) : ¬ Fails f o f' := by
  rintro ⟨⟨k, rfl⟩, -⟩
  exact hf k rfl

theorem Leads.trans_fails (h : Leads P f f') (h' : Fails f' o f'') : Fails f o f'' := by
  obtain ⟨⟨k, rfl⟩, rfl⟩ := h'
  cases h with
  | refl => exact ⟨⟨k, rfl⟩, rfl⟩
  | count j => exact ⟨⟨j, rfl⟩, rfl⟩

theorem Fails.trans_leads (h : Fails f o f') (h' : Leads P f' f'') : Fails f o f'' := by
  obtain rfl := h'.eq_of_settled h.settled
  exact h

end Fault

open Fault

variable {σ ω ε ε' α β : Type}

def op (o : ω) (e : ε) (act : σ → Option (α × σ)) : Prog σ ω ε α := ExceptT.mk fun r =>
  match r.fault with
  | .pending 0 => (.error e, { r with fault := .failed o })
  | f =>
    match act r.store with
    | none => (.error e, { r with fault := f.next })
    | some (a, s) => (.ok a, ⟨s, f.next, s :: r.seen⟩)

def attempt (m : Prog σ ω ε α) : Prog σ ω ε' (Except ε α) := ExceptT.mk fun r => (.ok (m r).1, (m r).2)

def mapError (g : ε → ε') (m : Prog σ ω ε α) : Prog σ ω ε' α := ExceptT.mk fun r => ((m r).1.mapError g, (m r).2)

/-- The program ends in `Q`, and the stores it leaves on the way are of `C`. -/
def Ends (C : σ → Prop) (m : Prog σ ω ε α) (Q : Except ε α → σ → Fault ω → Prop) (s : σ) (f : Fault ω) : Prop :=
  ∀ seen, Q (m ⟨s, f, seen⟩).1 (m ⟨s, f, seen⟩).2.store (m ⟨s, f, seen⟩).2.fault ∧
    ∀ t ∈ (m ⟨s, f, seen⟩).2.seen, t ∈ seen ∨ C t

namespace Ends

variable (P : ω → Prop) {C C' : σ → Prop} {m : Prog σ ω ε α} {g : α → Prog σ ω ε β} {s s' : σ} {f : Fault ω} {o : ω} {e : ε} {a : α}
  {act : σ → Option (α × σ)} {Q Q' : Except ε α → σ → Fault ω → Prop} {R : Except ε β → σ → Fault ω → Prop}

theorem pure (h : Q (.ok a) s f) : Ends C (pure a : Prog σ ω ε α) Q s f := fun _ => ⟨h, fun _ ht => .inl ht⟩

theorem throw (h : Q (.error e) s f) : Ends C (throw e : Prog σ ω ε α) Q s f := fun _ => ⟨h, fun _ ht => .inl ht⟩

theorem mono (h : Ends C m Q s f) (hC : ∀ t, C t → C' t) (hQ : ∀ x t f', Q x t f' → Q' x t f') : Ends C' m Q' s f :=
  fun seen => ⟨hQ _ _ _ (h seen).1, fun t ht => ((h seen).2 t ht).imp_right (hC t)⟩

theorem post (h : Ends C m Q s f) (hQ : ∀ x t f', Q x t f' → Q' x t f') : Ends C m Q' s f := h.mono (fun _ ht => ht) hQ

theorem bind (h : Ends C m (fun x t f' => match x with
      | .ok a => Ends C (g a) R t f'
      | .error e => R (.error e) t f') s f) : Ends C (m >>= g) R s f := by
  intro seen
  obtain ⟨hend, hseen⟩ := h seen
  have hrun : (m >>= g) ⟨s, f, seen⟩ = match m ⟨s, f, seen⟩ with
      | (.ok a, r) => g a r
      | (.error e, r) => (.error e, r) := by
    show (ExceptT.bindCont g (m ⟨s, f, seen⟩).1) (m ⟨s, f, seen⟩).2 = _
    rcases m ⟨s, f, seen⟩ with ⟨e | a, r⟩ <;> rfl
  rw [hrun]
  revert hend hseen
  rcases m ⟨s, f, seen⟩ with ⟨e | a, r⟩
  · exact fun hend hseen => ⟨hend, hseen⟩
  · intro hend hseen
    obtain ⟨hpost, hlater⟩ := hend r.seen
    exact ⟨hpost, fun t ht => (hlater t ht).elim (hseen t) .inr⟩

theorem attempt (h : Ends C m Q s f) {S : Except ε' (Except ε α) → σ → Fault ω → Prop}
    (hS : ∀ x t f', Q x t f' → S (.ok x) t f') : Ends C (attempt m) S s f :=
  fun seen => ⟨hS _ _ _ (h seen).1, (h seen).2⟩

theorem mapError (h : Ends C m Q s f) {k : ε → ε'} {S : Except ε' α → σ → Fault ω → Prop}
    (hS : ∀ x t f', Q x t f' → S (x.mapError k) t f') : Ends C (mapError k m) S s f :=
  fun seen => ⟨hS _ _ _ (h seen).1, (h seen).2⟩

theorem op (hfail : Q (.error e) s (.failed o) ∨ f.Settled)
    (hnone : act s = none → ∀ f', Leads P f f' → Q (.error e) s f')
    (hsome : ∀ a s', act s = some (a, s') → C s' ∧ ∀ f', Leads P f f' → Q (.ok a) s' f') :
    Ends C (op o e act) Q s f := by
  intro seen
  have hdone : ∀ f', f.next = f' → (Ends C (fun r => match act r.store with
      | none => (.error e, { r with fault := f' })
      | some (a, t) => (.ok a, ⟨t, f', t :: r.seen⟩) : Prog σ ω ε α) Q s f) := by
    rintro f' rfl seen
    cases hact : act s with
    | none =>
      simp only [hact]
      exact ⟨hnone hact _ (leads_next f), fun _ ht => .inl ht⟩
    | some x =>
      obtain ⟨a, t⟩ := x
      obtain ⟨hC, hQ⟩ := hsome a t hact
      simp only [hact]
      refine ⟨hQ _ (leads_next f), fun u hu => ?_⟩
      rcases List.mem_cons.1 hu with rfl | hu
      · exact .inr hC
      · exact .inl hu
  cases f with
  | never | failed o' => exact hdone _ rfl seen
  | pending k =>
    cases k with
    | zero => exact ⟨hfail.resolve_right fun h => h 0 rfl, fun _ ht => .inl ht⟩
    | succ k => exact hdone _ rfl seen

theorem last {t : σ} (hact : act s = some (a, t)) (hC : C t)
    (hfail : Fails f o (.failed o) → Q (.error e) s (.failed o)) (hok : ∀ f', Leads P f f' → Q (.ok a) t f') :
    Ends C (Faults.op o e act) Q s f := by
  refine op P ?_ (fun hnone => ?_) fun b u hb => ?_
  · by_cases h : ∃ k, f = .pending k
    · exact .inl (hfail ⟨h, rfl⟩)
    · exact .inr fun k hk => h ⟨k, hk⟩
  · rw [hact] at hnone
    cases hnone
  · cases hact.symm.trans hb
    exact ⟨hC, hok⟩

theorem step {t : σ} (hact : act s = some (a, t)) (hC : C t)
    (hfail : Fails f o (.failed o) → R (.error e) s (.failed o)) (hrest : ∀ f', Leads P f f' → Ends C (g a) R t f') :
    Ends C (Faults.op o e act >>= g) R s f :=
  bind (last P hact hC hfail hrest)

theorem attempt_step {α' : Type} {k : Except ε α' → Prog σ ω ε' β} {S : Except ε' β → σ → Fault ω → Prop} {t : σ}
    {b : α'} {act : σ → Option (α' × σ)} (hact : act s = some (b, t)) (hC : C t)
    (hfail : Fails f o (.failed o) → Ends C (k (.error e)) S s (.failed o))
    (hrest : ∀ f', Leads P f f' → Ends C (k (.ok b)) S t f') :
    Ends C (Faults.attempt (Faults.op o e act) >>= k) S s f := by
  have hlast : Ends C (Faults.op o e act) (fun x u f' => Ends C (k x) S u f') s f := last P hact hC hfail hrest
  exact bind (hlast.attempt fun _ _ _ h => h)

end Ends

end Faults
