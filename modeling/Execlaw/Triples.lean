import Execlaw.Interleave
/-!
# Triples — pre- and postconditions of interleaved programs that may fail

`Triple rely guar A p B E`: from a state of `A`, whatever moves of `rely` come in between, each step of the program is a
move of `guar`; its result satisfies `B`, its error `E`.  An assertion is `Stable` if the moves of `rely` keep it.
-/
namespace Interleave

variable {σ ε α β : Type}

def Stable (rely : σ → σ → Prop) (A : σ → Prop) : Prop := ∀ s s', A s → rely s s' → A s'

def Triple (rely guar : σ → σ → Prop) (A : σ → Prop) (p : ExceptT ε (Prog σ) α) (B : α → σ → Prop)
    (E : ε → σ → Prop) : Prop :=
  ∀ s, A s → Prog.Ensures rely guar (fun res s => match res with
    | .ok a => B a s
    | .error e => E e s) p.run s

section Rules

variable {rely guar : σ → σ → Prop} {A : σ → Prop} {B : α → σ → Prop} {C : β → σ → Prop} {E : ε → σ → Prop}

namespace Triple

theorem pure {a : α} (hA : Stable rely A) (h : ∀ s, A s → B a s) :
    Triple rely guar A (pure a : ExceptT ε (Prog σ) α) B E :=
  fun s hs s' hmove => h s' (hA s s' hs hmove)

theorem throw {e : ε} (hA : Stable rely A) (h : ∀ s, A s → E e s) :
    Triple rely guar A (MonadExcept.throw e : ExceptT ε (Prog σ) α) B E :=
  fun s hs s' hmove => h s' (hA s s' hs hmove)

theorem lift {res : Except ε α} (hA : Stable rely A) (hok : ∀ a s, res = .ok a → A s → B a s)
    (herr : ∀ e s, res = .error e → A s → E e s) :
    Triple rely guar A (ExceptT.mk (Prog.ret res) : ExceptT ε (Prog σ) α) B E := by
  intro s hs s' hmove
  cases res with
  | ok a => exact hok a s' rfl (hA s s' hs hmove)
  | error e => exact herr e s' rfl (hA s s' hs hmove)

variable {p : ExceptT ε (Prog σ) α}

theorem bind (hrefl : ∀ s, rely s s) (hE : ∀ e, Stable rely (E e)) {f : α → ExceptT ε (Prog σ) β}
    (hp : Triple rely guar A p B E) (hf : ∀ a, Triple rely guar (B a) (f a) C E) :
    Triple rely guar A (p >>= f) C E := by
  intro s hs
  exact ensures_exceptT_bind hrefl (hp s hs) (fun e s he s' hmove => hE e s s' he hmove) (fun a s ha => hf a s ha)

theorem weaken {A' : σ → Prop} {B' : α → σ → Prop} {E' : ε → σ → Prop} (h : Triple rely guar A p B E)
    (hA : ∀ s, A' s → A s) (hB : ∀ a s, B a s → B' a s) (hE : ∀ e s, E e s → E' e s) : Triple rely guar A' p B' E' := by
  intro s hs
  refine (h s (hA s hs)).mono fun res s hres => ?_
  cases res with
  | ok a => exact hB a s hres
  | error e => exact hE e s hres

theorem of_fact {P : Prop} (h : P → Triple rely guar A p B E) : Triple rely guar (fun s => A s ∧ P) p B E :=
  fun s hs => h hs.2 s hs.1

theorem atomic {f : σ → Except ε α × σ} (hA : Stable rely A) (hguar : ∀ s, A s → guar s (f s).2)
    (hB : ∀ a, Stable rely (B a)) (hE : ∀ e, Stable rely (E e))
    (hpost : ∀ s, A s → match (f s).1 with
      | .ok a => B a (f s).2
      | .error e => E e (f s).2) :
    Triple rely guar A (ExceptT.mk (Prog.atomic f)) B E := by
  intro s hs
  refine Prog.ensures_atomic fun s' hmove => ?_
  have hs' := hA s s' hs hmove
  refine ⟨hguar s' hs', fun s'' hmove' => ?_⟩
  have hend := hpost s' hs'
  cases hres : (f s').1 with
  | ok a =>
    rw [hres] at hend
    exact hB a _ _ hend hmove'
  | error e =>
    rw [hres] at hend
    exact hE e _ _ hend hmove'

theorem caught {E' : ε → σ → Prop} (hrefl : ∀ s, rely s s) (hB : ∀ a, Stable rely (B a)) (hE : ∀ e, Stable rely (E e))
    (hp : Triple rely guar A p B E) :
    Triple rely guar A (ExceptT.mk (Prog.bind p.run (fun res => Prog.ret ((Except.ok res : Except ε (Except ε α))))))
      (fun res s => match res with
        | .ok a => B a s
        | .error e => E e s) E' := by
  intro s hs
  refine Prog.Ensures.bind hrefl ?_ (hp s hs)
  intro res s hres s' hmove
  cases res with
  | ok a => exact hB a s s' hres hmove
  | error e => exact hE e s s' hres hmove

theorem mapError {f : ε → ε} (hrefl : ∀ s, rely s s) (hB : ∀ a, Stable rely (B a)) (hE : ∀ e, Stable rely (E e))
    (hp : Triple rely guar A p B (fun e => E (f e))) :
    Triple rely guar A (ExceptT.mk (Prog.bind p.run (fun res => Prog.ret (res.mapError f)))) B E := by
  intro s hs
  refine Prog.Ensures.bind hrefl ?_ (hp s hs)
  intro res s hres s' hmove
  cases res with
  | ok a => exact hB a s s' hres hmove
  | error e => exact hE (f e) s s' hres hmove

end Triple

end Rules

/-! ## Processes that rely on each other -/

section Together

variable {κ ι : Type} {prog : Nat → κ → Prog σ α} {env : σ → ι → σ} {p p' : Pool σ κ α} {e : Event κ α ι}
  {rely guar : Nat → σ → σ → Prop} {I : σ → Prop}

theorem Pool.together_run (hrefl : ∀ i s, rely i s s) (htrans : ∀ i a b c, rely i a b → rely i b c → rely i a c)
    (hcross : ∀ i j s s', i ≠ j → I s → guar i s s' → rely j s s') (henv : ∀ j s o, I s → rely j s (env s o))
    (hI : ∀ i s s', I s → guar i s s' → I s') (hIenv : ∀ s o, I s → I (env s o))
    (hprog : ∀ i c s, I s → (prog i c).Ensures (rely i) (guar i) (fun _ _ => True) s) {es : List (Event κ α ι)}
    (hrun : Steps.Run (Pool.Step prog env) p es p') (hp : I p.shared)
    (h : ∀ i c q, p.procs i = some (c, q) → q.Ensures (rely i) (guar i) (fun _ _ => True) p.shared) :
    I p'.shared ∧
      ∀ i c q, p'.procs i = some (c, q) → q.Ensures (rely i) (guar i) (fun _ _ => True) p'.shared := by
  induction es generalizing p with
  | nil =>
    obtain rfl := hrun
    exact ⟨hp, h⟩
  | cons e es ih =>
    obtain ⟨m, hm, hrun⟩ := hrun
    cases e with
    | call i c =>
      obtain ⟨-, rfl⟩ := hm
      exact ih hrun hp (forall_update h fun _ _ heq => by cases heq; exact hprog i c p.shared hp)
    | step i =>
      obtain ⟨c, next, cont, hi, rfl⟩ := hm
      have hstep := h i c _ hi p.shared (hrefl i _)
      refine ih hrun (hI i _ _ hp hstep.1) fun j d q hq => ?_
      by_cases hj : j = i
      · subst hj
        simp only [Function.update_self, Option.some.injEq, Prod.mk.injEq] at hq
        obtain ⟨-, rfl⟩ := hq
        exact hstep.2
      · simp only [Function.update_of_ne hj] at hq
        exact (h j d q hq).onward (htrans j) (hcross i j _ _ (Ne.symm hj) hp hstep.1)
    | returns i c a =>
      obtain ⟨-, rfl⟩ := hm
      exact ih hrun hp (forall_update h fun _ _ heq => by cases heq)
    | crash i =>
      obtain rfl := hm
      exact ih hrun hp (forall_update h fun _ _ heq => by cases heq)
    | env o =>
      obtain rfl := hm
      exact ih hrun (hIenv _ o hp) fun j d q hq => (h j d q hq).onward (htrans j) (henv j _ o hp)

end Together

end Interleave
