import Execlaw.Steps
import Mathlib.Control.Basic
import Mathlib.Logic.Relation
/-!
# Interleave — programs of atomic steps over shared state

A `Prog σ α` returns, or takes one atomic step on the shared state and goes on from what it saw there.  In a `Pool`
any number of processes run calls of such programs in any order, and may stop at any point; the environment takes steps
of its own.  `Ensures` is the rule for one process: whatever moves of the relation `rely` come in between, each of its
steps is one of `guar`, and what it returns satisfies its postcondition.
-/
namespace Interleave

inductive Prog (σ α : Type) where
  | ret (a : α)
  | op (next : σ → σ) (cont : σ → Prog σ α)

namespace Prog

variable {σ α β : Type}

def bind : Prog σ α → (α → Prog σ β) → Prog σ β
  | ret a, f => f a
  | op next cont, f => op next (fun s => (cont s).bind f)

instance : Monad (Prog σ) where
  pure := ret
  bind := bind

def atomic (f : σ → α × σ) : Prog σ α := op (fun s => (f s).2) (fun s => ret (f s).1)

def read (f : σ → α) : Prog σ α := op id (fun s => ret (f s))

def alone : Prog σ α → σ → α × σ
  | ret a, s => (a, s)
  | op next cont, s => (cont s).alone (next s)

@[simp] theorem alone_ret (a : α) (s : σ) : (ret a : Prog σ α).alone s = (a, s) := rfl

@[simp] theorem alone_pure (a : α) (s : σ) : (pure a : Prog σ α).alone s = (a, s) := rfl

@[simp] theorem alone_atomic (f : σ → α × σ) (s : σ) : (atomic f).alone s = f s := rfl

@[simp] theorem alone_read (f : σ → α) (s : σ) : (read f).alone s = (f s, s) := rfl

theorem alone_bind : ∀ (p : Prog σ α) (f : α → Prog σ β) (s : σ),
    (p >>= f).alone s = (f (p.alone s).1).alone (p.alone s).2
  | ret _, _, _ => rfl
  | op next cont, f, s => alone_bind (cont s) f (next s)

def cut : Nat → Prog σ α → σ → Option α × σ
  | _, ret a, s => (some a, s)
  | 0, op _ _, s => (none, s)
  | k + 1, op next cont, s => (cont s).cut k (next s)

/-! ## One process among others -/

/-- Under moves of `rely`, each step is a move of `guar`, and the result satisfies `post` from then on. -/
def Ensures (rely guar : σ → σ → Prop) (post : α → σ → Prop) : Prog σ α → σ → Prop
  | ret a, s => ∀ s', rely s s' → post a s'
  | op next cont, s => ∀ s', rely s s' → guar s' (next s') ∧ (cont s').Ensures rely guar post (next s')

section Ensures

variable {rely guar : σ → σ → Prop} {post : α → σ → Prop} {s s' : σ}

theorem Ensures.onward (htrans : ∀ a b c, rely a b → rely b c → rely a c) {p : Prog σ α}
    (h : p.Ensures rely guar post s) (hs : rely s s') : p.Ensures rely guar post s' := by
  cases p with
  | ret _ | op _ _ => exact fun s'' h'' => h s'' (htrans _ _ _ hs h'')

theorem Ensures.mono {post' : α → σ → Prop} (himp : ∀ a s, post a s → post' a s) : ∀ {p : Prog σ α} {s : σ},
    p.Ensures rely guar post s → p.Ensures rely guar post' s
  | ret a, _, h => fun s' hs => himp a s' (h s' hs)
  | op _ _, _, h => fun s' hs => ⟨(h s' hs).1, Ensures.mono himp (h s' hs).2⟩

theorem Ensures.bind (hrefl : ∀ s, rely s s) {post' : β → σ → Prop} {f : α → Prog σ β}
    (hf : ∀ a s, post a s → (f a).Ensures rely guar post' s) : ∀ {p : Prog σ α} {s : σ},
    p.Ensures rely guar post s → (p.bind f).Ensures rely guar post' s
  | ret a, s, h => hf a s (h s (hrefl s))
  | op _ _, _, h => fun s' hs => ⟨(h s' hs).1, Ensures.bind hrefl hf (h s' hs).2⟩

theorem ensures_trivial : ∀ (p : Prog σ α) (s : σ), p.Ensures rely (fun _ _ => True) (fun _ _ => True) s
  | ret _, _ => fun _ _ => trivial
  | op next cont, _ => fun s' _ => ⟨trivial, ensures_trivial (cont s') (next s')⟩

theorem ensures_atomic {f : σ → α × σ} (h : ∀ s', rely s s' → guar s' (f s').2 ∧
    ∀ s'', rely (f s').2 s'' → post (f s').1 s'') : (atomic f).Ensures rely guar post s :=
  fun s' hs => ⟨(h s' hs).1, (h s' hs).2⟩

theorem ensures_read {f : σ → α} (h : ∀ s', rely s s' → guar s' s' ∧ ∀ s'', rely s' s'' → post (f s') s'') :
    (read f).Ensures rely guar post s :=
  fun s' hs => ⟨(h s' hs).1, (h s' hs).2⟩

end Ensures

/-! ## One process alone -/

/-- **A program alone**: `I` after each of its steps, and its result satisfies `Q`. -/
def Holds (I : σ → Prop) (Q : α → σ → Prop) (p : Prog σ α) (s : σ) : Prop :=
  p.Ensures Eq (fun _ => I) Q s

section Holds

variable {I : σ → Prop} {Q : α → σ → Prop} {s : σ}

theorem holds_pure {a : α} (h : Q a s) : (pure a : Prog σ α).Holds I Q s := fun _ hs => hs ▸ h

theorem holds_atomic {f : σ → α × σ} (hI : I (f s).2) (hQ : Q (f s).1 (f s).2) : (atomic f).Holds I Q s :=
  ensures_atomic fun _ hs => hs ▸ ⟨hI, fun _ hs' => hs' ▸ hQ⟩

theorem holds_read {f : σ → α} (hI : I s) (hQ : Q (f s) s) : (read f).Holds I Q s :=
  ensures_read fun _ hs => hs ▸ ⟨hI, fun _ hs' => hs' ▸ hQ⟩

theorem Holds.bind {M : α → σ → Prop} {Q : β → σ → Prop} {p : Prog σ α} {f : α → Prog σ β}
    (hp : p.Holds I M s) (hf : ∀ a s, M a s → (f a).Holds I Q s) : (p >>= f).Holds I Q s :=
  Ensures.bind (fun _ => rfl) hf hp

theorem Holds.mono {Q' : α → σ → Prop} {p : Prog σ α} (h : p.Holds I Q s)
    (himp : ∀ a s, Q a s → Q' a s) : p.Holds I Q' s :=
  Ensures.mono himp h

theorem Holds.weaken {J : σ → Prop} (himp : ∀ s, I s → J s) : ∀ {p : Prog σ α} {s : σ},
    p.Holds I Q s → p.Holds J Q s
  | ret _, _, h => h
  | op _ _, _, h => fun s' hs => ⟨himp _ (h s' hs).1, Holds.weaken himp (h s' hs).2⟩

theorem Holds.cut : ∀ {p : Prog σ α} {s : σ} (k : Nat), I s → p.Holds I Q s →
    I (p.cut k s).2 ∧ ∀ a, (p.cut k s).1 = some a → Q a (p.cut k s).2
  | ret a, s, k, hI, h => by
    cases k <;> exact ⟨hI, fun b hb => Option.some.inj hb ▸ h s rfl⟩
  | op next cont, s, 0, hI, h => ⟨hI, fun a ha => by cases ha⟩
  | op next cont, s, k + 1, hI, h => Holds.cut k (h s rfl).1 (h s rfl).2

theorem Holds.alone : ∀ {p : Prog σ α} {s : σ}, p.Holds I Q s → Q (p.alone s).1 (p.alone s).2
  | ret _, s, h => h s rfl
  | op _ cont, s, h => Holds.alone (p := cont s) (h s rfl).2

end Holds

/-! ## Whatever the others do -/

/-- Each step of the program is a move of `guar`, from any state. -/
def Moves (guar : σ → σ → Prop) (p : Prog σ α) : Prop := ∀ s, p.Ensures (fun _ _ => True) guar (fun _ _ => True) s

section Moves

variable {guar : σ → σ → Prop}

theorem moves_ret (a : α) : (ret a : Prog σ α).Moves guar := fun _ _ _ => trivial

theorem moves_atomic {f : σ → α × σ} (h : ∀ s, guar s (f s).2) : (atomic f).Moves guar :=
  fun _ => ensures_atomic fun s _ => ⟨h s, fun _ _ => trivial⟩

theorem moves_read {f : σ → α} (h : ∀ s, guar s s) : (read f).Moves guar :=
  fun _ => ensures_read fun s _ => ⟨h s, fun _ _ => trivial⟩

variable {p : Prog σ α}

theorem Moves.bind {f : α → Prog σ β} (hp : p.Moves guar) (hf : ∀ a, (f a).Moves guar) : (p >>= f).Moves guar :=
  fun s => Ensures.bind (fun _ => trivial) (fun a s _ => hf a s) (hp s)

theorem Moves.weaken {guar' : σ → σ → Prop} (himp : ∀ s s', guar s s' → guar' s s') (h : p.Moves guar) :
    p.Moves guar' := by
  intro s
  have hweak : ∀ {p : Prog σ α} {s : σ}, p.Ensures (fun _ _ => True) guar (fun _ _ => True) s →
      p.Ensures (fun _ _ => True) guar' (fun _ _ => True) s := by
    intro p
    induction p with
    | ret a => exact fun _ _ _ => trivial
    | op next cont ih => exact fun h s' hs' => ⟨himp _ _ (h s' hs').1, ih s' (h s' hs').2⟩
  exact hweak (h s)

theorem Moves.ensures {rely : σ → σ → Prop} {I : σ → Prop} (hguar : ∀ s s', guar s s' → rely s s')
    (hI : ∀ s s', I s → rely s s' → I s') (h : p.Moves guar) {s : σ} (hs : I s) :
    p.Ensures rely (fun _ _ => True) (fun _ => I) s := by
  induction p generalizing s with
  | ret a => exact fun s' hs' => hI s s' hs hs'
  | op next cont ih =>
    intro s' hs'
    have hnext : guar s' (next s') := (h s' s' trivial).1
    refine ⟨trivial, ih s' (fun _ => (h s' s' trivial).2.onward (fun _ _ _ _ _ => trivial) trivial) ?_⟩
    exact hI _ _ (hI _ _ hs hs') (hguar _ _ hnext)

theorem Moves.next {next : σ → σ} {cont : σ → Prog σ α} (h : (op next cont).Moves guar) (s : σ) : guar s (next s) :=
  (h s s trivial).1

theorem Moves.cont {next : σ → σ} {cont : σ → Prog σ α} (h : (op next cont).Moves guar) (s : σ) : (cont s).Moves guar :=
  fun _ => (h s s trivial).2.onward (fun _ _ _ _ _ => trivial) trivial

end Moves

/-! ## One last step that counts -/

def AtLast (w : σ → Nat) : Prog σ α → Prop
  | ret _ => True
  | op next cont => (∀ s, w (next s) = w s ∧ (cont s).AtLast w) ∨ (∀ s, w (next s) ≤ w s + 1 ∧ ∃ a, cont s = ret a)

section AtLast

variable {w : σ → Nat}

theorem atLast_pure (a : α) : (pure a : Prog σ α).AtLast w := trivial

theorem AtLast.next {next : σ → σ} {cont : σ → Prog σ α} (h : (op next cont).AtLast w) (s : σ) :
    w (next s) = w s ∨ w (next s) ≤ w s + 1 ∧ ∃ a, cont s = ret a :=
  h.imp (fun h => (h s).1) (fun h => h s)

theorem AtLast.cont {next : σ → σ} {cont : σ → Prog σ α} (h : (op next cont).AtLast w) (s : σ) : (cont s).AtLast w := by
  rcases h with h | h
  · exact (h s).2
  · obtain ⟨a, ha⟩ := (h s).2
    rw [ha]
    trivial

theorem atLast_atomic {f : σ → α × σ} (h : ∀ s, w (f s).2 ≤ w s + 1) (a : β) :
    (atomic f >>= fun _ => (pure a : Prog σ β)).AtLast w :=
  .inr fun s => ⟨h s, a, rfl⟩

theorem Moves.atLast : ∀ {p : Prog σ α} {f : α → Prog σ β}, p.Moves (fun s s' => w s' = w s) →
    (∀ a, (f a).AtLast w) → (p >>= f).AtLast w
  | ret a, _, _, hf => hf a
  | op _ cont, _, hp, hf => .inl fun s => ⟨hp.next s, Moves.atLast (p := cont s) (hp.cont s) hf⟩

end AtLast

end Prog

/-! ## Programs that may fail -/

section Fail

variable {σ ε α β : Type} {rely guar : σ → σ → Prop} {s : σ} {f : α → ExceptT ε (Prog σ) β}

theorem ensures_exceptT_bind (hrefl : ∀ s, rely s s) {M : Except ε α → σ → Prop} {post : Except ε β → σ → Prop}
    {p : ExceptT ε (Prog σ) α} (hp : Prog.Ensures rely guar M p.run s)
    (herr : ∀ e s, M (.error e) s → ∀ s', rely s s' → post (.error e) s')
    (hf : ∀ a s, M (.ok a) s → Prog.Ensures rely guar post (f a).run s) :
    Prog.Ensures rely guar post (p >>= f).run s := by
  refine Prog.Ensures.bind hrefl ?_ hp
  intro a s ha
  cases a with
  | error e => exact herr e s ha
  | ok a => exact hf a s ha

theorem moves_exceptT_bind {guar : σ → σ → Prop} {p : ExceptT ε (Prog σ) α} (hp : Prog.Moves guar p.run)
    (hf : ∀ a, Prog.Moves guar (f a).run) : Prog.Moves guar (p >>= f).run :=
  fun s => ensures_exceptT_bind (fun _ => trivial) (hp s) (fun _ _ _ _ _ => trivial) (fun a s _ => hf a s)

theorem alone_exceptT_bind (p : ExceptT ε (Prog σ) α) (f : α → ExceptT ε (Prog σ) β) (s : σ) :
    Prog.alone (p >>= f).run s = match Prog.alone p.run s with
      | (.ok a, s') => Prog.alone (f a).run s'
      | (.error e, s') => (.error e, s') := by
  refine (Prog.alone_bind p.run _ s).trans ?_
  rcases Prog.alone p.run s with ⟨e | a, s'⟩ <;> rfl

end Fail

structure Pool (σ κ α : Type) where
  shared : σ
  procs : Nat → Option (κ × Prog σ α)

inductive Event (κ α ε : Type)
  | call (i : Nat) (c : κ)
  | step (i : Nat)
  | returns (i : Nat) (c : κ) (a : α)
  | crash (i : Nat)
  | env (e : ε)

section Pool

open Steps

variable {σ κ α ε : Type} {prog : Nat → κ → Prog σ α} {env : σ → ε → σ} {p p' : Pool σ κ α} {e : Event κ α ε}

def Pool.Step (prog : Nat → κ → Prog σ α) (env : σ → ε → σ) (p : Pool σ κ α) : Event κ α ε → Pool σ κ α → Prop
  | .call i c, p' => p.procs i = none ∧ p' = { p with procs := Function.update p.procs i (some (c, prog i c)) }
  | .step i, p' => ∃ c next cont, p.procs i = some (c, .op next cont) ∧
      p' = ⟨next p.shared, Function.update p.procs i (some (c, cont p.shared))⟩
  | .returns i c a, p' => p.procs i = some (c, .ret a) ∧ p' = { p with procs := Function.update p.procs i none }
  | .crash i, p' => p' = { p with procs := Function.update p.procs i none }
  | .env e, p' => p' = { p with shared := env p.shared e }

def Pool.Moving (guar : Nat → κ → σ → σ → Prop) (p : Pool σ κ α) : Prop :=
  ∀ i c q, p.procs i = some (c, q) → q.Moves (guar i c)

inductive Pool.Move (guar : Nat → κ → σ → σ → Prop) (env : σ → ε → σ) (p : Pool σ κ α) :
    Event κ α ε → Pool σ κ α → Prop
  | still {e : Event κ α ε} {p' : Pool σ κ α} (same : p'.shared = p.shared) : Pool.Move guar env p e p'
  | took {i : Nat} {c : κ} {q : Prog σ α} {p' : Pool σ κ α} (at_ : p.procs i = some (c, q))
      (move : guar i c p.shared p'.shared) : Pool.Move guar env p (.step i) p'
  | outside {e : ε} {p' : Pool σ κ α} (moved : p'.shared = env p.shared e) : Pool.Move guar env p (.env e) p'

theorem Pool.step_unique {e : Event κ α ε} {p'' : Pool σ κ α} (h : Pool.Step prog env p e p')
    (h' : Pool.Step prog env p e p'') : p' = p'' := by
  cases e with
  | call i c | returns i c a => exact h.2.trans h'.2.symm
  | step i =>
    obtain ⟨c, next, cont, hi, rfl⟩ := h
    obtain ⟨c', next', cont', hi', rfl⟩ := h'
    cases hi.symm.trans hi'
    rfl
  | crash i | env e => exact Eq.trans h (Eq.symm h')

variable {P : Nat → κ → Prog σ α → Prop}

theorem forall_update {procs : Nat → Option (κ × Prog σ α)} (h : ∀ i c q, procs i = some (c, q) → P i c q) {j : Nat}
    {proc : Option (κ × Prog σ α)} (hj : ∀ c q, proc = some (c, q) → P j c q) (i : Nat) (c : κ) (q : Prog σ α)
    (hi : Function.update procs j proc i = some (c, q)) : P i c q := by
  by_cases hij : i = j
  · subst hij
    rw [Function.update_self] at hi
    exact hj c q hi
  · rw [Function.update_of_ne hij] at hi
    exact h i c q hi

theorem Pool.inFlight_step (hcall : ∀ i c, P i c (prog i c))
    (hcont : ∀ i c next cont s, P i c (.op next cont) → P i c (cont s)) (h : ∀ i c q, p.procs i = some (c, q) → P i c q)
    (hstep : Pool.Step prog env p e p') : ∀ i c q, p'.procs i = some (c, q) → P i c q := by
  cases e with
  | call i c =>
    obtain ⟨-, rfl⟩ := hstep
    exact forall_update h fun _ _ heq => by cases heq; exact hcall i c
  | step i =>
    obtain ⟨c, next, cont, hi, rfl⟩ := hstep
    exact forall_update h fun _ _ heq => by cases heq; exact hcont i c next cont p.shared (h i c _ hi)
  | returns i c a =>
    obtain ⟨-, rfl⟩ := hstep
    exact forall_update h fun _ _ heq => by cases heq
  | crash i =>
    obtain rfl := hstep
    exact forall_update h fun _ _ heq => by cases heq
  | env e =>
    obtain rfl := hstep
    exact h

section Moving

variable {guar : Nat → κ → σ → σ → Prop} (hprog : ∀ i c, (prog i c).Moves (guar i c))
include hprog

theorem Pool.Moving.step (h : p.Moving guar) (hstep : Pool.Step prog env p e p') :
    p'.Moving guar ∧ Pool.Move guar env p e p' := by
  refine ⟨Pool.inFlight_step hprog (fun _ _ _ _ s hop => hop.cont s) h hstep, ?_⟩
  cases e with
  | call i c | returns i c a => exact .still (by rw [hstep.2])
  | step i =>
    obtain ⟨c, next, cont, hi, rfl⟩ := hstep
    exact .took hi ((h i c _ hi).next p.shared)
  | crash i =>
    obtain rfl := hstep
    exact .still rfl
  | env e =>
    obtain rfl := hstep
    exact .outside rfl

theorem Pool.moves_run {es : List (Event κ α ε)} (h : p.Moving guar) (hrun : Run (Pool.Step prog env) p es p') :
    p'.Moving guar ∧ Run (fun p e p' => Pool.Step prog env p e p' ∧ Pool.Move guar env p e p') p es p' := by
  induction es generalizing p with
  | nil =>
    obtain rfl := hrun
    exact ⟨h, rfl⟩
  | cons e es ih =>
    obtain ⟨m, hm, hrun⟩ := hrun
    obtain ⟨h', hmove⟩ := Pool.Moving.step hprog h hm
    obtain ⟨hend, hrun⟩ := ih h' hrun
    exact ⟨hend, m, ⟨hm, hmove⟩, hrun⟩

end Moving

/-! ### A call on its own -/

theorem Pool.run_alone {i : Nat} (c : κ) (hidle : p.procs i = none) : ∃ n, Run (Pool.Step prog env) p
    (.call i c :: (List.replicate n (.step i) ++ [.returns i c ((prog i c).alone p.shared).1]))
    ⟨((prog i c).alone p.shared).2, p.procs⟩ := by
  have hself : Function.update p.procs i none = p.procs := by rw [← hidle, Function.update_eq_self]
  -- by recursion on the program, from any shared state
  have hprog : ∀ (q : Prog σ α) (s : σ), ∃ n, Run (Pool.Step prog env) ⟨s, Function.update p.procs i (some (c, q))⟩
      (List.replicate n (.step i) ++ [.returns i c (q.alone s).1]) ⟨(q.alone s).2, p.procs⟩ := by
    intro q
    induction q with
    | ret a =>
      intro s
      refine ⟨0, _, ⟨Function.update_self .., rfl⟩, ?_⟩
      rw [Function.update_idem, hself]
      rfl
    | op next cont ih =>
      intro s
      obtain ⟨n, hn⟩ := ih s (next s)
      refine ⟨n + 1, ?_⟩
      rw [List.replicate_succ, List.cons_append]
      refine ⟨_, ⟨c, next, cont, Function.update_self .., rfl⟩, ?_⟩
      rw [Function.update_idem]
      exact hn
  obtain ⟨n, hn⟩ := hprog (prog i c) p.shared
  exact ⟨n, _, ⟨hidle, rfl⟩, hn⟩

/-! ### One process of a pool -/

def Pool.Follows (j : Nat) (rely : σ → σ → Prop) (guar : κ → σ → σ → Prop) (post : κ → α → σ → Prop)
    (p : Pool σ κ α) : Prop :=
  ∀ c q, p.procs j = some (c, q) → q.Ensures rely (guar c) (post c) p.shared

theorem Pool.follows_of_idle {j : Nat} {rely : σ → σ → Prop} {guar : κ → σ → σ → Prop} {post : κ → α → σ → Prop}
    (h : p.procs j = none) : p.Follows j rely guar post := by
  intro c q hq
  rw [h] at hq
  cases hq

section Follows

variable {j : Nat} {rely : σ → σ → Prop} {guar : κ → σ → σ → Prop} {post : κ → α → σ → Prop}
  (hrefl : ∀ s, rely s s) (htrans : ∀ a b c, rely a b → rely b c → rely a c)
include hrefl htrans

theorem Pool.Follows.step (h : p.Follows j rely guar post) (hstep : Pool.Step prog env p e p')
    (hrely : rely p.shared p'.shared)
    (hcall : ∀ c, e = .call j c → (prog j c).Ensures rely (guar c) (post c) p.shared) :
    p'.Follows j rely guar post := by
  have hother : ∀ {i : Nat} {proc : Option (κ × Prog σ α)} {s : σ}, rely p.shared s →
      (∀ c q, proc = some (c, q) → i = j → q.Ensures rely (guar c) (post c) s) →
      Pool.Follows j rely guar post ⟨s, Function.update p.procs i proc⟩ := by
    intro i proc s hs hproc c q hq
    have hbefore : ∀ i c q, p.procs i = some (c, q) → i = j → q.Ensures rely (guar c) (post c) s := by
      intro i c q hi hij
      rw [hij] at hi
      exact (h c q hi).onward htrans hs
    have hafter := forall_update hbefore hproc
    exact hafter j c q hq rfl
  cases e with
  | call i c =>
    obtain ⟨-, rfl⟩ := hstep
    refine hother (hrefl _) fun _ _ heq hij => ?_
    cases heq
    subst hij
    exact hcall c rfl
  | step i =>
    obtain ⟨c, next, cont, hi, rfl⟩ := hstep
    refine hother hrely fun _ _ heq hij => ?_
    cases heq
    subst hij
    exact (h c _ hi p.shared (hrefl _)).2
  | returns i c a =>
    obtain ⟨-, rfl⟩ := hstep
    exact hother (hrefl _) fun _ _ heq => by cases heq
  | crash i =>
    obtain rfl := hstep
    exact hother (hrefl _) fun _ _ heq => by cases heq
  | env e =>
    obtain rfl := hstep
    exact fun c q hq => (h c q hq).onward htrans hrely

omit htrans in
theorem Pool.Follows.returns (h : p.Follows j rely guar post) {c : κ} {a : α}
    (hstep : Pool.Step prog env p (.returns j c a) p') : post c a p.shared :=
  h c _ hstep.1 p.shared (hrefl _)

omit htrans in
theorem Pool.Follows.guarantee (h : p.Follows j rely guar post) (hstep : Pool.Step prog env p (.step j) p') :
    ∃ c q, p.procs j = some (c, q) ∧ guar c p.shared p'.shared := by
  obtain ⟨c, next, cont, hi, rfl⟩ := hstep
  exact ⟨c, _, hi, (h c _ hi p.shared (hrefl _)).1⟩

theorem Pool.follows_run {I : σ → Prop} (hI : ∀ s s', I s → rely s s' → I s') {es : List (Event κ α ε)}
    (hcall : ∀ c s, Event.call j c ∈ es → I s → (prog j c).Ensures rely (guar c) (post c) s)
    (hrun : Run (fun p e p' => Pool.Step prog env p e p' ∧ rely p.shared p'.shared) p es p') (hp : I p.shared)
    (h : p.Follows j rely guar post) :
    Run (fun p e p' => Pool.Step prog env p e p' ∧ p.Follows j rely guar post) p es p' := by
  induction es generalizing p with
  | nil => exact hrun
  | cons e es ih =>
    obtain ⟨m, ⟨hm, hrely⟩, hrun⟩ := hrun
    refine ⟨m, ⟨hm, h⟩, ih (fun c s hc => hcall c s (List.mem_cons_of_mem e hc)) hrun (hI _ _ hp hrely) ?_⟩
    refine h.step hrefl htrans hm hrely fun c hc => hcall c _ ?_ hp
    exact hc ▸ List.mem_cons_self

end Follows

inductive Turn (κ ε : Type)
  | call (i : Nat) (c : κ)
  | step (i : Nat)
  | returns (i : Nat)
  | env (e : ε)

def Pool.turn (prog : Nat → κ → Prog σ α) (env : σ → ε → σ) (p : Pool σ κ α) : Turn κ ε → Option (Pool σ κ α)
  | .call i c =>
    match p.procs i with
    | none => some { p with procs := Function.update p.procs i (some (c, prog i c)) }
    | some _ => none
  | .step i =>
    match p.procs i with
    | some (c, .op next cont) => some ⟨next p.shared, Function.update p.procs i (some (c, cont p.shared))⟩
    | _ => none
  | .returns i =>
    match p.procs i with
    | some (_, .ret _) => some { p with procs := Function.update p.procs i none }
    | _ => none
  | .env e => some { p with shared := env p.shared e }

def Pool.play (prog : Nat → κ → Prog σ α) (env : σ → ε → σ) (p : Pool σ κ α) : List (Turn κ ε) → Option (Pool σ κ α)
  | [] => some p
  | t :: ts => (p.turn prog env t).bind (fun m => m.play prog env ts)

theorem Pool.step_of_turn {t : Turn κ ε} (h : p.turn prog env t = some p') :
    ∃ e, Pool.Step prog env p e p' ∧ ∀ i, e = .step i → t = .step i := by
  cases t with
  | call i c =>
    cases hi : p.procs i with
    | none =>
      simp only [Pool.turn, hi, Option.some.injEq] at h
      exact ⟨.call i c, ⟨hi, h.symm⟩, nofun⟩
    | some q => simp [Pool.turn, hi] at h
  | step i =>
    rcases hi : p.procs i with _ | ⟨c, a | ⟨next, cont⟩⟩
    · simp [Pool.turn, hi] at h
    · simp [Pool.turn, hi] at h
    · simp only [Pool.turn, hi, Option.some.injEq] at h
      exact ⟨.step i, ⟨c, next, cont, hi, h.symm⟩, fun j hj => by rw [Event.step.inj hj]⟩
  | returns i =>
    rcases hi : p.procs i with _ | ⟨c, a | ⟨next, cont⟩⟩
    · simp [Pool.turn, hi] at h
    · simp only [Pool.turn, hi, Option.some.injEq] at h
      exact ⟨.returns i c a, ⟨hi, h.symm⟩, nofun⟩
    · simp [Pool.turn, hi] at h
  | env e => exact ⟨.env e, (Option.some.inj h).symm, nofun⟩

theorem Pool.run_of_play {ts : List (Turn κ ε)} (h : p.play prog env ts = some p') :
    ∃ es, Run (Pool.Step prog env) p es p' := by
  induction ts generalizing p with
  | nil => exact ⟨[], Option.some.inj h⟩
  | cons t ts ih =>
    rw [Pool.play, Option.bind_eq_some_iff] at h
    obtain ⟨m, hm, hplay⟩ := h
    obtain ⟨e, he, -⟩ := Pool.step_of_turn hm
    obtain ⟨es, hes⟩ := ih hplay
    exact ⟨e :: es, m, he, hes⟩

end Pool

end Interleave
