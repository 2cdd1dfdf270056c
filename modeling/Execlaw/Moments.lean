import Execlaw.Interleave
import Mathlib.Data.List.Induction
/-!
# Moments — what the steps of a call met

Each step of a program meets a state of the shared memory, and what is left of the program is fixed by the states its
steps met (`left`).  `Tells P Q` says of every step what it may do, given the states met before it, and of the result
what those states tell of it.  In a pool the states a call met are states of the run since the call began
(`Pool.since_run`); so a step is explained by moments of its own call (`Pool.tells_step`).
-/
namespace Interleave

open Steps

variable {σ κ α β ε : Type}

namespace Prog

def left : Prog σ α → List σ → Option (Prog σ α)
  | p, [] => some p
  | ret _, _ :: _ => none
  | op _ cont, s :: ss => (cont s).left ss

@[simp] theorem left_nil (p : Prog σ α) : p.left [] = some p := by
  cases p <;> rfl

theorem left_snoc {next : σ → σ} {cont : σ → Prog σ α} (s : σ) : ∀ {p : Prog σ α} {ss : List σ},
    p.left ss = some (op next cont) → p.left (ss ++ [s]) = some (cont s)
  | p, [], h => by
    cases (left_nil p).symm.trans h
    exact left_nil _
  | ret _, _ :: _, h => by cases h
  | op _ k, r :: ss, h => left_snoc s (p := k r) h

/-- Every step, given the states met before it, is within `P`; a result, given the states met, is within `Q`. -/
def Tells (P : List σ → σ → σ → Prop) (Q : List σ → α → Prop) : List σ → Prog σ α → Prop
  | ss, ret a => Q ss a
  | ss, op next cont => ∀ s, P ss s (next s) ∧ Tells P Q (ss ++ [s]) (cont s)

section Tells

variable {P : List σ → σ → σ → Prop} {Q : List σ → α → Prop} {ss : List σ} {k : β → Prog σ α}

theorem tells_read {f : σ → β} (h : ∀ s, P ss s s) (hk : ∀ s, Tells P Q (ss ++ [s]) (k (f s))) :
    Tells P Q ss (read f >>= k) :=
  fun s => ⟨h s, hk s⟩

theorem tells_atomic {f : σ → β × σ} (h : ∀ s, P ss s (f s).2) (hk : ∀ s, Tells P Q (ss ++ [s]) (k (f s).1)) :
    Tells P Q ss (atomic f >>= k) :=
  fun s => ⟨h s, hk s⟩

theorem tells_pure {a : α} (h : Q ss a) : Tells P Q ss (pure a : Prog σ α) := h

theorem Tells.next {next : σ → σ} {cont : σ → Prog σ α} (h : Tells P Q ss (op next cont)) (s : σ) : P ss s (next s) :=
  (h s).1

theorem Tells.bind {Q' : List σ → β → Prop} (hk : ∀ ss b, Q' ss b → Tells P Q ss (k b)) :
    ∀ {p : Prog σ β} {ss : List σ}, Tells P Q' ss p → Tells P Q ss (p >>= k)
  | ret b, ss, h => hk ss b h
  | op _ cont, _, h => fun s => ⟨(h s).1, Tells.bind hk (p := cont s) (h s).2⟩

theorem tells_of_forall (hP : ∀ rest s s', P (ss ++ rest) s s') (hQ : ∀ rest a, Q (ss ++ rest) a) :
    ∀ (p : Prog σ α) (rest : List σ), Tells P Q (ss ++ rest) p
  | ret a, rest => hQ rest a
  | op next cont, rest => fun s => ⟨hP rest s (next s), by
      rw [List.append_assoc]
      exact tells_of_forall hP hQ (cont s) (rest ++ [s])⟩

theorem Tells.left : ∀ {p q : Prog σ α} {ss rest : List σ}, Tells P Q ss p → p.left rest = some q →
    Tells P Q (ss ++ rest) q
  | p, q, ss, [], h, hq => by
    cases (left_nil p).symm.trans hq
    rwa [List.append_nil]
  | ret _, _, _, _ :: _, _, hq => by cases hq
  | op _ cont, q, ss, r :: rest, h, hq => by
    have hrest := Tells.left (h r).2 hq
    rwa [List.append_assoc] at hrest

end Tells

end Prog

/-! ## The call a process is in -/

section Since

variable {prog : Nat → κ → Prog σ α} {env : σ → ε → σ} {step : Pool σ κ α → Event κ α ε → Pool σ κ α → Prop}
  {start p p' : Pool σ κ α} {es : List (Event κ α ε)}

/-- The events `since` have come after process `i` made the call `c`, its last, in the pool `begun`. -/
structure Pool.Since (step : Pool σ κ α → Event κ α ε → Pool σ κ α → Prop) (start : Pool σ κ α)
    (es : List (Event κ α ε)) (p : Pool σ κ α) (i : Nat) (c : κ) (begun : Pool σ κ α) (since : List (Event κ α ε)) :
    Prop where
  before : ∃ earlier, es = earlier ++ .call i c :: since ∧ Run step start (earlier ++ [.call i c]) begun
  run : Run step begun since p
  last : ∀ d, Event.call i d ∉ since

/-- The shared state was `s` at a moment of these events. -/
def Pool.Met (step : Pool σ κ α → Event κ α ε → Pool σ κ α → Prop) (begun : Pool σ κ α) (since : List (Event κ α ε))
    (p : Pool σ κ α) (s : σ) : Prop :=
  ∃ pre post m, since = pre ++ post ∧ Run step begun pre m ∧ Run step m post p ∧ m.shared = s

variable {since : List (Event κ α ε)} {begun : Pool σ κ α} {i : Nat}

theorem Pool.Since.snoc {c : κ} {e : Event κ α ε} (h : Pool.Since step start es p i c begun since) (hstep : step p e p')
    (he : ∀ d, e ≠ .call i d) :
    Pool.Since step start (es ++ [e]) p' i c begun (since ++ [e]) where
  before := by
    obtain ⟨earlier, rfl, hrun⟩ := h.before
    exact ⟨earlier, by rw [List.append_assoc, List.cons_append], hrun⟩
  run := run_snoc.2 ⟨p, h.run, hstep⟩
  last := by
    intro d hd
    rcases List.mem_append.1 hd with hd | hd
    · exact h.last d hd
    · exact he d (List.mem_singleton.1 hd).symm

theorem Pool.Met.split {c : κ} {s : σ} (h : Pool.Met step begun since p s)
    (hsince : Pool.Since step start es p i c begun since) :
    ∃ pre post m, Run step start pre m ∧ Run step m post p ∧ m.shared = s := by
  obtain ⟨earlier, -, hbegun⟩ := hsince.before
  obtain ⟨pre, post, m, -, hpre, hpost, hs⟩ := h
  exact ⟨_, post, m, run_append.2 ⟨begun, hbegun, hpre⟩, hpost, hs⟩

theorem Pool.in_call (hstep : ∀ p e p', step p e p' → Pool.Step prog env p e p') {c : κ} {q : Prog σ α} :
    ∀ {es : List (Event κ α ε)} {m p : Pool σ κ α}, Run step m es p → (∀ d, Event.call i d ∉ es) →
      p.procs i = some (c, q) → ∃ q', m.procs i = some (c, q')
  | [], m, p, hrun, _, hi => by
    obtain rfl := hrun
    exact ⟨q, hi⟩
  | e :: es, m, p, ⟨m', hm, hrun⟩, hcall, hi => by
    obtain ⟨q', hq'⟩ := Pool.in_call hstep hrun (fun d hd => hcall d (List.mem_cons_of_mem e hd)) hi
    have hne : ∀ d, e ≠ .call i d := fun d hd => hcall d (hd ▸ List.mem_cons_self)
    have hevent := hstep _ _ _ hm
    cases e with
    | call j d =>
      obtain ⟨-, rfl⟩ := hevent
      have hij : i ≠ j := fun hij => hne d (by rw [hij])
      exact ⟨q', by simpa [Function.update_of_ne hij] using hq'⟩
    | step j =>
      obtain ⟨d, next, cont, hj, rfl⟩ := hevent
      by_cases hij : i = j
      · subst hij
        simp only [Function.update_self] at hq'
        cases hq'
        exact ⟨_, hj⟩
      · exact ⟨q', by simpa [Function.update_of_ne hij] using hq'⟩
    | returns j d a =>
      obtain ⟨-, rfl⟩ := hevent
      by_cases hij : i = j
      · simp [hij] at hq'
      · exact ⟨q', by simpa [Function.update_of_ne hij] using hq'⟩
    | crash j =>
      obtain rfl : m' = { m with procs := Function.update m.procs j none } := hevent
      by_cases hij : i = j
      · simp [hij] at hq'
      · exact ⟨q', by simpa [Function.update_of_ne hij] using hq'⟩
    | env o =>
      obtain rfl : m' = { m with shared := env m.shared o } := hevent
      exact ⟨q', hq'⟩

theorem Pool.Met.snoc {e : Event κ α ε} {s : σ} (h : Pool.Met step begun since p s) (hstep : step p e p') :
    Pool.Met step begun (since ++ [e]) p' s := by
  obtain ⟨pre, post, m, rfl, hpre, hpost, hs⟩ := h
  exact ⟨pre, post ++ [e], m, List.append_assoc .., hpre, run_snoc.2 ⟨p, hpost, hstep⟩, hs⟩

theorem Pool.since_run (hstep : ∀ p e p', step p e p' → Pool.Step prog env p e p') (hidle : ∀ i, start.procs i = none)
    (hrun : Run step start es p) {c : κ} {q : Prog σ α} (hi : p.procs i = some (c, q)) :
    ∃ begun since met, Pool.Since step start es p i c begun since ∧ (prog i c).left met = some q ∧
      ∀ s ∈ met, Pool.Met step begun since p s := by
  -- the last event either makes the call, takes its step, or leaves it as it stands
  induction es using List.reverseRecOn generalizing p c q with
  | nil =>
    obtain rfl := hrun
    rw [hidle i] at hi
    cases hi
  | append_singleton es e ih =>
    obtain ⟨m, hm, he⟩ := run_snoc.1 hrun
    have hsame : m.procs i = p.procs i → (∀ d, e ≠ .call i d) → ∃ begun since met,
        Pool.Since step start (es ++ [e]) p i c begun since ∧ (prog i c).left met = some q ∧
          ∀ s ∈ met, Pool.Met step begun since p s := by
      intro hprocs hcall
      obtain ⟨begun, since, met, hsince, hleft, hmet⟩ := ih hm (hprocs.trans hi)
      exact ⟨begun, since ++ [e], met, hsince.snoc he hcall, hleft, fun s hs => (hmet s hs).snoc he⟩
    have hevent := hstep _ _ _ he
    cases e with
    | call j d =>
      obtain ⟨-, hp⟩ := hevent
      by_cases hij : j = i
      · subst hij
        simp only [hp, Function.update_self] at hi
        cases hi
        refine ⟨p, [], [], ⟨⟨es, rfl, run_snoc.2 ⟨m, hm, he⟩⟩, rfl, nofun⟩, Prog.left_nil _, nofun⟩
      · refine hsame ?_ fun d' h => hij ?_
        · simp only [hp, Function.update_of_ne (Ne.symm hij)]
        · injection h
    | step j =>
      obtain ⟨d, next, cont, hj, hp⟩ := hevent
      by_cases hij : j = i
      · subst hij
        simp only [hp, Function.update_self] at hi
        cases hi
        obtain ⟨begun, since, met, hsince, hleft, hmet⟩ := ih hm hj
        refine ⟨begun, since ++ [.step j], met ++ [m.shared], hsince.snoc he (fun _ h => nomatch h),
          Prog.left_snoc m.shared hleft, fun s hs => ?_⟩
        rcases List.mem_append.1 hs with hs | hs
        · exact (hmet s hs).snoc he
        · rw [List.mem_singleton.1 hs]
          exact ⟨since, [.step j], m, rfl, hsince.run, ⟨p, he, rfl⟩, rfl⟩
      · refine hsame ?_ (fun _ h => nomatch h)
        simp only [hp, Function.update_of_ne (Ne.symm hij)]
    | returns j d a =>
      obtain ⟨-, hp⟩ := hevent
      by_cases hij : j = i
      · subst hij
        simp only [hp, Function.update_self] at hi
        cases hi
      · refine hsame ?_ (fun _ h => nomatch h)
        simp only [hp, Function.update_of_ne (Ne.symm hij)]
    | crash j =>
      have hp : p = { m with procs := Function.update m.procs j none } := hevent
      by_cases hij : j = i
      · subst hij
        simp only [hp, Function.update_self] at hi
        cases hi
      · refine hsame ?_ (fun _ h => nomatch h)
        simp only [hp, Function.update_of_ne (Ne.symm hij)]
    | env o =>
      have hp : p = { m with shared := env m.shared o } := hevent
      exact hsame (by rw [hp]) (fun _ h => nomatch h)

variable {P : Nat → κ → List σ → σ → σ → Prop} {Q : Nat → κ → List σ → α → Prop}

theorem Pool.tells_step (hstep : ∀ p e p', step p e p' → Pool.Step prog env p e p') (hidle : ∀ i, start.procs i = none)
    (htells : ∀ i c, (prog i c).Tells (P i c) (Q i c) []) (hrun : Run step start es p)
    (h : Pool.Step prog env p (.step i) p') :
    ∃ c q begun since met, p.procs i = some (c, q) ∧ Pool.Since step start es p i c begun since ∧
      (∀ s ∈ met, Pool.Met step begun since p s) ∧ P i c met p.shared p'.shared := by
  obtain ⟨c, next, cont, hi, rfl⟩ := h
  obtain ⟨begun, since, met, hsince, hleft, hmet⟩ := Pool.since_run hstep hidle hrun hi
  have htold := (htells i c).left hleft
  exact ⟨c, _, begun, since, met, hi, hsince, hmet, (htold p.shared).1⟩

end Since

-- a program is told apart by the rules, never by computing it
attribute [irreducible] Prog.Tells

end Interleave
