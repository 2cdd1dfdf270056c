import Mathlib.Data.Prod.Basic
/-!
# Calls — a store as a function of its calls

`exec s c` is the answer of a call and the state it leaves; `after` is the state after a list of calls.  What every
call keeps holds after any of them (`after_invariant`, and `Guarded.invariant` where the calls meet a condition), and
what can happen only while it has not happened yet happens at most once (`count_le_one`).  `transact` is the shape of
a transaction: commit, or leave everything as it was.
-/
namespace Calls

section Transact

variable {σ ε α : Type}

def transact (f : σ → Except ε (α × σ)) (s : σ) : Except ε α × σ :=
  match f s with
  | .ok (a, s') => (.ok a, s')
  | .error e => (.error e, s)

theorem transact_cases (f : σ → Except ε (α × σ)) (s : σ) :
    (∃ e, f s = .error e ∧ transact f s = (.error e, s)) ∨
      ∃ a s', f s = .ok (a, s') ∧ transact f s = (.ok a, s') := by
  unfold transact
  cases f s with
  | error e => exact .inl ⟨e, rfl, rfl⟩
  | ok p => exact .inr ⟨p.1, p.2, rfl, rfl⟩

variable {f : σ → Except ε (α × σ)}

theorem transact_of_ok {s s' : σ} {a : α} (h : f s = .ok (a, s')) : transact f s = (.ok a, s') := by
  rw [transact, h]

theorem transact_of_error {s : σ} {e : ε} (h : f s = .error e) : transact f s = (.error e, s) := by
  rw [transact, h]

end Transact

section Exec

variable {σ κ α : Type} (exec : σ → κ → α × σ)

def after (s : σ) (calls : List κ) : σ := calls.foldl (fun s c => (exec s c).2) s

@[simp] theorem after_nil (s : σ) : after exec s [] = s := rfl

@[simp] theorem after_cons (s : σ) (c : κ) (calls : List κ) :
    after exec s (c :: calls) = after exec (exec s c).2 calls := rfl

theorem after_append (s : σ) (calls later : List κ) :
    after exec s (calls ++ later) = after exec (after exec s calls) later :=
  List.foldl_append

theorem after_snoc (s : σ) (calls : List κ) (c : κ) : after exec s (calls ++ [c]) = (exec (after exec s calls) c).2 :=
  after_append exec s calls [c]

def count (p : σ → κ → Bool) : σ → List κ → Nat
  | _, [] => 0
  | s, c :: calls => (p s c).toNat + count p (exec s c).2 calls

variable {exec} {I : σ → Prop}

theorem after_invariant (h : ∀ s c, I s → I (exec s c).2) {s : σ} (hs : I s) (calls : List κ) :
    I (after exec s calls) := by
  induction calls generalizing s with
  | nil => exact hs
  | cons c calls ih => exact ih (h s c hs)

def Guarded (exec : σ → κ → α × σ) (G : σ → κ → Prop) (s : σ) (calls : List κ) : Prop :=
  ∀ pre c post, calls = pre ++ c :: post → G (after exec s pre) c

section Guarded

variable {G : σ → κ → Prop}

theorem guarded_nil (s : σ) : Guarded exec G s [] := by
  intro pre c post hcalls
  simp at hcalls

variable {s : σ}

theorem guarded_cons {c : κ} {calls : List κ} :
    Guarded exec G s (c :: calls) ↔ G s c ∧ Guarded exec G (exec s c).2 calls := by
  constructor
  · intro h
    refine ⟨h [] c calls rfl, fun pre d post hcalls => ?_⟩
    exact h (c :: pre) d post (by rw [hcalls]; rfl)
  · rintro ⟨hc, h⟩ pre d post hcalls
    cases pre with
    | nil =>
      obtain ⟨rfl, rfl⟩ := List.cons.inj hcalls
      exact hc
    | cons a pre =>
      obtain ⟨rfl, htail⟩ := List.cons.inj hcalls
      exact h pre d post htail

theorem Guarded.of_append {calls later : List κ} (h : Guarded exec G s (calls ++ later)) : Guarded exec G s calls := by
  intro pre c post hcalls
  exact h pre c (post ++ later) (by rw [hcalls, List.append_assoc, List.cons_append])

theorem Guarded.later {calls later : List κ} (h : Guarded exec G s (calls ++ later)) :
    Guarded exec G (after exec s calls) later := by
  intro pre c post hlater
  rw [← after_append]
  exact h (calls ++ pre) c post (by rw [hlater, List.append_assoc])

theorem Guarded.invariant {I : σ → Prop} (hI : ∀ s c, I s → G s c → I (exec s c).2) (hs : I s) {calls : List κ}
    (h : Guarded exec G s calls) : I (after exec s calls) := by
  induction calls generalizing s with
  | nil => exact hs
  | cons c calls ih =>
    obtain ⟨hc, h⟩ := guarded_cons.1 h
    exact ih (hI s c hs hc) h

end Guarded

section Once

variable {p : σ → κ → Bool} {S : σ → Prop} {C : κ → Prop} (h : ∀ s c, I s → C c → I (exec s c).2)
  (hkeeps : ∀ s c, I s → C c → S s → S (exec s c).2) (hstops : ∀ s c, I s → S s → p s c = false)
include h hkeeps hstops

theorem count_spent {s : σ} (hs : I s) (hspent : S s) (calls : List κ) (hcalls : ∀ c ∈ calls, C c) :
    count exec p s calls = 0 := by
  induction calls generalizing s with
  | nil => rfl
  | cons c calls ih =>
    obtain ⟨hc, hcalls⟩ := List.forall_mem_cons.1 hcalls
    rw [count, hstops s c hs hspent, ih (h s c hs hc) (hkeeps s c hs hc hspent) hcalls]
    rfl

theorem count_le_one_among (hspends : ∀ s c, I s → p s c = true → S (exec s c).2) {s : σ} (hs : I s)
    (calls : List κ) (hcalls : ∀ c ∈ calls, C c) : count exec p s calls ≤ 1 := by
  induction calls generalizing s with
  | nil => exact Nat.zero_le 1
  | cons c calls ih =>
    obtain ⟨hc, hcalls⟩ := List.forall_mem_cons.1 hcalls
    rw [count]
    cases hp : p s c with
    | false => simpa using ih (h s c hs hc) hcalls
    | true =>
      rw [count_spent h hkeeps hstops (h s c hs hc) (hspends s c hs hp) calls hcalls]
      exact Nat.le_refl 1

end Once

theorem count_le_one {p : σ → κ → Bool} {S : σ → Prop} (h : ∀ s c, I s → I (exec s c).2)
    (hkeeps : ∀ s c, I s → S s → S (exec s c).2) (hstops : ∀ s c, I s → S s → p s c = false)
    (hspends : ∀ s c, I s → p s c = true → S (exec s c).2) {s : σ} (hs : I s) (calls : List κ) :
    count exec p s calls ≤ 1 :=
  count_le_one_among (C := fun _ => True) (fun s c hs _ => h s c hs) (fun s c hs _ => hkeeps s c hs) hstops hspends hs
    calls (fun _ _ => trivial)

end Exec

end Calls
