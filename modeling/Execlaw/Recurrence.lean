import Mathlib.Data.Int.ConditionallyCompleteOrder
import Mathlib.Order.ConditionallyCompleteLattice.Basic
/-!
# Recurrence — the instants of a schedule

`next` is the instant after an instant, if there is one.  `Follows next start ds tip` says that the recurrence goes
through `ds` from `start`, and that `tip` is due then.  Where `next` only goes up, the instants it goes through are
strictly increasing and before the one that is due.
-/
namespace Recurrence

variable {α : Type} {next : α → Option α}

/-- **The recurrence goes through `ds` from `start`**; `tip` is due then. -/
inductive Follows (next : α → Option α) : Option α → List α → Option α → Prop
  | nil (start : Option α) : Follows next start [] start
  | cons {d : α} {ds : List α} {tip : Option α} (h : Follows next (next d) ds tip) : Follows next (some d) (d :: ds) tip

namespace Follows

variable {start mid tip : Option α} {ds es : List α}

theorem of_nil (h : Follows next start [] tip) : tip = start := by
  cases h
  rfl

theorem of_cons {d : α} (h : Follows next start (d :: ds) tip) : start = some d ∧ Follows next (next d) ds tip := by
  cases h with
  | cons h => exact ⟨rfl, h⟩

theorem trans (h : Follows next start ds mid) (h' : Follows next mid es tip) : Follows next start (ds ++ es) tip := by
  induction h with
  | nil => exact h'
  | cons _ ih => exact .cons (ih h')

theorem snoc {d : α} (h : Follows next start ds (some d)) : Follows next start (ds ++ [d]) (next d) :=
  h.trans (.cons (.nil _))

end Follows

def Instant (next : α → Option α) (start : Option α) (d : α) : Prop := ∃ ds, Follows next start ds (some d)

namespace Instant

variable {start tip : Option α} {d e : α} {ds : List α}

theorem self (d : α) : Instant next (some d) d := ⟨[], .nil _⟩

theorem cons (h : Instant next (next d) e) : Instant next (some d) e := by
  obtain ⟨ds, hds⟩ := h
  exact ⟨d :: ds, .cons hds⟩

theorem mem_or (hfollows : Follows next start ds tip) (h : Instant next start d) : d ∈ ds ∨ Instant next tip d := by
  induction hfollows with
  | nil => exact .inr h
  | @cons a ds tip _ ih =>
    obtain ⟨es, hes⟩ := h
    cases hes with
    | nil => exact .inl List.mem_cons_self
    | cons hes =>
      rcases ih ⟨_, hes⟩ with hmem | hlater
      · exact .inl (List.mem_cons_of_mem _ hmem)
      · exact .inr hlater

theorem of_mem (hfollows : Follows next start ds tip) (h : d ∈ ds) : Instant next start d := by
  induction hfollows with
  | nil => cases h
  | @cons a ds tip _ ih =>
    rcases List.mem_cons.1 h with rfl | h
    · exact .self d
    · exact (ih h).cons

theorem of_none (h : Instant next none d) : False := by
  obtain ⟨ds, hds⟩ := h
  cases hds

end Instant

section Increasing

variable [Preorder α]

def Increasing (next : α → Option α) : Prop := ∀ d e, next d = some e → d < e

namespace Follows

variable (hnext : Increasing next) {start tip : Option α} {ds : List α}
include hnext

theorem le_of_mem {d : α} (h : Follows next start ds tip) (hd : d ∈ ds) : ∃ e, start = some e ∧ e ≤ d := by
  induction h with
  | nil => cases hd
  | @cons a ds tip h ih =>
    rcases List.mem_cons.1 hd with rfl | hd
    · exact ⟨d, rfl, le_refl d⟩
    · obtain ⟨e, he, hle⟩ := ih hd
      exact ⟨a, rfl, le_of_lt (lt_of_lt_of_le (hnext a e he) hle)⟩

theorem pairwise (h : Follows next start ds tip) : ds.Pairwise (· < ·) := by
  induction h with
  | nil => exact .nil
  | @cons a ds tip h ih =>
    refine List.pairwise_cons.2 ⟨fun d hd => ?_, ih⟩
    obtain ⟨e, he, hle⟩ := h.le_of_mem hnext hd
    exact lt_of_lt_of_le (hnext a e he) hle

theorem lt_tip {d t : α} (h : Follows next start ds (some t)) (hd : d ∈ ds) : d < t := by
  have hall := (h.trans (.cons (.nil (next t)))).pairwise hnext
  exact (List.pairwise_append.1 hall).2.2 d hd t List.mem_cons_self

end Follows

theorem Instant.le (hnext : Increasing next) {a d : α} (h : Instant next (some a) d) : a ≤ d := by
  obtain ⟨ds, hds⟩ := h
  obtain ⟨e, he, hle⟩ := (hds.trans (.cons (.nil (next d)))).le_of_mem hnext (List.mem_append_right ds List.mem_cons_self)
  exact Option.some.inj he ▸ hle

end Increasing

theorem exists_due_within {next : Int → Option Int} (hnext : Increasing next) (now : Int) : ∀ (n : Nat)
    (start : Option Int), (∀ a, start = some a → now - a < n) → ∃ ds tip, Follows next start ds tip ∧
      (∀ d ∈ ds, d ≤ now) ∧ ∀ t, tip = some t → now < t
  | _, none, _ => ⟨[], none, .nil _, List.forall_mem_nil _, nofun⟩
  | 0, some a, h => by
    have ha := h a rfl
    refine ⟨[], some a, .nil _, List.forall_mem_nil _, fun t ht => ?_⟩
    cases ht
    omega
  | n + 1, some a, h => by
    have ha := h a rfl
    by_cases hdue : a ≤ now
    · obtain ⟨ds, tip, hds, hle, htip⟩ := exists_due_within hnext now n (next a) fun b hb => by
        have hlt := hnext a b hb
        omega
      exact ⟨a :: ds, tip, .cons hds, List.forall_mem_cons.2 ⟨hdue, hle⟩, htip⟩
    · refine ⟨[], some a, .nil _, List.forall_mem_nil _, fun t ht => ?_⟩
      cases ht
      omega

theorem exists_due {next : Int → Option Int} (hnext : Increasing next) (now : Int) (start : Option Int) :
    ∃ ds tip, Follows next start ds tip ∧ (∀ d ∈ ds, d ≤ now) ∧ ∀ t, tip = some t → now < t :=
  exists_due_within hnext now (now - start.getD now + 1).toNat start fun a ha => by
    subst ha
    simp only [Option.getD_some]
    omega

end Recurrence
