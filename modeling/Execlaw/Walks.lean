import Execlaw.Steps
/-!
# Walks — deterministic hops with a journal and a hop limit

A `Hop` goes on with an entry of the journal, stops with an outcome and its last entries, or is stuck.  `walk n p`
takes at most `n` hops from `p` and gives the outcome `cutoff` when they are used up.  A walk that was journalled up to a
position goes on from there (`walk_of_goes`), and the journal of a whole walk is a run of hops and its last entries
(`walk_cases`).
-/
namespace Walks

variable {π τ ο : Type}

inductive Hop (π τ ο : Type)
  | on (entry : τ) (next : π)
  | stop (outcome : ο) (entries : List τ)
  | stuck

section Walk

variable (hop : π → Hop π τ ο) (cutoff : List τ × ο)

def walk : Nat → π → Option (List τ × ο)
  | 0, _ => some cutoff
  | n + 1, p =>
    match hop p with
    | .on entry next => (walk n next).map (fun r => (entry :: r.1, r.2))
    | .stop outcome entries => some (entries, outcome)
    | .stuck => none

def Ends : Nat → π → Prop
  | 0, _ => False
  | n + 1, p =>
    match hop p with
    | .on _ next => Ends n next
    | .stop _ _ => True
    | .stuck => False

abbrev Goes : π → List τ → π → Prop := Steps.Run (fun p entry next => hop p = .on entry next)

variable {hop cutoff} {p q : π} {entries : List τ} {n : Nat}

theorem walk_of_goes (h : Goes hop p entries q) :
    walk hop cutoff (entries.length + n) p = (walk hop cutoff n q).map (fun r => (entries ++ r.1, r.2)) := by
  induction entries generalizing p with
  | nil =>
    obtain rfl : p = q := h
    simp
  | cons entry rest ih =>
    obtain ⟨m, hm, hrest⟩ := h
    rw [List.length_cons, Nat.add_right_comm, walk, hm]
    simp [ih hrest, Function.comp_def]

theorem ends_of_goes (h : Goes hop p entries q) : Ends hop (entries.length + n) p ↔ Ends hop n q := by
  induction entries generalizing p with
  | nil =>
    obtain rfl : p = q := h
    simp
  | cons entry rest ih =>
    obtain ⟨m, hm, hrest⟩ := h
    rw [List.length_cons, Nat.add_right_comm, Ends, hm]
    exact ih hrest

variable {outcome : ο}

theorem walk_cases {T : List τ} (h : walk hop cutoff n p = some (T, outcome)) :
    ∃ entries q last, T = entries ++ last ∧ Goes hop p entries q ∧
      (entries.length < n ∧ hop q = .stop outcome last ∨ entries.length = n ∧ (last, outcome) = cutoff) := by
  induction n generalizing p T with
  | zero => exact ⟨[], p, T, rfl, rfl, .inr ⟨rfl, (Option.some.inj h).symm⟩⟩
  | succ n ih =>
    rw [walk] at h
    cases hp : hop p with
    | on entry next =>
      rw [hp] at h
      obtain ⟨⟨T', outcome'⟩, hwalk, heq⟩ := Option.map_eq_some_iff.1 h
      cases heq
      obtain ⟨entries, q, last, rfl, hgoes, hend⟩ := ih hwalk
      refine ⟨entry :: entries, q, last, rfl, ⟨next, hp, hgoes⟩, ?_⟩
      simpa using hend
    | stop outcome' entries =>
      rw [hp] at h
      obtain ⟨rfl, rfl⟩ := Prod.mk.inj (Option.some.inj h)
      exact ⟨[], p, entries, rfl, rfl, .inl ⟨Nat.succ_pos n, hp⟩⟩
    | stuck =>
      rw [hp] at h
      cases h

theorem ends_of_stop {last : List τ} (h : Goes hop p entries q) (hlt : entries.length < n)
    (hstop : hop q = .stop outcome last) : Ends hop n p := by
  obtain ⟨k, rfl⟩ := Nat.exists_eq_add_of_lt hlt
  rw [Nat.add_assoc, ends_of_goes h, Ends, hstop]
  trivial

theorem not_ends_of_goes (h : Goes hop p entries q) : ¬ Ends hop entries.length p := by
  rw [← Nat.add_zero entries.length, ends_of_goes h]
  exact id

theorem walk_of_stop {last : List τ} (h : Goes hop p entries q) (hlt : entries.length < n)
    (hstop : hop q = .stop outcome last) : walk hop cutoff n p = some (entries ++ last, outcome) := by
  obtain ⟨k, rfl⟩ := Nat.exists_eq_add_of_lt hlt
  rw [Nat.add_assoc, walk_of_goes h, walk, hstop]
  rfl

theorem goes_take (h : Goes hop p entries q) (k : Nat) :
    ∃ m, Goes hop p (entries.take k) m ∧ Goes hop m (entries.drop k) q := by
  rw [← List.take_append_drop k entries] at h
  exact Steps.run_append.1 h

theorem walk_isSome (hmoves : ∀ p, hop p ≠ .stuck) : ∀ n p, (walk hop cutoff n p).isSome = true := by
  intro n
  induction n with
  | zero => exact fun _ => rfl
  | succ n ih =>
    intro p
    rw [walk]
    cases hp : hop p with
    | on entry next => simpa using ih next
    | stop outcome entries => rfl
    | stuck => exact absurd hp (hmoves p)

end Walk

end Walks
