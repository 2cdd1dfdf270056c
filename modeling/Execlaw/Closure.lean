import Mathlib.Data.Finset.Card
/-!
# Closure — what a recursive query reaches

`reach edges k` is the working set of `WITH RECURSIVE … UNION …` that starts from the targets of `k` and adds the
targets of what it holds, until nothing is new.  A round that adds nothing is the last one, and each other round adds
a target, so as many rounds as there are edges are enough (`mem_reach`).
-/
namespace Closure

variable {κ : Type} [DecidableEq κ] (edges : List (κ × κ)) (k : κ)

/-- One round: the targets of `k` and of what has been reached. -/
def round (reached : List κ) : List κ :=
  (edges.filter (fun e => decide (e.1 = k) || reached.contains e.1)).map Prod.snd

def rounds : Nat → List κ
  | 0 => []
  | n + 1 => round edges k (rounds n)

def reach : List κ := rounds edges k edges.length

variable {edges k}

theorem mem_round {reached : List κ} {x : κ} :
    x ∈ round edges k reached ↔ ∃ y, (y, x) ∈ edges ∧ (y = k ∨ y ∈ reached) := by
  simp only [round, List.mem_map, List.mem_filter, Bool.or_eq_true, decide_eq_true_eq, List.contains_eq_mem]
  constructor
  · rintro ⟨⟨y, x⟩, ⟨hmem, hy⟩, rfl⟩
    exact ⟨y, hmem, hy⟩
  · rintro ⟨y, hmem, hy⟩
    exact ⟨(y, x), ⟨hmem, hy⟩, rfl⟩

theorem round_mono {l l' : List κ} (h : l ⊆ l') : round edges k l ⊆ round edges k l' := by
  intro x hx
  obtain ⟨y, hmem, hy⟩ := mem_round.1 hx
  exact mem_round.2 ⟨y, hmem, hy.imp_right (h ·)⟩

theorem rounds_subset_succ : ∀ n, rounds edges k n ⊆ rounds edges k (n + 1)
  | 0 => List.nil_subset _
  | n + 1 => round_mono (rounds_subset_succ n)

theorem rounds_stable {n : Nat} (h : rounds edges k (n + 1) ⊆ rounds edges k n) :
    ∀ {m : Nat}, n ≤ m → rounds edges k (m + 1) ⊆ rounds edges k m := by
  intro m hm
  induction m, hm using Nat.le_induction with
  | base => exact h
  | succ m _ ih => exact round_mono ih

theorem card_rounds_le (n : Nat) : (rounds edges k n).toFinset.card ≤ edges.length := by
  cases n with
  | zero => simp [rounds]
  | succ n =>
    refine (List.toFinset_card_le _).trans ?_
    rw [rounds, round, List.length_map]
    exact List.length_filter_le _ _

theorem card_rounds_lt {n : Nat} (h : ¬ rounds edges k (n + 1) ⊆ rounds edges k n) :
    (rounds edges k n).toFinset.card < (rounds edges k (n + 1)).toFinset.card := by
  refine Finset.card_lt_card ⟨fun x hx => ?_, fun hle => h fun x hx => ?_⟩
  · exact List.mem_toFinset.2 (rounds_subset_succ n (List.mem_toFinset.1 hx))
  · exact List.mem_toFinset.1 (hle (List.mem_toFinset.2 hx))

theorem le_card_rounds : ∀ n, rounds edges k (n + 1) ⊆ rounds edges k n ∨ n + 1 ≤ (rounds edges k (n + 1)).toFinset.card
  | 0 => by
    by_cases hsub : rounds edges k 1 ⊆ rounds edges k 0
    · exact .inl hsub
    · have := card_rounds_lt hsub
      exact .inr (by omega)
  | n + 1 => by
    by_cases hsub : rounds edges k (n + 1 + 1) ⊆ rounds edges k (n + 1)
    · exact .inl hsub
    have hlt := card_rounds_lt hsub
    rcases le_card_rounds n with h | h
    · exact .inl (rounds_stable h (Nat.le_succ n))
    · exact .inr (by omega)

theorem round_reach : round edges k (reach edges k) ⊆ reach edges k := by
  have hbound : (rounds edges k (edges.length + 1)).toFinset.card ≤ edges.length := card_rounds_le _
  have hgrows : rounds edges k (edges.length + 1) ⊆ rounds edges k edges.length ∨
      edges.length + 1 ≤ (rounds edges k (edges.length + 1)).toFinset.card := le_card_rounds _
  rcases hgrows with h | h
  · exact h
  · omega

theorem transGen_of_mem_rounds : ∀ {n : Nat} {x : κ}, x ∈ rounds edges k n →
    Relation.TransGen (fun y x => (y, x) ∈ edges) k x
  | n + 1, x, hx => by
    obtain ⟨y, hmem, rfl | hy⟩ := mem_round.1 hx
    · exact .single hmem
    · exact .tail (transGen_of_mem_rounds hy) hmem

theorem mem_reach {x : κ} : x ∈ reach edges k ↔ Relation.TransGen (fun y x => (y, x) ∈ edges) k x := by
  constructor
  · exact transGen_of_mem_rounds
  · intro h
    induction h with
    | single hmem => exact round_reach (mem_round.2 ⟨k, hmem, .inl rfl⟩)
    | tail _ hmem ih => exact round_reach (mem_round.2 ⟨_, hmem, .inr ih⟩)

def closure (edges : List (κ × κ)) (roots : List κ) : List κ := (roots ++ roots.flatMap (reach edges)).dedup

theorem mem_closure {roots : List κ} {x : κ} :
    x ∈ closure edges roots ↔ ∃ r ∈ roots, Relation.ReflTransGen (fun y x => (y, x) ∈ edges) r x := by
  rw [closure, List.mem_dedup, List.mem_append, List.mem_flatMap]
  constructor
  · rintro (h | ⟨r, hr, h⟩)
    · exact ⟨x, h, .refl⟩
    · exact ⟨r, hr, (mem_reach.1 h).to_reflTransGen⟩
  · rintro ⟨r, hr, h⟩
    rcases Relation.reflTransGen_iff_eq_or_transGen.1 h with rfl | h
    · exact .inl hr
    · exact .inr ⟨r, hr, mem_reach.2 h⟩

/-! ## A new leaf -/

omit [DecidableEq κ] in
theorem transGen_leaf {p n x : κ} (hsource : ∀ y, (n, y) ∉ edges) (hne : p ≠ n)
    (h : Relation.TransGen (fun y x => (y, x) ∈ edges ++ [(p, n)]) k x) :
    Relation.TransGen (fun y x => (y, x) ∈ edges) k x ∨
      (x = n ∧ (p = k ∨ Relation.TransGen (fun y x => (y, x) ∈ edges) k p)) := by
  induction h with
  | single hmem =>
    rcases List.mem_append.1 hmem with hold | hnew
    · exact .inl (.single hold)
    · cases List.mem_singleton.1 hnew
      exact .inr ⟨rfl, .inl rfl⟩
  | tail _ hmem ih =>
    rcases List.mem_append.1 hmem with hold | hnew
    · rcases ih with ih | ⟨rfl, -⟩
      · exact .inl (.tail ih hold)
      · exact absurd hold (hsource _)
    · cases List.mem_singleton.1 hnew
      rcases ih with ih | ⟨hn, -⟩
      · exact .inr ⟨rfl, .inr ih⟩
      · exact absurd hn hne

end Closure
