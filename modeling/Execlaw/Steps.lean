import Mathlib.Data.List.Forall2
/-!
# Steps — labelled runs of a step relation

`Run step s as s'`: the labels `as`, taken one after another, lead from `s` to `s'`.  A property that every step keeps,
every run keeps (`run_invariant`).  A chain whose links name their predecessor is a run too, and it is read backwards:
when the state after a link fixes the state before it and the label, the last state and the length fix the whole run
(`run_back`).
-/
namespace Steps

variable {σ α : Type} {step : σ → α → σ → Prop}

def Run (step : σ → α → σ → Prop) : σ → List α → σ → Prop
  | s, [], s' => s = s'
  | s, a :: as, s' => ∃ m, step s a m ∧ Run step m as s'

variable {s s' : σ}

@[simp] theorem run_nil : Run step s [] s' ↔ s = s' := Iff.rfl

variable {as : List α}

theorem run_cons {a : α} : Run step s (a :: as) s' ↔ ∃ m, step s a m ∧ Run step m as s' :=
  Iff.rfl

theorem run_append : ∀ {as bs : List α} {s s' : σ},
    Run step s (as ++ bs) s' ↔ ∃ m, Run step s as m ∧ Run step m bs s'
  | [], _, s, s' => by simp
  | a :: as, bs, s, s' => by
    rw [List.cons_append, run_cons]
    constructor
    · rintro ⟨m, hm, h⟩
      obtain ⟨m', hm', h'⟩ := run_append.1 h
      exact ⟨m', ⟨m, hm, hm'⟩, h'⟩
    · rintro ⟨m', ⟨m, hm, hm'⟩, h'⟩
      exact ⟨m, hm, run_append.2 ⟨m', hm', h'⟩⟩

theorem run_snoc {a : α} : Run step s (as ++ [a]) s' ↔ ∃ m, Run step s as m ∧ step m a s' := by
  rw [run_append]
  constructor
  · rintro ⟨m, hm, m', hs, rfl⟩
    exact ⟨m, hm, hs⟩
  · rintro ⟨m, hm, hs⟩
    exact ⟨m, hm, s', hs, rfl⟩

theorem run_split {a : α} (h : Run step s as s') (ha : a ∈ as) :
    ∃ pre suf m m', as = pre ++ a :: suf ∧ Run step s pre m ∧ step m a m' ∧ Run step m' suf s' := by
  obtain ⟨pre, suf, rfl⟩ := List.append_of_mem ha
  obtain ⟨m, hpre, m', hm, hsuf⟩ := run_append.1 h
  exact ⟨pre, suf, m, m', rfl, hpre, hm, hsuf⟩

theorem run_invariant {P : σ → Prop} : ∀ {as : List α} {s s' : σ}, Run step s as s' → P s →
    (∀ s a s', P s → step s a s' → P s') → P s'
  | [], _, _, rfl, h, _ => h
  | a :: _, s, _, ⟨m, hm, hrun⟩, h, hstep => run_invariant hrun (hstep s a m h hm) hstep

variable {step' : σ → α → σ → Prop}

theorem run_mono (h : ∀ s a s', step s a s' → step' s a s') :
    ∀ {as : List α} {s s' : σ}, Run step s as s' → Run step' s as s'
  | [], _, _, hrun => hrun
  | a :: _, s, _, ⟨m, hm, hrun⟩ => ⟨m, h s a m hm, run_mono h hrun⟩

theorem run_mem : ∀ {as : List α} {s s' : σ}, Run step s as s' → Run (fun s a s' => step s a s' ∧ a ∈ as) s as s'
  | [], _, _, hrun => hrun
  | a :: _, _, _, ⟨m, hm, hrun⟩ =>
    ⟨m, ⟨hm, List.mem_cons_self⟩, run_mono (fun _ _ _ h => ⟨h.1, List.mem_cons_of_mem a h.2⟩) (run_mem hrun)⟩

variable {R : α → α → Prop}

theorem run_back_le (hback : ∀ s a m s' a', step s a m → step' s' a' m → s = s' ∧ R a a') :
    ∀ {n : Nat} {as as' : List α} {s s' e : σ}, as.length = n → n ≤ as'.length →
      Run step s as e → Run step' s' as' e →
      ∃ pre suf, as' = pre ++ suf ∧ Run step' s' pre s ∧ List.Forall₂ R as suf
  | 0, as, as', s, s', e, hn, _, h, h' => by
    rw [List.length_eq_zero_iff] at hn
    subst hn
    rw [run_nil] at h
    subst h
    exact ⟨as', [], (List.append_nil _).symm, h', .nil⟩
  | n + 1, as, as', s, s', e, hn, hn', h, h' => by
    have hne : as ≠ [] := by rintro rfl; cases hn
    have hne' : as' ≠ [] := by rintro rfl; cases hn'
    obtain ⟨init, a, rfl⟩ : ∃ init a, as = init ++ [a] := ⟨_, _, (List.dropLast_append_getLast hne).symm⟩
    obtain ⟨init', a', rfl⟩ : ∃ init a, as' = init ++ [a] := ⟨_, _, (List.dropLast_append_getLast hne').symm⟩
    rw [List.length_append, List.length_singleton] at hn hn'
    obtain ⟨m, hm, hs⟩ := run_snoc.1 h
    obtain ⟨m', hm', hs'⟩ := run_snoc.1 h'
    obtain ⟨rfl, hR⟩ := hback _ _ _ _ _ hs hs'
    obtain ⟨pre, suf, rfl, hpre, hall⟩ := run_back_le hback (Nat.succ.inj hn) (Nat.le_of_succ_le_succ hn') hm hm'
    exact ⟨pre, suf ++ [a'], List.append_assoc .., hpre, List.rel_append hall (.cons hR .nil)⟩

theorem run_back (hback : ∀ s a m s' a', step s a m → step' s' a' m → s = s' ∧ R a a') {as as' : List α} {s s' e : σ}
    (hlen : as.length = as'.length) (h : Run step s as e) (h' : Run step' s' as' e) :
    s = s' ∧ List.Forall₂ R as as' := by
  obtain ⟨pre, suf, rfl, hpre, hall⟩ := run_back_le hback rfl (Nat.le_of_eq hlen) h h'
  have hnil : pre = [] := by
    have := hall.length_eq
    rw [List.length_append] at hlen
    exact List.length_eq_zero_iff.1 (by omega)
  subst hnil
  exact ⟨(run_nil.1 hpre).symm, hall⟩

theorem run_forward (hstep : ∀ s a m a' m', step s a m → step' s a' m' → R a a' → m = m') {as as' : List α}
    (hall : List.Forall₂ R as as') : ∀ {s e e' : σ}, Run step s as e → Run step' s as' e' → e = e' := by
  induction hall with
  | nil =>
    intro s e e' h h'
    exact (run_nil.1 h).symm.trans (run_nil.1 h')
  | cons hR _ ih =>
    rintro s e e' ⟨m, hm, h⟩ ⟨m', hm', h'⟩
    obtain rfl := hstep _ _ _ _ _ hm hm' hR
    exact ih h h'

end Steps
