import Execlaw.Table
/-!
# Refcounts — counts kept by triggers

Rows are referred to by their key, and each carries a count that every reference inserted adds to and every reference
deleted takes from.  While a row comes with a count of zero, the counts are the numbers of references (`Counted`), and
deleting the rows at zero deletes no row that is referred to.
-/
namespace Refcounts

open Table

structure Counter (ρ κ : Type) where
  key : ρ → κ
  count : ρ → Int
  add : Int → ρ → ρ
  key_add : ∀ d r, key (add d r) = key r
  count_add : ∀ d r, count (add d r) = count r + d

variable {ρ κ : Type} [DecidableEq κ] (c : Counter ρ κ)

def bump (d : Int) (k : κ) (rows : List ρ) : List ρ := updateKey c.key k (c.add d) rows

structure Counted (rows : List ρ) (refs : List κ) : Prop where
  unique : (rows.map c.key).Nodup
  counts : ∀ r ∈ rows, c.count r = refs.count (c.key r)
  named : ∀ k ∈ refs, k ∈ rows.map c.key

variable {c} {rows : List ρ} {refs : List κ}

theorem counted_nil : Counted c [] [] := ⟨List.nodup_nil, by simp, by simp⟩

theorem keys_bump (d : Int) (k : κ) (rows : List ρ) : (bump c d k rows).map c.key = rows.map c.key :=
  keys_updateKey k _ (c.key_add d) rows

theorem mem_bump {d : Int} {k : κ} {x : ρ} (hx : x ∈ bump c d k rows) :
    ∃ r ∈ rows, c.key x = c.key r ∧ c.count x = c.count r + if c.key r = k then d else 0 := by
  obtain ⟨r, hr, rfl⟩ := mem_updateKey.1 hx
  refine ⟨r, hr, ?_⟩
  by_cases hk : c.key r = k
  · simp [hk, c.key_add, c.count_add]
  · simp [hk]

namespace Counted

theorem perm (h : Counted c rows refs) {refs' : List κ} (hperm : refs.Perm refs') : Counted c rows refs' :=
  ⟨h.unique, fun r hr => by rw [h.counts r hr, hperm.count_eq], fun k hk => h.named k (hperm.mem_iff.2 hk)⟩

theorem insert (h : Counted c rows refs) {r : ρ} (hfresh : c.key r ∉ rows.map c.key) (hzero : c.count r = 0) :
    Counted c (rows ++ [r]) refs := by
  refine ⟨nodup_snoc h.unique hfresh, fun x hx => ?_, fun k hk => ?_⟩
  · rcases List.mem_append.1 hx with hx | hx
    · exact h.counts x hx
    · rw [List.mem_singleton.1 hx, hzero, List.count_eq_zero.2 fun hk => hfresh (h.named _ hk)]
      rfl
  · rw [List.map_append]
    exact List.mem_append_left _ (h.named k hk)

theorem refer (h : Counted c rows refs) {k : κ} (hk : k ∈ rows.map c.key) :
    Counted c (bump c 1 k rows) (refs ++ [k]) := by
  refine ⟨by rw [keys_bump]; exact h.unique, fun x hx => ?_, fun j hj => ?_⟩
  · obtain ⟨r, hr, hkey, hcount⟩ := mem_bump hx
    rw [hcount, hkey, h.counts r hr, List.count_append, List.count_singleton]
    by_cases hrk : c.key r = k
    · simp [hrk]
    · simp [hrk, Ne.symm hrk]
  · rw [keys_bump]
    rcases List.mem_append.1 hj with hj | hj
    · exact h.named j hj
    · rwa [List.mem_singleton.1 hj]

theorem drop {kept dropped : List κ} (h : Counted c rows (dropped ++ kept)) :
    Counted c (dropped.foldl (fun rows k => bump c (-1) k rows) rows) kept := by
  induction dropped generalizing rows with
  | nil => exact h
  | cons k dropped ih =>
    refine ih ⟨by rw [keys_bump]; exact h.unique, fun x hx => ?_, fun j hj => ?_⟩
    · obtain ⟨r, hr, hkey, hcount⟩ := mem_bump hx
      rw [hcount, hkey, h.counts r hr, List.cons_append, List.count_cons]
      by_cases hrk : c.key r = k
      · rw [if_pos hrk, if_pos (beq_iff_eq.2 hrk.symm)]
        omega
      · simp [hrk, Ne.symm hrk]
    · rw [keys_bump]
      exact h.named j (List.mem_cons_of_mem k hj)

theorem sweep (h : Counted c rows refs) (ks : List κ) :
    Counted c (rows.filter fun r => !(decide (c.key r ∈ ks) && decide (c.count r ≤ 0))) refs := by
  refine ⟨h.unique.sublist (List.filter_sublist.map _), fun r hr => h.counts r (List.mem_filter.1 hr).1, fun k hk => ?_⟩
  obtain ⟨r, hr, rfl⟩ := List.mem_map.1 (h.named k hk)
  refine List.mem_map_of_mem (List.mem_filter.2 ⟨hr, ?_⟩)
  have hpos : 0 < refs.count (c.key r) := List.count_pos_iff.2 hk
  have hcount := h.counts r hr
  have hnot : ¬ c.count r ≤ 0 := by omega
  simp [hnot]

theorem held_sweep (h : Counted c rows refs) {ks : List κ} (hheld : ∀ r ∈ rows, c.key r ∈ refs ∨ c.key r ∈ ks) :
    ∀ r ∈ rows.filter (fun r => !(decide (c.key r ∈ ks) && decide (c.count r ≤ 0))), c.key r ∈ refs := by
  intro r hr
  obtain ⟨hr, hkeep⟩ := List.mem_filter.1 hr
  rcases hheld r hr with hmem | hmem
  · exact hmem
  · have hcount := h.counts r hr
    have hpos : ¬ c.count r ≤ 0 := by simpa [hmem] using hkeep
    exact List.count_pos_iff.1 (by omega)

end Counted

end Refcounts
