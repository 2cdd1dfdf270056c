import Execlaw.Table
import Mathlib.Algebra.GroupWithZero.Nat
import Mathlib.Algebra.Order.BigOperators.Group.List
import Mathlib.Algebra.Order.Group.Nat
/-!
# Keyed — tables that carry their constraints

A `Keyed key ok` is a table whose primary key is `key` and whose rows all pass the check `ok`.  A `Change` is an
`UPDATE … SET … WHERE …` that keeps the key, and the check of every row its `WHERE` takes; so an update cannot leave
the type.  The row lemmas say what an update and an `INSERT OR IGNORE` make of each key.
-/
namespace Table

structure Keyed {ρ κ : Type} (key : ρ → κ) (ok : ρ → Prop) where
  rows : List ρ
  unique : (rows.map key).Nodup
  checked : ∀ r ∈ rows, ok r

/-- The `SET` and the `WHERE` of an update of one key. -/
structure Change {ρ κ : Type} (key : ρ → κ) (ok : ρ → Prop) where
  takes : ρ → Bool
  set : ρ → ρ
  key_set : ∀ r, key (set r) = key r
  keeps_ok : ∀ r, ok r → takes r = true → ok (set r)

namespace Change

variable {ρ κ : Type} {key : ρ → κ} {ok : ρ → Prop}

def apply (c : Change key ok) (r : ρ) : ρ := if c.takes r then c.set r else r

theorem key_apply (c : Change key ok) (r : ρ) : key (c.apply r) = key r := by
  unfold apply
  split
  · exact c.key_set r
  · rfl

theorem ok_apply (c : Change key ok) {r : ρ} (h : ok r) : ok (c.apply r) := by
  unfold apply
  split
  · next htakes => exact c.keeps_ok r h htakes
  · exact h

end Change

namespace Keyed

variable {ρ κ : Type} [DecidableEq κ] {key : ρ → κ} {ok : ρ → Prop}

def empty : Keyed key ok := ⟨[], List.nodup_nil, nofun⟩

def row (t : Keyed key ok) (k : κ) : Option ρ := byKey key k t.rows

def update (t : Keyed key ok) (k : κ) (c : Change key ok) : Keyed key ok where
  rows := updateKey key k c.apply t.rows
  unique := by
    rw [keys_updateKey k _ (c.key_apply)]
    exact t.unique
  checked := by
    intro x hx
    obtain ⟨r, hr, rfl⟩ := mem_updateKey.1 hx
    split
    · exact c.ok_apply (t.checked r hr)
    · exact t.checked r hr

/-- An `UPDATE … WHERE` of every row it takes. -/
def updateAll (t : Keyed key ok) (c : Change key ok) : Keyed key ok where
  rows := t.rows.map c.apply
  unique := by
    have hkeys : (t.rows.map c.apply).map key = t.rows.map key := by
      rw [List.map_map]
      exact List.map_congr_left fun r _ => c.key_apply r
    rw [hkeys]
    exact t.unique
  checked := by
    intro x hx
    obtain ⟨r, hr, rfl⟩ := List.mem_map.1 hx
    exact c.ok_apply (t.checked r hr)

def changed (t : Keyed key ok) (k : κ) (c : Change key ok) : Bool := (t.row k).any c.takes

def insertOrIgnore (t : Keyed key ok) (r : ρ) (hr : ok r) : Keyed key ok :=
  if h : (t.row (key r)).isSome then t
  else
    { rows := t.rows ++ [r]
      unique := by
        have hfresh : key r ∉ t.rows.map key := byKey_eq_none.1 (Option.not_isSome_iff_eq_none.1 h)
        rw [List.map_append, List.map_singleton, List.nodup_append]
        refine ⟨t.unique, List.nodup_singleton _, fun a ha b hb hab => hfresh ?_⟩
        rwa [← List.mem_singleton.1 hb, ← hab]
      checked := by
        intro x hx
        rcases List.mem_append.1 hx with hx | hx
        · exact t.checked x hx
        · rw [List.mem_singleton.1 hx]
          exact hr }

/-- `INSERT`: a taken key fails. -/
def insert? (t : Keyed key ok) (r : ρ) (hr : ok r) : Option (Keyed key ok) :=
  if (t.row (key r)).isSome then none else some (t.insertOrIgnore r hr)

def upsert (t : Keyed key ok) (r : ρ) (hr : ok r) (c : Change key ok) : Keyed key ok :=
  if (t.row (key r)).isSome then t.update (key r) c else t.insertOrIgnore r hr

/-- `DELETE … WHERE` of one key. -/
def remove (t : Keyed key ok) (k : κ) (p : ρ → Bool) : Keyed key ok where
  rows := t.rows.filter (fun r => !(decide (key r = k) && p r))
  unique := t.unique.sublist (List.filter_sublist.map key)
  checked := fun r hr => t.checked r (List.mem_filter.1 hr).1

def removeAll (t : Keyed key ok) (p : ρ → Bool) : Keyed key ok where
  rows := t.rows.filter (fun r => !p r)
  unique := t.unique.sublist (List.filter_sublist.map key)
  checked := fun r hr => t.checked r (List.mem_filter.1 hr).1

@[simp] theorem row_empty (k : κ) : (empty : Keyed key ok).row k = none := rfl

variable {t : Keyed key ok} {r : ρ} {k : κ}

theorem key_of_row (h : t.row k = some r) : key r = k := key_of_byKey h

theorem ok_of_row (h : t.row k = some r) : ok r :=
  t.checked r (mem_of_byKey h)

theorem row_iff : t.row k = some r ↔ r ∈ t.rows ∧ key r = k :=
  byKey_iff t.unique

@[simp] theorem row_update_self (t : Keyed key ok) (k : κ) (c : Change key ok) :
    (t.update k c).row k = (t.row k).map c.apply :=
  byKey_updateKey_self k _ (c.key_apply) t.rows

variable {k j : κ}

theorem row_update_of_ne (t : Keyed key ok) (h : j ≠ k) (c : Change key ok) : (t.update k c).row j = t.row j :=
  byKey_updateKey_of_ne h _ (c.key_apply) t.rows

@[simp] theorem row_updateAll (t : Keyed key ok) (c : Change key ok) (k : κ) :
    (t.updateAll c).row k = (t.row k).map c.apply :=
  byKey_map c.key_apply k t.rows

theorem row_updateAll_cases (t : Keyed key ok) (c : Change key ok) (k : κ) :
    (t.updateAll c).row k = t.row k ∨
      ∃ r, t.row k = some r ∧ c.takes r = true ∧ (t.updateAll c).row k = some (c.set r) := by
  rw [row_updateAll]
  cases h : t.row k with
  | none => exact .inl rfl
  | some r =>
    cases htakes : c.takes r with
    | false => exact .inl (by simp [Change.apply, htakes])
    | true => exact .inr ⟨r, rfl, htakes, by simp [Change.apply, htakes]⟩

variable {c : Change key ok}

theorem mem_update {q : ρ} (h : q ∈ (t.update k c).rows) :
    ∃ r ∈ t.rows, key r = key q ∧ (key q ≠ k ∧ q = r ∨ key q = k ∧ q = c.apply r) := by
  obtain ⟨r, hr, rfl⟩ := mem_updateKey.1 h
  split
  · next hk =>
    rw [c.key_apply]
    exact ⟨r, hr, rfl, .inr ⟨hk, rfl⟩⟩
  · next hk => exact ⟨r, hr, rfl, .inl ⟨hk, rfl⟩⟩

theorem update_eq_self (h : t.changed k c = false) : t.update k c = t := by
  have hrows : updateKey key k c.apply t.rows = t.rows := by
    refine (List.map_congr_left fun r hr => ?_).trans (List.map_id _)
    split
    · next hk =>
      have hrow : t.row k = some r := row_iff.2 ⟨hr, hk⟩
      rw [changed, hrow, Option.any_some] at h
      simp [Change.apply, h]
    · rfl
  cases t
  simpa [update] using hrows

theorem changed_iff : t.changed k c = true ↔ ∃ r, t.row k = some r ∧ c.takes r = true := by
  cases h : t.row k <;> simp [changed, h]

theorem row_update_of_changed (hr : t.row k = some r) (h : c.takes r = true) :
    (t.update k c).row k = some (c.set r) := by
  simp [hr, Change.apply, h]

theorem row_update_cases (hr : t.row j = some r) :
    (t.update k c).row j = some r ∨ j = k ∧ c.takes r = true ∧ (t.update k c).row j = some (c.set r) := by
  by_cases hj : j = k
  · subst hj
    cases htakes : c.takes r with
    | false => exact .inl (by simp [hr, Change.apply, htakes])
    | true => exact .inr ⟨rfl, rfl, row_update_of_changed hr htakes⟩
  · exact .inl ((row_update_of_ne t hj c).trans hr)

theorem update_cases (t : Keyed key ok) (k : κ) (c : Change key ok) :
    (t.changed k c = false ∧ t.update k c = t) ∨
      ∃ r, t.row k = some r ∧ c.takes r = true ∧ t.changed k c = true ∧ (t.update k c).row k = some (c.set r) ∧
        ∀ j, j ≠ k → (t.update k c).row j = t.row j := by
  cases hchanged : t.changed k c with
  | false => exact .inl ⟨rfl, update_eq_self hchanged⟩
  | true =>
    obtain ⟨r, hr, htakes⟩ := changed_iff.1 hchanged
    exact .inr ⟨r, hr, htakes, rfl, row_update_of_changed hr htakes, fun j hj => row_update_of_ne t hj c⟩

theorem row_update_eq_none (hr : t.row j = none) : (t.update k c).row j = none := by
  by_cases hj : j = k
  · subst hj
    simp [hr]
  · exact (row_update_of_ne t hj c).trans hr

theorem map_row_update {σ : Type} (t : Keyed key ok) (k j : κ) (c : Change key ok) {f : ρ → σ}
    (hf : ∀ r, f (c.set r) = f r) : ((t.update k c).row j).map f = (t.row j).map f := by
  cases hr : t.row j with
  | none => rw [row_update_eq_none hr]
  | some r =>
    rcases row_update_cases hr with h | ⟨-, -, h⟩
    · rw [h]
    · rw [h, Option.map_some, Option.map_some, hf]

theorem map_row_updateAll {σ : Type} (t : Keyed key ok) (j : κ) (c : Change key ok) {f : ρ → σ}
    (hf : ∀ r, f (c.set r) = f r) : ((t.updateAll c).row j).map f = (t.row j).map f := by
  rcases t.row_updateAll_cases c j with h | ⟨r, hr, -, h⟩
  · rw [h]
  · rw [h, hr, Option.map_some, Option.map_some, hf]

theorem countP_key_le_one (t : Keyed key ok) (k : κ) : t.rows.countP (fun r => decide (key r = k)) ≤ 1 := by
  have hcount := List.nodup_iff_count_le_one.1 t.unique k
  rw [List.count_eq_countP, List.countP_map] at hcount
  refine le_trans (List.countP_mono_left fun r _ h => ?_) hcount
  simpa using h

variable {p : ρ → Bool}

theorem countP_update_le (t : Keyed key ok) (k : κ) (c : Change key ok)
    (hp : ∀ r, c.takes r = true → p (c.set r) = true → p r = true) :
    (t.update k c).rows.countP p ≤ t.rows.countP p := by
  have hrows : (t.update k c).rows = t.rows.map (fun r => if key r = k then c.apply r else r) := rfl
  rw [hrows, List.countP_map]
  refine List.countP_mono_left fun r _ h => ?_
  simp only [Function.comp_apply] at h
  split at h
  · unfold Change.apply at h
    split at h
    · next htakes => exact hp r htakes h
    · exact h
  · exact h

theorem row_isSome_update (c : Change key ok) (h : (t.row j).isSome = true) : ((t.update k c).row j).isSome = true := by
  obtain ⟨r, hr⟩ := Option.isSome_iff_exists.1 h
  rcases row_update_cases (k := k) (c := c) hr with h | ⟨-, -, h⟩ <;> rw [h] <;> rfl

theorem insertOrIgnore_of_isSome (hr : ok r) (h : (t.row (key r)).isSome = true) : t.insertOrIgnore r hr = t := by
  unfold insertOrIgnore
  rw [dif_pos h]

theorem row_insertOrIgnore (hr : ok r) (k : κ) :
    (t.insertOrIgnore r hr).row k = (t.row k).or (if key r = k then some r else none) := by
  unfold insertOrIgnore
  split
  · next h =>
    by_cases hk : key r = k
    · rw [hk] at h
      obtain ⟨q, hq⟩ := Option.isSome_iff_exists.1 h
      simp [hq]
    · simp [hk]
  · show byKey key k (t.rows ++ [r]) = _
    rw [byKey_append, byKey_cons]
    rfl

theorem mem_insertOrIgnore {r q : ρ} {hr : ok r} (h : q ∈ (t.insertOrIgnore r hr).rows) : q ∈ t.rows ∨ q = r := by
  unfold insertOrIgnore at h
  split at h
  · exact .inl h
  · simpa using h

theorem row_insertOrIgnore_of_row {r q : ρ} (hr : ok r) (h : t.row k = some q) :
    (t.insertOrIgnore r hr).row k = some q := by
  rw [row_insertOrIgnore, h, Option.some_or]

theorem row_isSome_insertOrIgnore (hr : ok r) (h : (t.row k).isSome = true) :
    ((t.insertOrIgnore r hr).row k).isSome = true := by
  obtain ⟨q, hq⟩ := Option.isSome_iff_exists.1 h
  rw [row_insertOrIgnore_of_row hr hq]
  rfl

theorem rows_insertOrIgnore (hr : ok r) (h : (t.row (key r)).isSome = false) :
    (t.insertOrIgnore r hr).rows = t.rows ++ [r] := by
  rw [insertOrIgnore, dif_neg (by simp [h])]

theorem insert?_eq_some {t t' : Keyed key ok} {hr : ok r} (h : t.insert? r hr = some t') :
    t.row (key r) = none ∧ ∀ k, t'.row k = (t.row k).or (if key r = k then some r else none) := by
  unfold insert? at h
  split at h
  · cases h
  · next hfresh =>
    cases h
    exact ⟨Option.not_isSome_iff_eq_none.1 hfresh, row_insertOrIgnore hr⟩

theorem rows_insert? {t t' : Keyed key ok} {hr : ok r} (h : t.insert? r hr = some t') : t'.rows = t.rows ++ [r] := by
  unfold insert? at h
  split at h
  · cases h
  · next hfresh =>
    cases h
    rw [insertOrIgnore, dif_neg hfresh]

theorem insert?_eq_none {hr : ok r} : t.insert? r hr = none ↔ (t.row (key r)).isSome = true := by
  unfold insert?
  split <;> simp_all

theorem row_upsert_self (t : Keyed key ok) (hr : ok r) (c : Change key ok) :
    (t.upsert r hr c).row (key r) = some ((t.row (key r)).elim r c.apply) := by
  unfold upsert
  split
  · next h =>
    obtain ⟨q, hq⟩ := Option.isSome_iff_exists.1 h
    simp [hq]
  · next h =>
    have hnone := Option.not_isSome_iff_eq_none.1 h
    simp [row_insertOrIgnore, hnone]

theorem row_upsert_of_ne (t : Keyed key ok) (hr : ok r) (c : Change key ok) (h : k ≠ key r) :
    (t.upsert r hr c).row k = t.row k := by
  unfold upsert
  split
  · exact row_update_of_ne t h c
  · simp [row_insertOrIgnore, Ne.symm h]

theorem row_isSome_upsert (hr : ok r) (c : Change key ok) (h : (t.row k).isSome = true) :
    ((t.upsert r hr c).row k).isSome = true := by
  by_cases hk : k = key r
  · rw [hk, row_upsert_self]
    rfl
  · rwa [row_upsert_of_ne t hr c hk]

theorem mem_upsert {r q : ρ} {hr : ok r} (h : q ∈ (t.upsert r hr c).rows) :
    q ∈ t.rows ∧ key q ≠ key r ∨ q = r ∨ ∃ p ∈ t.rows, key p = key r ∧ q = c.apply p := by
  have hrow : (t.upsert r hr c).row (key q) = some q := row_iff.2 ⟨h, rfl⟩
  by_cases hk : key q = key r
  · rw [hk, row_upsert_self] at hrow
    cases hold : t.row (key r) with
    | none => simp_all
    | some p =>
      obtain ⟨hp, hpk⟩ := row_iff.1 hold
      rw [hold] at hrow
      exact .inr (.inr ⟨p, hp, hpk, (Option.some.inj hrow).symm⟩)
  · rw [row_upsert_of_ne t hr c hk] at hrow
    exact .inl ⟨(row_iff.1 hrow).1, hk⟩

theorem row_remove : (t.remove k p).row j = if j = k then (t.row j).filter (fun r => !p r) else t.row j := by
  ext r
  by_cases hj : j = k
  · subst hj
    rw [if_pos rfl, Option.filter_eq_some_iff, row_iff, row_iff, remove, List.mem_filter]
    constructor
    · rintro ⟨⟨hr, hp⟩, hk⟩
      exact ⟨⟨hr, hk⟩, by simpa [hk] using hp⟩
    · rintro ⟨⟨hr, hk⟩, hp⟩
      exact ⟨⟨hr, by simpa [hk] using hp⟩, hk⟩
  · rw [if_neg hj, row_iff, row_iff, remove, List.mem_filter]
    constructor
    · rintro ⟨⟨hr, -⟩, hk⟩
      exact ⟨hr, hk⟩
    · rintro ⟨hr, hk⟩
      exact ⟨⟨hr, by simp [show key r ≠ k from fun h => hj (hk.symm.trans h)]⟩, hk⟩

theorem row_removeAll : (t.removeAll p).row k = (t.row k).filter (fun r => !p r) := by
  ext r
  rw [Option.filter_eq_some_iff, row_iff, row_iff, removeAll, List.mem_filter]
  constructor
  · rintro ⟨⟨hr, hp⟩, hk⟩
    exact ⟨⟨hr, hk⟩, hp⟩
  · rintro ⟨⟨hr, hk⟩, hp⟩
    exact ⟨⟨hr, hp⟩, hk⟩

theorem row_remove_of_ne (h : j ≠ k) : (t.remove k p).row j = t.row j := by
  rw [row_remove, if_neg h]

theorem remove_eq_self (h : (t.row k).any p = false) : t.remove k p = t := by
  have hrows : t.rows.filter (fun r => !(decide (key r = k) && p r)) = t.rows := by
    refine List.filter_eq_self.2 fun r hr => ?_
    by_cases hk : key r = k
    · have hrow : t.row k = some r := row_iff.2 ⟨hr, hk⟩
      rw [hrow, Option.any_some] at h
      simp [h]
    · simp [hk]
  cases t
  simpa [remove] using hrows

/-! ## Many updates -/

section Fold

variable {ι : Type} {f : ι → κ} {g : Keyed key ok → ι → Keyed key ok}

theorem row_foldl_of_notMem (hstep : ∀ t i k, k ≠ f i → (g t i).row k = t.row k) {k : κ} : ∀ {l : List ι}
    {t : Keyed key ok}, k ∉ l.map f → (l.foldl g t).row k = t.row k
  | [], _, _ => rfl
  | i :: l, t, h => by
    simp only [List.map_cons, List.mem_cons, not_or] at h
    rw [List.foldl_cons, row_foldl_of_notMem hstep h.2, hstep t i k h.1]

theorem row_isSome_foldl (hstep : ∀ t i k, (t.row k).isSome = true → ((g t i).row k).isSome = true) {k : κ} :
    ∀ {l : List ι} {t : Keyed key ok}, (t.row k).isSome = true → ((l.foldl g t).row k).isSome = true
  | [], _, h => h
  | i :: l, t, h => by
    rw [List.foldl_cons]
    exact row_isSome_foldl hstep (hstep t i k h)

end Fold

/-! ## Totals -/

/-- `SUM(w)` over the table. -/
def total (t : Keyed key ok) (w : ρ → Nat) : Nat := (t.rows.map w).sum

omit [DecidableEq κ] in
@[simp] theorem total_empty (w : ρ → Nat) : (empty : Keyed key ok).total w = 0 := rfl

theorem total_insertOrIgnore (hr : ok r) (hnone : t.row (key r) = none) (w : ρ → Nat) :
    (t.insertOrIgnore r hr).total w = t.total w + w r := by
  have hrows : (t.insertOrIgnore r hr).rows = t.rows ++ [r] := by
    unfold insertOrIgnore
    rw [dif_neg (by simp [hnone])]
  simp [total, hrows]

theorem sum_map_of_notMem (w : ρ → Nat) (k : κ) (f : ρ → ρ) : ∀ {l : List ρ}, k ∉ l.map key →
    ((updateKey key k f l).map w).sum = (l.map w).sum
  | [], _ => rfl
  | a :: l, h => by
    rw [List.map_cons, List.mem_cons, not_or] at h
    have ih := sum_map_of_notMem w k f h.2
    have ha : key a ≠ k := Ne.symm h.1
    simp only [updateKey, List.map_cons, List.sum_cons, if_neg ha] at ih ⊢
    omega

theorem total_update (hr : t.row k = some r) (w : ρ → Nat) :
    (t.update k c).total w + w r = t.total w + w (c.apply r) := by
  suffices h : ∀ l : List ρ, (l.map key).Nodup → byKey key k l = some r →
      ((updateKey key k c.apply l).map w).sum + w r = (l.map w).sum + w (c.apply r) from h t.rows t.unique hr
  intro l hnd hrow
  induction l with
  | nil => cases hrow
  | cons a l ih =>
    rw [List.map_cons, List.nodup_cons] at hnd
    rw [byKey_cons] at hrow
    by_cases ha : key a = k
    · rw [if_pos ha] at hrow
      cases hrow
      have hrest := sum_map_of_notMem w k c.apply (ha ▸ hnd.1)
      simp only [updateKey, List.map_cons, List.sum_cons, if_pos ha] at hrest ⊢
      omega
    · rw [if_neg ha] at hrow
      have hrest := ih hnd.2 hrow
      simp only [updateKey, List.map_cons, List.sum_cons, if_neg ha] at hrest ⊢
      omega

theorem le_total (hr : t.row k = some r) (w : ρ → Nat) : w r ≤ t.total w :=
  List.le_sum_of_mem (List.mem_map_of_mem (mem_of_byKey hr))

end Keyed
end Table
