import Mathlib.Data.List.Sort
/-!
# Table — rows, keys and order

A table is a list of rows in no promised order.  `orderBy` is `ORDER BY key ASC`; `byKey` reads the row of a primary
key, `updateKey` is `UPDATE … WHERE key = k`, `upsert` is `INSERT … ON CONFLICT(key) DO UPDATE` on a keyed list.
-/
namespace Table

/-! ## `ORDER BY` -/

section Order

variable {ρ κ : Type} [LinearOrder κ] (key : ρ → κ)

def orderBy (l : List ρ) : List ρ := l.insertionSort (fun a b => key a ≤ key b)

@[simp] theorem orderBy_nil : orderBy key [] = [] := rfl

theorem orderBy_cons (a : ρ) (l : List ρ) :
    orderBy key (a :: l) = (orderBy key l).orderedInsert (fun a b => key a ≤ key b) a := rfl

@[simp] theorem mem_orderBy {l : List ρ} {x : ρ} : x ∈ orderBy key l ↔ x ∈ l := List.mem_insertionSort _

theorem map_orderBy {σ : Type} (f : σ → ρ) (l : List σ) :
    (orderBy (fun a => key (f a)) l).map f = orderBy key (l.map f) :=
  List.map_insertionSort _ _ f l (fun _ _ _ _ => Iff.rfl)

theorem pairwise_orderBy (l : List ρ) : (orderBy key l).Pairwise (fun a b => key a ≤ key b) :=
  have : Std.Total (fun a b : ρ => key a ≤ key b) := ⟨fun a b => le_total (key a) (key b)⟩
  have : IsTrans ρ (fun a b => key a ≤ key b) := ⟨fun _ _ _ h h' => le_trans h h'⟩
  List.pairwise_insertionSort _ l

theorem orderedInsert_last {a : ρ} : ∀ (l : List ρ), (∀ b ∈ l, key b < key a) →
    l.orderedInsert (fun a b => key a ≤ key b) a = l ++ [a]
  | [], _ => rfl
  | b :: l, h => by
    have hb : ¬ key a ≤ key b := not_le.2 (h b (by simp))
    rw [List.orderedInsert_cons, if_neg hb, orderedInsert_last l (fun c hc => h c (by simp [hc]))]
    rfl

theorem orderBy_cons_last {a : ρ} {l : List ρ} (h : ∀ b ∈ l, key b < key a) :
    orderBy key (a :: l) = orderBy key l ++ [a] := by
  rw [orderBy_cons, orderedInsert_last key _ (fun b hb => h b ((mem_orderBy key).1 hb))]

theorem filter_orderedInsert (p : ρ → Bool) (a : ρ) : ∀ (l : List ρ), l.Pairwise (fun a b => key a ≤ key b) →
    (l.orderedInsert (fun a b => key a ≤ key b) a).filter p =
      if p a then (l.filter p).orderedInsert (fun a b => key a ≤ key b) a else l.filter p
  | [], _ => by cases h : p a <;> simp [h]
  | b :: l, hs => by
    have ih := filter_orderedInsert p a l hs.of_cons
    rw [List.orderedInsert_cons]
    by_cases hab : key a ≤ key b
    · rw [if_pos hab]
      cases ha : p a
      · simp [List.filter_cons, ha]
      · rw [if_pos rfl, List.filter_cons_of_pos ha]
        -- everything kept of `b :: l` is at or past `a`
        cases hf : (b :: l).filter p with
        | nil => rfl
        | cons c t =>
          have hc : c ∈ b :: l := (List.mem_filter.1 (hf ▸ List.mem_cons_self : c ∈ (b :: l).filter p)).1
          have hbc : key b ≤ key c := by
            rcases List.mem_cons.1 hc with rfl | hc
            · exact le_refl _
            · exact List.rel_of_pairwise_cons hs hc
          rw [List.orderedInsert_cons, if_pos (le_trans hab hbc)]
    · rw [if_neg hab, List.filter_cons, ih]
      cases hb : p b <;> cases p a <;> simp [hb, hab]

theorem orderBy_filter (p : ρ → Bool) : ∀ (l : List ρ), orderBy key (l.filter p) = (orderBy key l).filter p
  | [] => rfl
  | a :: l => by
    rw [orderBy_cons, filter_orderedInsert key p a _ (pairwise_orderBy key l), ← orderBy_filter p l,
      List.filter_cons]
    cases p a <;> rfl

end Order

/-! ## Rows by primary key -/

section Keyed

variable {ρ κ : Type} [DecidableEq κ] (key : ρ → κ)

def byKey (k : κ) (l : List ρ) : Option ρ := l.find? (fun r => decide (key r = k))

def updateKey (k : κ) (f : ρ → ρ) (l : List ρ) : List ρ := l.map (fun r => if key r = k then f r else r)

variable {key}

theorem byKey_cons (k : κ) (a : ρ) (l : List ρ) :
    byKey key k (a :: l) = if key a = k then some a else byKey key k l := by
  unfold byKey
  rw [List.find?_cons]
  by_cases h : key a = k <;> simp [h]

variable {l : List ρ} {k : κ}

theorem byKey_eq_none : byKey key k l = none ↔ k ∉ l.map key := by
  simp [byKey, List.find?_eq_none]

variable {r : ρ}

theorem key_of_byKey (h : byKey key k l = some r) : key r = k := by
  have := List.find?_some h
  exact of_decide_eq_true this

theorem mem_of_byKey (h : byKey key k l = some r) : r ∈ l :=
  List.mem_of_find?_eq_some h

theorem byKey_eq_of_mem (hnd : (l.map key).Nodup) (hr : r ∈ l) : byKey key (key r) l = some r := by
  induction l with
  | nil => cases hr
  | cons a l ih =>
    rw [List.map_cons, List.nodup_cons] at hnd
    rw [byKey_cons]
    rcases List.mem_cons.1 hr with rfl | hr
    · rw [if_pos rfl]
    · have hne : key a ≠ key r := fun h => hnd.1 (h ▸ List.mem_map_of_mem hr)
      rw [if_neg hne, ih hnd.2 hr]

theorem byKey_iff (hnd : (l.map key).Nodup) : byKey key k l = some r ↔ r ∈ l ∧ key r = k := by
  constructor
  · intro h
    exact ⟨mem_of_byKey h, key_of_byKey h⟩
  · rintro ⟨hr, rfl⟩
    exact byKey_eq_of_mem hnd hr

theorem filter_key_eq (hnd : (l.map key).Nodup) (k : κ) :
    l.filter (fun r => decide (key r = k)) = (byKey key k l).toList := by
  induction l with
  | nil => rfl
  | cons a l ih =>
    rw [List.map_cons, List.nodup_cons] at hnd
    rw [byKey_cons]
    by_cases ha : key a = k
    · have hnone : byKey key k l = none := byKey_eq_none.2 (ha ▸ hnd.1)
      rw [List.filter_cons_of_pos (by simp [ha]), ih hnd.2, hnone, if_pos ha]
      rfl
    · rw [List.filter_cons_of_neg (by simp [ha]), ih hnd.2, if_neg ha]

theorem eq_of_key (hnd : (l.map key).Nodup) {r r' : ρ} (hr : r ∈ l) (hr' : r' ∈ l) (h : key r = key r') : r = r' := by
  have hrow := byKey_eq_of_mem hnd hr
  rw [h, byKey_eq_of_mem hnd hr'] at hrow
  exact (Option.some.inj hrow).symm

omit [DecidableEq κ] in
theorem nodup_snoc (hnd : (l.map key).Nodup) (hr : key r ∉ l.map key) : ((l ++ [r]).map key).Nodup := by
  rw [List.map_append, List.map_singleton, List.nodup_append]
  refine ⟨hnd, List.nodup_singleton _, fun a ha b hb hab => hr ?_⟩
  rwa [← List.mem_singleton.1 hb, ← hab]

theorem byKey_orderedInsert {κ : Type} [LinearOrder κ] {key : ρ → κ} (k : κ) (a : ρ) : ∀ (l : List ρ),
    byKey key k (l.orderedInsert (fun a b => key a ≤ key b) a) = if key a = k then some a else byKey key k l
  | [] => byKey_cons k a []
  | b :: l => by
    rw [List.orderedInsert_cons]
    by_cases hab : key a ≤ key b
    · rw [if_pos hab, byKey_cons]
    · rw [if_neg hab, byKey_cons, byKey_orderedInsert k a l, byKey_cons]
      by_cases hb : key b = k
      · have ha : key a ≠ k := fun ha => hab (le_of_eq (ha.trans hb.symm))
        simp [hb, ha]
      · simp [hb]

theorem byKey_orderBy {κ : Type} [LinearOrder κ] {key : ρ → κ} (k : κ) : ∀ (l : List ρ),
    byKey key k (orderBy key l) = byKey key k l
  | [] => rfl
  | a :: l => by
    rw [orderBy_cons, byKey_orderedInsert, byKey_orderBy k l, byKey_cons]

theorem byKey_map {f : ρ → ρ} (hf : ∀ r, key (f r) = key r) (k : κ) : ∀ (l : List ρ),
    byKey key k (l.map f) = (byKey key k l).map f
  | [] => rfl
  | a :: l => by
    rw [List.map_cons, byKey_cons, byKey_cons, hf, byKey_map hf k l]
    split <;> rfl

theorem byKey_append (k : κ) (l l' : List ρ) : byKey key k (l ++ l') = (byKey key k l).or (byKey key k l') :=
  List.find?_append

theorem byKey_deleteKey (k j : κ) : ∀ (l : List ρ),
    byKey key j (l.filter (fun r => decide (key r ≠ k))) = if j = k then none else byKey key j l
  | [] => by simp [byKey]
  | a :: l => by
    have ih := byKey_deleteKey k j l
    by_cases ha : key a = k
    · rw [List.filter_cons_of_neg (by simp [ha]), ih, byKey_cons, ha]
      by_cases hj : j = k
      · simp [hj]
      · simp [hj, Ne.symm hj]
    · rw [List.filter_cons_of_pos (by simp [ha]), byKey_cons, byKey_cons, ih]
      by_cases hj : key a = j
      · have hjk : j ≠ k := fun h => ha (hj.trans h)
        simp [hj, hjk]
      · simp [hj]

theorem mem_updateKey {f : ρ → ρ} {x : ρ} :
    x ∈ updateKey key k f l ↔ ∃ r ∈ l, (if key r = k then f r else r) = x := List.mem_map

theorem map_updateKey {σ : Type} (g : ρ → σ) (k : κ) (f : ρ → ρ) (hf : ∀ r, g (f r) = g r) (l : List ρ) :
    (updateKey key k f l).map g = l.map g := by
  unfold updateKey
  rw [List.map_map]
  apply List.map_congr_left
  intro r _
  show g (if key r = k then f r else r) = g r
  split <;> simp [hf]

theorem byKey_updateKey (k j : κ) (f : ρ → ρ) (hf : ∀ r, key (f r) = key r) (l : List ρ) :
    byKey key j (updateKey key k f l) = (byKey key j l).map (fun r => if key r = k then f r else r) := by
  apply byKey_map
  intro r
  split <;> simp [hf]

theorem byKey_updateKey_self (k : κ) (f : ρ → ρ) (hf : ∀ r, key (f r) = key r) (l : List ρ) :
    byKey key k (updateKey key k f l) = (byKey key k l).map f := by
  rw [byKey_updateKey k k f hf]
  cases h : byKey key k l with
  | none => rfl
  | some r => simp [key_of_byKey h]

theorem byKey_updateKey_of_ne {k j : κ} (hne : j ≠ k) (f : ρ → ρ) (hf : ∀ r, key (f r) = key r) (l : List ρ) :
    byKey key j (updateKey key k f l) = byKey key j l := by
  rw [byKey_updateKey k j f hf]
  cases h : byKey key j l with
  | none => rfl
  | some r => simp [key_of_byKey h, hne]

theorem keys_updateKey (k : κ) (f : ρ → ρ) (hf : ∀ r, key (f r) = key r) (l : List ρ) :
    (updateKey key k f l).map key = l.map key := map_updateKey key k f hf l

end Keyed

/-! ## Keyed values -/

section Upsert

variable {κ ν : Type} [DecidableEq κ]

def get (k : κ) : List (κ × ν) → Option ν
  | [] => none
  | (j, v) :: t => if j = k then some v else get k t

def upsert (k : κ) (v : ν) : List (κ × ν) → List (κ × ν)
  | [] => [(k, v)]
  | (j, w) :: t => if j = k then (k, v) :: t else (j, w) :: upsert k v t

@[simp] theorem get_upsert_self (k : κ) (v : ν) : ∀ (l : List (κ × ν)), get k (upsert k v l) = some v
  | [] => by simp [upsert, get]
  | (j, w) :: t => by
    unfold upsert
    by_cases h : j = k
    · rw [if_pos h]; simp [get]
    · rw [if_neg h]; simp [get, h, get_upsert_self k v t]

theorem get_upsert_of_ne {k j : κ} (hne : j ≠ k) (v : ν) : ∀ (l : List (κ × ν)), get j (upsert k v l) = get j l
  | [] => by simp [upsert, get, Ne.symm hne]
  | (i, w) :: t => by
    unfold upsert
    by_cases h : i = k
    · rw [if_pos h]
      subst h
      simp [get, Ne.symm hne]
    · rw [if_neg h]
      simp [get, get_upsert_of_ne hne v t]

theorem get_eq_none_iff (k : κ) : ∀ (l : List (κ × ν)), get k l = none ↔ k ∉ l.map Prod.fst
  | [] => by simp [get]
  | (j, v) :: t => by
    unfold get
    by_cases h : j = k
    · simp [h]
    · simp [h, Ne.symm h, get_eq_none_iff k t]

theorem mem_of_get {k : κ} {v : ν} : ∀ {l : List (κ × ν)}, get k l = some v → (k, v) ∈ l
  | (j, w) :: t, h => by
    unfold get at h
    by_cases hj : j = k
    · rw [if_pos hj] at h
      cases h
      subst hj
      exact List.mem_cons_self
    · rw [if_neg hj] at h
      exact List.mem_cons_of_mem _ (mem_of_get h)

end Upsert

end Table
