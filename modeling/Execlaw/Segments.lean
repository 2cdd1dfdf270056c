import Mathlib.Data.List.Basic
import Mathlib.Data.List.TakeWhile
/-!
# Segments — a list cut where segments start

A list is a preamble and segments, each from an element that starts one to the next that does (`segments`).  Keeping all
but the first `k` segments is `keep`; the places of the first two starts (`firstTwo`) are what drops one segment.
-/
namespace Segments

variable {α : Type} (starts : α → Bool)

def preamble (l : List α) : List α := l.takeWhile (!starts ·)

def segments : List α → List (List α)
  | [] => []
  | a :: l => if starts a then (a :: preamble starts l) :: segments l else segments l

def keep (l : List α) (k : Nat) : List α := preamble starts l ++ ((segments starts l).drop k).flatten

def firstTwo (l : List α) : Option (Nat × Nat) :=
  (l.findIdx? starts).bind fun i => ((l.drop (i + 1)).findIdx? starts).map fun j => (i, i + 1 + j)

def IsSegment (s : List α) : Prop := ∃ a r, s = a :: r ∧ starts a = true ∧ ∀ x ∈ r, starts x = false

variable {starts} {l pre : List α} {ss : List (List α)} {k n : Nat}

theorem starts_of_mem_preamble {a : α} (h : a ∈ preamble starts l) : starts a = false := by
  simpa using List.mem_takeWhile_imp h

theorem preamble_append_flatten : ∀ l : List α, preamble starts l ++ (segments starts l).flatten = l
  | [] => rfl
  | a :: l => by
    have ih := preamble_append_flatten l
    by_cases ha : starts a
    · simp only [preamble, segments] at ih ⊢
      simp [ha, ih]
    · simp only [preamble, segments] at ih ⊢
      simp [ha, ih]

theorem isSegment_of_mem : ∀ {l s : List α}, s ∈ segments starts l → IsSegment starts s
  | a :: l, s, h => by
    rw [segments] at h
    split at h
    · next ha =>
      rcases List.mem_cons.1 h with rfl | h
      · exact ⟨a, _, rfl, ha, fun x hx => starts_of_mem_preamble hx⟩
      · exact isSegment_of_mem h
    · exact isSegment_of_mem h

theorem segments_append : ∀ {pre : List α}, (∀ a ∈ pre, starts a = false) →
    preamble starts (pre ++ l) = pre ++ preamble starts l ∧ segments starts (pre ++ l) = segments starts l
  | [], _ => ⟨rfl, rfl⟩
  | a :: pre, h => by
    obtain ⟨hpre, hseg⟩ := segments_append fun b hb => h b (List.mem_cons_of_mem a hb)
    have ha := h a List.mem_cons_self
    constructor
    · rw [List.cons_append, preamble, List.takeWhile_cons_of_pos (by simp [ha])]
      exact congrArg (a :: ·) hpre
    · rw [List.cons_append, segments, if_neg (by simp [ha]), hseg]

theorem segments_flatten : ∀ {ss : List (List α)}, (∀ s ∈ ss, IsSegment starts s) →
    preamble starts ss.flatten = [] ∧ segments starts ss.flatten = ss
  | [], _ => ⟨rfl, rfl⟩
  | s :: ss, h => by
    obtain ⟨hpre, hseg⟩ := segments_flatten fun t ht => h t (List.mem_cons_of_mem s ht)
    obtain ⟨a, r, rfl, ha, hr⟩ := h s List.mem_cons_self
    have happ := @segments_append _ _ ss.flatten r hr
    constructor
    · rw [List.flatten_cons, List.cons_append, preamble, List.takeWhile_cons_of_neg (by simp [ha])]
    · rw [List.flatten_cons, List.cons_append, segments, if_pos ha, happ.1, happ.2, hpre, hseg, List.append_nil]

/-! ## Keeping segments -/

theorem keep_zero (l : List α) : keep starts l 0 = l := by
  rw [keep, List.drop_zero, preamble_append_flatten]

theorem keep_parts (l : List α) (k : Nat) :
    preamble starts (keep starts l k) = preamble starts l ∧
      segments starts (keep starts l k) = (segments starts l).drop k := by
  obtain ⟨hpre, hseg⟩ := @segments_append _ starts ((segments starts l).drop k).flatten (preamble starts l) fun a ha =>
    starts_of_mem_preamble ha
  obtain ⟨hnil, hsame⟩ := @segments_flatten _ starts ((segments starts l).drop k) fun s hs =>
    isSegment_of_mem (List.mem_of_mem_drop hs)
  exact ⟨by rw [keep, hpre, hnil, List.append_nil], by rw [keep, hseg, hsame]⟩

theorem keep_keep (l : List α) (k n : Nat) : keep starts (keep starts l k) n = keep starts l (k + n) := by
  obtain ⟨hpre, hseg⟩ := @keep_parts _ starts l k
  rw [keep, hpre, hseg, List.drop_drop, keep]

theorem keep_inj (hk : k ≤ (segments starts l).length) (hn : n ≤ (segments starts l).length)
    (h : keep starts l k = keep starts l n) : k = n := by
  have hlen := congrArg (fun l => (segments starts l).length) h
  simp only [(keep_parts l _).2, List.length_drop] at hlen
  omega

theorem filter_keep_iff {p : α → Bool} :
    (keep starts l k).filter p = l.filter p ↔ ∀ a ∈ ((segments starts l).take k).flatten, p a = false := by
  have hl : l = preamble starts l ++ (((segments starts l).take k).flatten ++ ((segments starts l).drop k).flatten) := by
    rw [← List.flatten_append, List.take_append_drop, preamble_append_flatten]
  have hsplit := congrArg (List.filter p) hl
  rw [List.filter_append, List.filter_append] at hsplit
  rw [hsplit, keep, List.filter_append]
  constructor
  · intro h a ha
    have hlen := congrArg List.length (List.append_cancel_left h)
    rw [List.length_append] at hlen
    have hnil : (((segments starts l).take k).flatten).filter p = [] := List.length_eq_zero_iff.1 (by omega)
    simpa using List.filter_eq_nil_iff.1 hnil a ha
  · intro h
    have hnil : (((segments starts l).take k).flatten).filter p = [] :=
      List.filter_eq_nil_iff.2 fun a ha => by simp [h a ha]
    rw [hnil, List.nil_append]

theorem starts_at (h : k < (segments starts l).length) : ∃ a, starts a = true ∧
    l[(preamble starts l).length + ((segments starts l).take k).flatten.length]? = some a := by
  have hl : l = (preamble starts l ++ ((segments starts l).take k).flatten) ++ ((segments starts l).drop k).flatten := by
    rw [List.append_assoc, ← List.flatten_append, List.take_append_drop, preamble_append_flatten]
  obtain ⟨a, r, hs, ha, -⟩ := isSegment_of_mem (List.getElem_mem h)
  refine ⟨a, ha, ?_⟩
  rw [List.drop_eq_getElem_cons h, hs] at hl
  rw [← List.length_append]
  generalize preamble starts l ++ ((segments starts l).take k).flatten = p at hl ⊢
  rw [hl]
  simp

/-! ## Dropping one -/

theorem firstTwo_lt {i j : Nat} (h : firstTwo starts l = some (i, j)) : i < j ∧ j < l.length := by
  obtain ⟨i', hi, h⟩ := Option.bind_eq_some_iff.1 h
  obtain ⟨j', hj, heq⟩ := Option.map_eq_some_iff.1 h
  cases heq
  obtain ⟨hj, -⟩ := List.findIdx?_eq_some_iff_getElem.1 hj
  rw [List.length_drop] at hj
  omega

theorem findIdx?_starts : ∀ l : List α, l.findIdx? starts =
    if segments starts l = [] then none else some (preamble starts l).length
  | [] => rfl
  | a :: l => by
    rw [List.findIdx?_cons, findIdx?_starts l, segments]
    by_cases ha : starts a
    · simp [ha, preamble]
    · by_cases hnil : segments starts l = [] <;> simp [ha, hnil, preamble]

theorem drop_succ_preamble {a : α} {r : List α} (h : segments starts l = (a :: r) :: ss) :
    l.drop ((preamble starts l).length + 1) = r ++ ss.flatten := by
  have hl := @preamble_append_flatten _ starts l
  rw [h] at hl
  generalize preamble starts l = p at hl ⊢
  subst hl
  rw [← List.drop_drop, List.drop_left]
  rfl

theorem findIdx?_behind {a : α} {r : List α} (h : segments starts l = (a :: r) :: ss) :
    (l.drop ((preamble starts l).length + 1)).findIdx? starts = if ss = [] then none else some r.length := by
  have hmem : ∀ s ∈ (a :: r) :: ss, IsSegment starts s := fun s hs => isSegment_of_mem (h ▸ hs)
  obtain ⟨hpre, hseg⟩ := segments_flatten fun s hs => hmem s (List.mem_cons_of_mem _ hs)
  obtain ⟨b, q, heq, -, hq⟩ := hmem _ List.mem_cons_self
  obtain ⟨-, rfl⟩ := List.cons.inj heq
  have happ := @segments_append _ _ ss.flatten r hq
  rw [drop_succ_preamble h, findIdx?_starts, happ.1, happ.2, hpre, hseg, List.append_nil]

theorem firstTwo_eq_some {s t : List α} (h : segments starts l = s :: t :: ss) :
    ∃ i j, firstTwo starts l = some (i, j) ∧ l.take i ++ l.drop j = keep starts l 1 := by
  obtain ⟨a, r, rfl, -, -⟩ := isSegment_of_mem (h ▸ List.mem_cons_self : s ∈ segments starts l)
  refine ⟨(preamble starts l).length, (preamble starts l).length + 1 + r.length, ?_, ?_⟩
  · rw [firstTwo, findIdx?_starts, h, if_neg (by simp), Option.bind_some, findIdx?_behind h, if_neg (by simp)]
    rfl
  · rw [← List.drop_drop, drop_succ_preamble h, List.drop_left, keep, h]
    exact congrArg (· ++ _) (List.prefix_iff_eq_take.1 (List.takeWhile_prefix _)).symm

theorem firstTwo_eq_none (h : (segments starts l).length ≤ 1) : firstTwo starts l = none := by
  rw [firstTwo, findIdx?_starts]
  match hseg : segments starts l, h with
  | [], _ => rfl
  | [s], _ =>
    obtain ⟨a, r, rfl, -, -⟩ := isSegment_of_mem (hseg ▸ List.mem_cons_self : s ∈ segments starts l)
    rw [if_neg (by simp), Option.bind_some, findIdx?_behind hseg, if_pos rfl]
    rfl

end Segments
