import Mathlib.Data.List.Chain
import Mathlib.Data.List.Infix
/-!
# Phrases — the words of a phrase in a list, in order and near each other

A list carries a phrase when the words stand in it in order, each at most `gap` positions behind the one before
(`Carries`).  Taking the first occurrence of each word, and no more than `skip` words before it, the first word
included, is less than that (`FirstNear`): it finds no phrase that `Carries` does not (`FirstNear.carries`), and the
same ones in a list of at most `skip + 1` words (`firstNear_of_short`).
-/
namespace Phrases

variable {α : Type} {gap skip : Nat} {phrase l : List α} {ps : List Nat}

/-- The words stand at the positions, each at most `gap` behind the one before. -/
def Placed (gap : Nat) (phrase l : List α) (ps : List Nat) : Prop :=
  ps.map (l[·]?) = phrase.map some ∧ ps.IsChain fun p q => p < q ∧ q ≤ p + gap

def Carries (gap : Nat) (phrase l : List α) : Prop := ∃ ps, Placed gap phrase l ps

/-- The first occurrence of each word, behind that of the word before, has at most `skip` words in front of it. -/
def FirstNear (skip : Nat) : List α → List α → Prop
  | [], _ => True
  | w :: phrase, l => ∃ q r, l = q ++ w :: r ∧ w ∉ q ∧ q.length ≤ skip ∧ FirstNear skip phrase r

theorem firstNear_cons [DecidableEq α] {w : α} {q r : List α} (hq : w ∉ q) :
    FirstNear skip (w :: phrase) (q ++ w :: r) ↔ q.length ≤ skip ∧ FirstNear skip phrase r := by
  constructor
  · rintro ⟨q', r', heq, hq', hlen, hrest⟩
    have hindex := congrArg (List.idxOf w) heq
    rw [List.idxOf_append_of_notMem hq, List.idxOf_append_of_notMem hq', List.idxOf_cons_self,
      List.idxOf_cons_self] at hindex
    obtain ⟨rfl, htail⟩ := List.append_inj heq (by omega)
    obtain ⟨-, rfl⟩ := List.cons.inj htail
    exact ⟨hlen, hrest⟩
  · rintro ⟨hlen, hrest⟩
    exact ⟨q, r, rfl, hq, hlen, hrest⟩

theorem Placed.shift {k : Nat} {q r : List α} (hq : q.length = k) (h : Placed gap phrase r ps) :
    Placed gap phrase (q ++ r) (ps.map (k + ·)) := by
  refine ⟨?_, ?_⟩
  · rw [List.map_map, ← h.1]
    refine List.map_congr_left fun p _ => ?_
    rw [Function.comp_apply, List.getElem?_append_right (by omega)]
    congr 1
    omega
  · rw [List.isChain_map]
    exact h.2.imp fun p q hpq => by omega

theorem FirstNear.placed : ∀ {phrase l : List α}, FirstNear skip phrase l →
    ∃ ps, Placed (skip + 1) phrase l ps ∧ ∀ p, ps.head? = some p → p ≤ skip
  | [], _, _ => ⟨[], ⟨rfl, .nil⟩, nofun⟩
  | w :: phrase, _, ⟨q, r, rfl, _, hq, hrest⟩ => by
    obtain ⟨ps, hps, hhead⟩ := FirstNear.placed hrest
    obtain ⟨hmap, hchain⟩ := hps.shift (k := q.length + 1) (q := q ++ [w]) (by simp)
    rw [List.append_assoc, List.singleton_append] at hmap
    refine ⟨q.length :: ps.map (q.length + 1 + ·), ⟨?_, ?_⟩, ?_⟩
    · rw [List.map_cons, hmap]
      simp
    · rw [List.isChain_cons]
      refine ⟨fun p hp => ?_, hchain⟩
      rw [List.head?_map] at hp
      obtain ⟨p', hp', rfl⟩ := Option.map_eq_some_iff.1 hp
      have := hhead p' hp'
      omega
    · rintro p ⟨⟩
      exact hq

theorem FirstNear.carries (h : FirstNear skip phrase l) : Carries (skip + 1) phrase l := by
  obtain ⟨ps, hps, -⟩ := h.placed
  exact ⟨ps, hps⟩

theorem carries_of_infix (hgap : 0 < gap) (h : phrase <:+: l) : Carries gap phrase l := by
  obtain ⟨q, r, rfl⟩ := h
  refine ⟨(List.range phrase.length).map (q.length + ·), ?_, ?_⟩
  · rw [List.map_map]
    refine List.ext_getElem? fun i => ?_
    by_cases hi : i < phrase.length
    · have hget : (q ++ (phrase ++ r))[q.length + i]? = some phrase[i] := by
        rw [List.getElem?_append_right (Nat.le_add_right _ _), Nat.add_sub_cancel_left, List.getElem?_append_left hi,
          List.getElem?_eq_getElem hi]
      simpa [hi] using hget
    · simp [hi]
  · rw [List.isChain_map, List.isChain_iff_getElem]
    intro i hi
    simp
    omega

theorem sublist_of_placed : ∀ {phrase : List α} {ps : List Nat} {k : Nat}, Placed gap phrase l ps →
    (∀ p, ps.head? = some p → k ≤ p) → phrase.Sublist (l.drop k)
  | [], _, _, _, _ => List.nil_sublist _
  | w :: phrase, [], _, h, _ => by simp [Placed] at h
  | w :: phrase, p :: ps, k, ⟨hmap, hchain⟩, hk => by
    rw [List.map_cons, List.map_cons, List.cons.injEq] at hmap
    obtain ⟨hlt, hw⟩ := List.getElem?_eq_some_iff.1 hmap.1
    rw [List.isChain_cons] at hchain
    have hrest : phrase.Sublist (l.drop (p + 1)) :=
      sublist_of_placed ⟨hmap.2, hchain.2⟩ fun q hq => (hchain.1 q hq).1
    have hdrop : l.drop p = w :: l.drop (p + 1) := by rw [List.drop_eq_getElem_cons hlt, hw]
    have hsub : (w :: phrase).Sublist (l.drop p) := by
      rw [hdrop]
      exact hrest.cons_cons w
    have hkp := hk p rfl
    refine hsub.trans ?_
    rw [show p = k + (p - k) by omega, ← List.drop_drop]
    exact List.drop_sublist _ _

theorem Carries.sublist (h : Carries gap phrase l) : phrase.Sublist l := by
  obtain ⟨ps, hps⟩ := h
  have := sublist_of_placed (k := 0) hps fun p _ => Nat.zero_le p
  rwa [List.drop_zero] at this

theorem firstNear_of_short [DecidableEq α] : ∀ {phrase l : List α}, l.length ≤ skip + 1 → phrase.Sublist l →
    FirstNear skip phrase l
  | [], _, _, _ => trivial
  | w :: phrase, l, hlen, h => by
    obtain ⟨q, r, rfl, hq⟩ := List.eq_append_cons_of_mem (h.subset List.mem_cons_self)
    rw [List.length_append, List.length_cons] at hlen
    have hrest : phrase.Sublist r := by
      obtain ⟨u, v, huv, hu, hv⟩ := List.sublist_append_iff.1 h
      cases u with
      | nil =>
        rw [List.nil_append] at huv
        rw [← huv] at hv
        exact List.cons_sublist_cons.1 hv
      | cons w' u =>
        -- the first word does not stand before its first occurrence
        obtain ⟨rfl, -⟩ := List.cons.inj huv
        exact absurd (hu.subset List.mem_cons_self) hq
    exact ⟨q, r, rfl, hq, by omega, firstNear_of_short (by omega) hrest⟩

end Phrases
