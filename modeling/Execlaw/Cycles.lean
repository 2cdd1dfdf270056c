import Mathlib.Data.List.Chain
/-!
# Cycles — closed walks, and orders that exclude them

A relation has a cycle where some element leads back to itself.  A list in which an element comes before everything it
leads to, a `Layered` one, meets no cycle; a closed walk shows one.  A search that layers what it has finished and
reports a closed walk otherwise thus decides whether there is a cycle.
-/
namespace Cycles

variable {κ : Type} {R S : κ → κ → Prop}

def Acyclic (R : κ → κ → Prop) : Prop := ∀ a, ¬ Relation.TransGen R a a

structure ClosedWalk (R : κ → κ → Prop) (l : List κ) : Prop where
  chain : l.IsChain R
  closed : l.head? = l.getLast?
  long : 2 ≤ l.length

def Layered (R : κ → κ → Prop) : List κ → Prop
  | [] => True
  | a :: l => (∀ b, R a b → b ∈ l) ∧ a ∉ l ∧ Layered R l

theorem Acyclic.mono (h : Acyclic S) (hsub : ∀ a b, R a b → S a b) : Acyclic R :=
  fun a hcycle => h a (Relation.TransGen.mono hsub a a hcycle)

theorem Acyclic.congr (h : ∀ a b, R a b ↔ S a b) : Acyclic R ↔ Acyclic S :=
  ⟨fun hR => hR.mono fun a b => (h a b).2, fun hS => hS.mono fun a b => (h a b).1⟩

theorem transGen_of_isChain : ∀ {a b c : κ} {l : List κ}, (a :: b :: l).IsChain R → (b :: l).getLast? = some c →
    Relation.TransGen R a c
  | a, b, c, [], hchain, hlast => by
    obtain rfl : b = c := Option.some.inj hlast
    exact .single (List.isChain_pair.1 hchain)
  | a, b, c, d :: l, hchain, hlast => by
    obtain ⟨hab, hchain⟩ := List.isChain_cons_cons.1 hchain
    rw [List.getLast?_cons_cons] at hlast
    exact .head hab (transGen_of_isChain hchain hlast)

theorem ClosedWalk.not_acyclic {l : List κ} (h : ClosedWalk R l) : ¬ Acyclic R := by
  obtain ⟨hchain, hclosed, hlong⟩ := h
  match l, hlong with
  | a :: b :: l, _ =>
    rw [List.head?_cons, List.getLast?_cons_cons] at hclosed
    exact fun hacyclic => hacyclic a (transGen_of_isChain hchain hclosed.symm)

theorem Layered.closed : ∀ {l : List κ}, Layered R l → ∀ {a b}, a ∈ l → R a b → b ∈ l
  | c :: l, ⟨hnext, _, hl⟩, a, b, ha, hab => by
    rcases List.mem_cons.1 ha with rfl | ha
    · exact List.mem_cons_of_mem a (hnext b hab)
    · exact List.mem_cons_of_mem c (hl.closed ha hab)

theorem Layered.reaches {l : List κ} (hl : Layered R l) {a b : κ} (ha : a ∈ l) (h : Relation.TransGen R a b) :
    b ∈ l := by
  induction h with
  | single hab => exact hl.closed ha hab
  | tail _ hbc ih => exact hl.closed ih hbc

theorem Layered.not_transGen : ∀ {l : List κ}, Layered R l → ∀ {a}, a ∈ l → ¬ Relation.TransGen R a a
  | c :: l, ⟨hnext, hfresh, hl⟩, a, ha, hcycle => by
    rcases List.mem_cons.1 ha with rfl | ha
    · -- the first step leaves for the rest of the list, which leads nowhere else
      obtain ⟨b, hab, hback⟩ := Relation.TransGen.head'_iff.1 hcycle
      rcases Relation.reflTransGen_iff_eq_or_transGen.1 hback with rfl | hback
      · exact hfresh (hnext _ hab)
      · exact hfresh (hl.reaches (hnext b hab) hback)
    · exact hl.not_transGen ha hcycle

theorem Layered.acyclic {l : List κ} (hl : Layered R l) (hall : ∀ a b, R a b → a ∈ l) : Acyclic R := by
  intro a hcycle
  obtain ⟨b, hab, -⟩ := Relation.TransGen.head'_iff.1 hcycle
  exact hl.not_transGen (hall a b hab) hcycle

end Cycles
