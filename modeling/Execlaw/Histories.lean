import Mathlib.Data.List.Induction
/-!
# Histories — versions one after another

The versions of one item are a list.  It is `Linear` if they are numbered from 1 without gaps and each names the one
before it as its parent.  A version appended with the next number and the last version as its parent keeps it so.
-/
namespace Histories

variable {ρ ι : Type} (number : ρ → Nat) (id : ρ → ι) (parent : ρ → Option ι)

def Linear (l : List ρ) : Prop :=
  ∀ pre r post, l = pre ++ r :: post → number r = pre.length + 1 ∧ parent r = pre.getLast?.map id

variable {number id parent} {l : List ρ}

theorem linear_nil : Linear number id parent [] := by
  intro pre r post h
  simp at h

theorem Linear.snoc (h : Linear number id parent l) {r : ρ} (hnumber : number r = l.length + 1)
    (hparent : parent r = l.getLast?.map id) : Linear number id parent (l ++ [r]) := by
  intro pre x post heq
  rcases List.eq_nil_or_concat post with rfl | ⟨post, y, rfl⟩
  · obtain ⟨rfl, hx⟩ := List.append_inj' heq rfl
    obtain rfl := List.singleton_inj.1 hx
    exact ⟨hnumber, hparent⟩
  · rw [List.concat_eq_append, ← List.cons_append, ← List.append_assoc] at heq
    exact h pre x post (List.append_inj' heq rfl).1

theorem Linear.map (h : Linear number id parent l) {f : ρ → ρ} (hnumber : ∀ r, number (f r) = number r)
    (hid : ∀ r, id (f r) = id r) (hparent : ∀ r, parent (f r) = parent r) : Linear number id parent (l.map f) := by
  intro pre x post heq
  obtain ⟨pre', post', rfl, rfl, hpost⟩ := List.map_eq_append_iff.1 heq
  obtain ⟨r, post'', rfl, rfl, rfl⟩ := List.map_eq_cons_iff.1 hpost
  obtain ⟨hn, hp⟩ := h pre' r post'' rfl
  rw [hnumber, hparent, hn, hp, List.length_map, List.getLast?_map, Option.map_map]
  exact ⟨rfl, congrArg (fun g => pre'.getLast?.map g) (funext fun r => (hid r).symm)⟩

theorem Linear.max_eq : ∀ {l : List ρ}, Linear number id parent l → (l.map number).foldr max 0 = l.length := by
  intro l
  induction l using List.reverseRecOn with
  | nil => exact fun _ => rfl
  | append_singleton l r ih =>
    intro h
    have hr := (h l r [] rfl).1
    have hl : Linear number id parent l := fun pre x post heq => h pre x (post ++ [r]) (by rw [heq]; simp)
    have hfold : ∀ (ns : List Nat) (n : Nat), (ns ++ [n]).foldr max 0 = max (ns.foldr max 0) n := by
      intro ns n
      induction ns with
      | nil => simp
      | cons m ns ih => rw [List.cons_append, List.foldr_cons, ih, List.foldr_cons, Nat.max_assoc]
    rw [List.map_append, List.map_singleton, hfold, ih hl, hr, List.length_append, List.length_singleton]
    omega

end Histories
