import Mathlib.Data.List.Infix
/-!
# Cuts — a list cut behind elements that end a piece

Whether an element ends a piece is told by itself and its two neighbours.  The pieces of a list put together are the
list (`flatten_cut`).  Where one rule ends a piece wherever another does, its pieces are finer: each piece of the other
is a group of its pieces, and a group of more than one has an inner end that the other rule passes over
(`cut_groups`).
-/
namespace Cuts

variable {α : Type}

abbrev Ends (α : Type) := Option α → α → Option α → Bool

def glue (a : α) : List (List α) → List (List α)
  | [] => [[a]]
  | s :: ss => (a :: s) :: ss

/-- The pieces of a list behind `prev`. -/
def cut (ends : Ends α) : Option α → List α → List (List α)
  | _, [] => []
  | prev, a :: l => if ends prev a l.head? then [a] :: cut ends (some a) l else glue a (cut ends (some a) l)

variable {ends ends' : Ends α} {prev : Option α} {l s p : List α} {ss : List (List α)}

theorem flatten_glue (a : α) (ss : List (List α)) : (glue a ss).flatten = a :: ss.flatten := by cases ss <;> rfl

theorem foldr_glue_cons : ∀ cur : List α, cur.foldr glue (s :: ss) = (cur ++ s) :: ss
  | [] => rfl
  | a :: cur => by rw [List.foldr_cons, foldr_glue_cons cur]; rfl

theorem foldr_glue_nil : ∀ {cur : List α}, cur ≠ [] → cur.foldr glue [] = [cur]
  | [], h => absurd rfl h
  | [_], _ => rfl
  | a :: b :: cur, _ => by
    rw [List.foldr_cons, foldr_glue_nil (List.cons_ne_nil b cur)]
    rfl

theorem flatten_cut (ends : Ends α) : ∀ (prev : Option α) (l : List α), (cut ends prev l).flatten = l
  | _, [] => rfl
  | prev, a :: l => by
    have ih := flatten_cut ends (some a) l
    rw [cut]
    split
    · rw [List.flatten_cons, ih, List.singleton_append]
    · rw [flatten_glue, ih]

theorem ne_nil_of_mem_cut : ∀ {prev : Option α} {l p : List α}, p ∈ cut ends prev l → p ≠ []
  | prev, a :: l, p, h => by
    have ih : ∀ p ∈ cut ends (some a) l, p ≠ [] := fun p hp => ne_nil_of_mem_cut hp
    rw [cut] at h
    split at h
    · rcases List.mem_cons.1 h with rfl | h
      · exact List.cons_ne_nil a []
      · exact ih p h
    · cases hcut : cut ends (some a) l with
      | nil =>
        rw [hcut] at h
        rw [List.mem_singleton.1 h]
        exact List.cons_ne_nil a []
      | cons s ss =>
        rw [hcut] at h ih
        rcases List.mem_cons.1 h with rfl | h
        · exact List.cons_ne_nil a s
        · exact ih p (List.mem_cons_of_mem s h)

/-- **An end inside**: behind an element of the text that is not its last, one rule ends a piece and the other does
not. -/
def Inner (ends ends' : Ends α) (prev : Option α) (p : List α) : Prop :=
  ∃ q a b r, p = q ++ a :: b :: r ∧ ends (q.getLast?.or prev) a (some b) = false ∧
    ends' (q.getLast?.or prev) a (some b) = true

/-- A group that makes up the piece behind `prev`: the piece alone, or pieces of a text with an end inside. -/
def Groups (ends ends' : Ends α) (prev : Option α) (g : List (List α)) : Prop :=
  (∃ s, g = [s]) ∨ g ≠ [] ∧ Inner ends ends' prev g.flatten

theorem Groups.ne_nil {g : List (List α)} (h : Groups ends ends' prev g) : g ≠ [] := by
  rcases h with ⟨s, rfl⟩ | ⟨h, -⟩
  · exact List.cons_ne_nil s []
  · exact h

theorem Inner.cons {a : α} (h : Inner ends ends' (some a) p) : Inner ends ends' prev (a :: p) := by
  obtain ⟨q, b, c, r, rfl, hends, hends'⟩ := h
  have hlast : (a :: q).getLast?.or prev = q.getLast?.or (some a) := by
    rw [List.getLast?_cons]
    cases q.getLast? <;> rfl
  exact ⟨a :: q, b, c, r, rfl, by rw [hlast]; exact hends, by rw [hlast]; exact hends'⟩

/-- **The finer pieces in groups**: each group makes up a piece of the coarser rule.  Behind the first, a group stands
behind an element that ends a piece. -/
theorem cut_groups (h : ∀ x a y, ends x a y = true → ends' x a y = true) : ∀ (l : List α) (prev : Option α),
    ∃ gs : List (List (List α)), cut ends prev l = gs.map List.flatten ∧ cut ends' prev l = gs.flatten ∧
      (∀ g ∈ gs.head?, Groups ends ends' prev g) ∧
      ∀ g ∈ gs.tail, ∃ x a y, ends x a y = true ∧ Groups ends ends' (some a) g
  | [], _ => ⟨[], rfl, rfl, nofun, nofun⟩
  | a :: l, prev => by
    obtain ⟨gs, hcut, hcut', hfirst, hlater⟩ := cut_groups h l (some a)
    by_cases hends : ends prev a l.head? = true
    · refine ⟨[[a]] :: gs, ?_, ?_, ?_, ?_⟩
      · rw [cut, if_pos hends, hcut]
        rfl
      · rw [cut, if_pos (h _ _ _ hends), hcut']
        rfl
      · rintro g ⟨⟩
        exact .inl ⟨[a], rfl⟩
      · intro g hg
        cases gs with
        | nil => cases hg
        | cons g' gs =>
          rcases List.mem_cons.1 hg with rfl | hg
          · exact ⟨_, a, _, hends, hfirst g rfl⟩
          · exact hlater g hg
    · cases gs with
      | nil =>
        have hl : l = [] := by
          rw [← flatten_cut ends (some a) l, hcut]
          rfl
        subst hl
        refine ⟨[[[a]]], by rw [cut, if_neg hends]; rfl, ?_, ?_, nofun⟩
        · rw [cut]
          split <;> rfl
        · rintro g ⟨⟩
          exact .inl ⟨[a], rfl⟩
      | cons g gs =>
        obtain ⟨s, ss, rfl⟩ := List.exists_cons_of_ne_nil (hfirst g rfl).ne_nil
        have hleft : cut ends prev (a :: l) = (a :: (s :: ss).flatten) :: gs.map List.flatten := by
          rw [cut, if_neg hends, hcut]
          rfl
        by_cases hends' : ends' prev a l.head? = true
        · refine ⟨([a] :: s :: ss) :: gs, hleft, by rw [cut, if_pos hends', hcut']; rfl, ?_, hlater⟩
          rintro g ⟨⟩
          refine .inr ⟨List.cons_ne_nil _ _, ?_⟩
          -- the group goes on with the next element of the text
          have hl : l = (s :: ss).flatten ++ (gs.map List.flatten).flatten := by
            conv_lhs => rw [← flatten_cut ends (some a) l, hcut]
            rfl
          have hne : (s :: ss).flatten ≠ [] := ne_nil_of_mem_cut (hcut ▸ .head _ : _ ∈ cut ends (some a) l)
          obtain ⟨b, r, hp⟩ := List.exists_cons_of_ne_nil hne
          rw [hl, hp] at hends hends'
          exact ⟨[], a, b, r, by rw [List.flatten_cons, hp]; rfl, by simpa using hends, hends'⟩
        · refine ⟨((a :: s) :: ss) :: gs, hleft, by rw [cut, if_neg hends', hcut']; rfl, ?_, hlater⟩
          rintro g ⟨⟩
          rcases hfirst _ rfl with ⟨s', hs'⟩ | ⟨-, hinner⟩
          · obtain ⟨rfl, rfl⟩ := List.cons.inj hs'
            exact .inl ⟨a :: s, rfl⟩
          · exact .inr ⟨List.cons_ne_nil _ _, hinner.cons⟩

end Cuts
