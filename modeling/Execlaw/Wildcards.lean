import Mathlib.Data.List.Infix
/-!
# Wildcards — sets of prefix patterns

A pattern is a word; one that ends with the wildcard matches what continues the letters before it.  `meet` intersects two
patterns by looking at their words only.  It loses nothing (`meet_of_matches`); it widens exactly where the first is the
second with another wildcard behind it (`meet_sound`).
-/
namespace Wildcards

variable {α : Type} [DecidableEq α]

/-! ## Patterns -/

def stripSuffix (z : α) (p : List α) : Option (List α) :=
  if p.getLast? = some z then some p.dropLast else none

def Matches (z : α) (p d : List α) : Prop := p = d ∨ ∃ q, stripSuffix z p = some q ∧ q <+: d

instance (z : α) (p d : List α) : Decidable (Matches z p d) :=
  inferInstanceAs (Decidable (p = d ∨ ∃ q, stripSuffix z p = some q ∧ q <+: d))

def meet (z : α) (f s : List α) : Option (List α) :=
  if f = s then some f
  else if (stripSuffix z f).any (· <+: s) then some s
  else if (stripSuffix z s).any (· <+: f) then some f
  else none

variable {z : α} {p q d f s g : List α}

theorem stripSuffix_eq_some : stripSuffix z p = some q ↔ p = q ++ [z] := by
  unfold stripSuffix
  constructor
  · intro h
    split at h
    · rename_i hlast
      cases h
      exact (List.dropLast_append_getLast? z hlast).symm
    · cases h
  · rintro rfl
    simp

theorem matches_star : Matches z (q ++ [z]) d ↔ q <+: d := by
  simp only [Matches, stripSuffix_eq_some]
  constructor
  · rintro (rfl | ⟨r, hr, hpre⟩)
    · exact List.prefix_append q [z]
    · rwa [List.append_cancel_right hr]
  · exact fun h => .inr ⟨q, rfl, h⟩

theorem Matches.cases (h : Matches z p d) : p = d ∨ ∃ q, p = q ++ [z] ∧ q <+: d := by
  simpa only [Matches, stripSuffix_eq_some] using h

theorem Matches.self (z : α) (p : List α) : Matches z p p := .inl rfl

theorem meet_eq_some : meet z f s = some g ↔
    (f = s ∧ g = f) ∨ (f ≠ s ∧ (∃ q, f = q ++ [z] ∧ q <+: s) ∧ g = s) ∨
      (f ≠ s ∧ (¬ ∃ q, f = q ++ [z] ∧ q <+: s) ∧ (∃ q, s = q ++ [z] ∧ q <+: f) ∧ g = f) := by
  have hany : ∀ {p t : List α}, (stripSuffix z p).any (· <+: t) = true ↔ ∃ q, p = q ++ [z] ∧ q <+: t := by
    intro p t
    simp [Option.any_eq_true, stripSuffix_eq_some]
  unfold meet
  by_cases hfs : f = s
  · simp [hfs, eq_comm]
  · by_cases h1 : ∃ q, f = q ++ [z] ∧ q <+: s
    · rw [if_neg hfs, if_pos (hany.2 h1)]
      simp [hfs, h1, eq_comm]
    · by_cases h2 : ∃ q, s = q ++ [z] ∧ q <+: f
      · rw [if_neg hfs, if_neg (hany.not.2 h1), if_pos (hany.2 h2)]
        simp only [Option.some.injEq]
        exact ⟨fun h => .inr (.inr ⟨hfs, h1, h2, h.symm⟩), by rintro (⟨h, -⟩ | ⟨-, h, -⟩ | ⟨-, -, -, rfl⟩)
          <;> first | rfl | exact absurd h hfs | exact absurd h h1⟩
      · rw [if_neg hfs, if_neg (hany.not.2 h1), if_neg (hany.not.2 h2)]
        simp [hfs, h1, h2]

theorem meet_mem (h : meet z f s = some g) : g = f ∨ g = s := by
  rcases meet_eq_some.1 h with ⟨-, rfl⟩ | ⟨-, -, rfl⟩ | ⟨-, -, -, rfl⟩ <;> simp

theorem meet_of_matches (hf : Matches z f d) (hs : Matches z s d) : ∃ g, meet z f s = some g ∧ Matches z g d := by
  by_cases hfs : f = s
  · exact ⟨f, meet_eq_some.2 (.inl ⟨hfs, rfl⟩), hf⟩
  by_cases h1 : ∃ q, f = q ++ [z] ∧ q <+: s
  · exact ⟨s, meet_eq_some.2 (.inr (.inl ⟨hfs, h1, rfl⟩)), hs⟩
  refine ⟨f, meet_eq_some.2 (.inr (.inr ⟨hfs, h1, ?_, rfl⟩)), hf⟩
  rcases hs.cases with rfl | ⟨r, rfl, hr⟩
  · rcases hf.cases with rfl | ⟨q, rfl, hq⟩
    · exact absurd rfl hfs
    · exact absurd ⟨q, rfl, hq⟩ h1
  · rcases hf.cases with rfl | ⟨q, rfl, hq⟩
    · exact ⟨r, rfl, hr⟩
    · rcases List.prefix_or_prefix_of_prefix hq hr with h | h
      · exact absurd ⟨q, rfl, h.trans (List.prefix_append r [z])⟩ h1
      · exact ⟨r, rfl, h.trans (List.prefix_append q [z])⟩

theorem meet_sound (h : meet z f s = some g) (hg : Matches z g d) :
    Matches z s d ∧ (Matches z f d ∨ ∃ q, f = q ++ [z, z] ∧ s = q ++ [z] ∧ q <+: d) := by
  rcases meet_eq_some.1 h with ⟨rfl, rfl⟩ | ⟨-, ⟨q, rfl, hq⟩, rfl⟩ | ⟨-, h1, ⟨r, rfl, hr⟩, rfl⟩
  · exact ⟨hg, .inl hg⟩
  · refine ⟨hg, ?_⟩
    rcases hg.cases with rfl | ⟨r, rfl, hr⟩
    · exact .inl (matches_star.2 hq)
    · rcases List.prefix_concat_iff.1 hq with rfl | hq
      · exact .inr ⟨r, by simp, rfl, hr⟩
      · exact .inl (matches_star.2 (hq.trans hr))
  · refine ⟨matches_star.2 ?_, .inl hg⟩
    rcases hg.cases with rfl | ⟨q, rfl, hq⟩
    · exact hr
    · rcases List.prefix_concat_iff.1 hr with rfl | hr
      · exact absurd ⟨q, rfl, (List.prefix_append q [z]).trans (List.prefix_append _ _)⟩ h1
      · exact hr.trans hq

/-! ## Sets of patterns -/

def Permits (z : α) (ps : List (List α)) (d : List α) : Prop := ∃ p ∈ ps, Matches z p d

def inter (z : α) (l r : List (List α)) : List (List α) := l.flatMap fun f => r.filterMap (meet z f)

variable {l r : List (List α)}

theorem mem_inter : g ∈ inter z l r ↔ ∃ f ∈ l, ∃ s ∈ r, meet z f s = some g := by simp [inter]

theorem permits_inter (hl : Permits z l d) (hr : Permits z r d) : Permits z (inter z l r) d := by
  obtain ⟨f, hf, hfd⟩ := hl
  obtain ⟨s, hs, hsd⟩ := hr
  obtain ⟨g, hg, hgd⟩ := meet_of_matches hfd hsd
  exact ⟨g, mem_inter.2 ⟨f, hf, s, hs, hg⟩, hgd⟩

def Clash (z : α) (x y : List (List α)) : Prop :=
  ∃ q d, q ++ [z, z] ∈ x ∧ q ++ [z] ∈ y ∧ q <+: d ∧ ¬ Permits z x d

theorem of_permits_inter (hc : ¬ Clash z l r) (h : Permits z (inter z l r) d) : Permits z l d ∧ Permits z r d := by
  obtain ⟨g, hg, hgd⟩ := h
  obtain ⟨f, hf, s, hs, hm⟩ := mem_inter.1 hg
  obtain ⟨hsd, hfd | ⟨q, rfl, rfl, hq⟩⟩ := meet_sound hm hgd
  · exact ⟨⟨f, hf, hfd⟩, s, hs, hsd⟩
  · refine ⟨?_, q ++ [z], hs, hsd⟩
    by_contra hno
    exact hc ⟨q, d, hf, hs, hq, hno⟩

theorem Clash.widens (h : Clash z l r) : ∃ d, Permits z (inter z l r) d ∧ ¬ Permits z l d := by
  obtain ⟨q, d, hl, hr, hq, hno⟩ := h
  refine ⟨d, ⟨q ++ [z], mem_inter.2 ⟨_, hl, _, hr, ?_⟩, matches_star.2 hq⟩, hno⟩
  refine meet_eq_some.2 (.inr (.inl ⟨by simp, ⟨q ++ [z], by simp, List.prefix_rfl⟩, rfl⟩))

theorem not_clash_of_exact {acc y : List (List α)} {used : List (List (List α))}
    (hexact : ∀ d, Permits z acc d ↔ ∀ x ∈ used, Permits z x d) (hused : ∀ x ∈ used, ¬ Clash z x y) :
    ¬ Clash z acc y := by
  rintro ⟨q, d, hacc, hy, hq, hno⟩
  refine hno ((hexact d).2 fun x hx => ?_)
  -- the set permits the pattern of `y` as a word, so `x` does
  have hword : Permits z acc (q ++ [z]) := ⟨_, hacc, by
    rw [show q ++ [z, z] = (q ++ [z]) ++ [z] by simp]
    exact matches_star.2 List.prefix_rfl⟩
  obtain ⟨p, hp, hpd⟩ := (hexact _).1 hword x hx
  rcases hpd.cases with rfl | ⟨r, rfl, hr⟩
  · exact ⟨_, hp, matches_star.2 hq⟩
  · rcases List.prefix_concat_iff.1 hr with rfl | hr
    · by_contra hx'
      exact hused x hx ⟨q, d, by simpa using hp, hy, hq, hx'⟩
    · exact ⟨_, hp, matches_star.2 (hr.trans hq)⟩

def interAll (z : α) (first : List (List α)) (rest : List (List (List α))) : List (List α) := rest.foldl (inter z) first

theorem mem_interAll {rest : List (List (List α))} : ∀ {first : List (List α)}, g ∈ interAll z first rest →
    ∃ x ∈ first :: rest, g ∈ x := by
  induction rest with
  | nil => exact fun h => ⟨_, List.mem_singleton.2 rfl, h⟩
  | cons y rest ih =>
    intro first h
    obtain ⟨x, hx, hg⟩ := ih h
    rcases List.mem_cons.1 hx with rfl | hx
    · obtain ⟨f, hf, s, hs, hm⟩ := mem_inter.1 hg
      rcases meet_mem hm with rfl | rfl
      · exact ⟨first, by simp, hf⟩
      · exact ⟨y, by simp, hs⟩
    · exact ⟨x, by simp [hx], hg⟩

theorem permits_interAll {S : List (List (List α))} (hS : ∀ x ∈ S, ∀ y ∈ S, ¬ Clash z x y) {first : List (List α)}
    (hfirst : first ∈ S) {rest : List (List (List α))} (hrest : ∀ y ∈ rest, y ∈ S) :
    ∀ d, Permits z (interAll z first rest) d ↔ ∀ x ∈ first :: rest, Permits z x d := by
  induction rest using List.reverseRecOn with
  | nil => simp [interAll]
  | append_singleton rest y ih =>
    intro d
    have hex := ih fun y hy => hrest y (by simp [hy])
    have hy : y ∈ S := hrest y (by simp)
    have hc : ¬ Clash z (interAll z first rest) y := not_clash_of_exact hex fun x hx => by
      rcases List.mem_cons.1 hx with rfl | hx
      · exact hS x hfirst y hy
      · exact hS x (hrest x (by simp [hx])) y hy
    have hstep : interAll z first (rest ++ [y]) = inter z (interAll z first rest) y := by simp [interAll]
    rw [hstep]
    constructor
    · intro h x hx
      obtain ⟨hacc, hyd⟩ := of_permits_inter hc h
      rcases List.mem_cons.1 hx with rfl | hx
      · exact (hex d).1 hacc x (by simp)
      · rcases List.mem_append.1 hx with hx | hx
        · exact (hex d).1 hacc x (by simp [hx])
        · rwa [List.mem_singleton.1 hx]
    · intro h
      refine permits_inter ((hex d).2 fun x hx => h x ?_) (h y (by simp))
      rcases List.mem_cons.1 hx with rfl | hx
      · simp
      · simp [hx]

end Wildcards
