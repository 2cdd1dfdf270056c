import Mathlib.Data.List.Infix
/-!
# Needles — cutting a word out of a text

`erase` cuts every occurrence of a word out of a text, from the left, without looking back.  What is left may hold the
word again, read across a cut: a word is left over exactly where the text holds it stuffed with copies of what was cut
(`infix_erase`), as long as occurrences of the two never share a letter (`Apart`).
-/
namespace Needles

variable {α : Type}

/-! ## Cutting -/

section
variable [DecidableEq α]

/-- The text without the occurrences of `d`; the number counts the letters of an occurrence still to be passed over. -/
def eraseFrom (d : List α) : Nat → List α → List α
  | _, [] => []
  | k + 1, _ :: t => eraseFrom d k t
  | 0, a :: t => if d <+: a :: t then eraseFrom d (d.length - 1) t else a :: eraseFrom d 0 t

def erase (d t : List α) : List α := eraseFrom d 0 t

variable {d t : List α}

theorem eraseFrom_eq (d : List α) : ∀ (k : Nat) (t : List α), eraseFrom d k t = erase d (t.drop k)
  | 0, _ => rfl
  | _ + 1, [] => rfl
  | k + 1, _ :: t => by rw [eraseFrom, eraseFrom_eq d k t, List.drop_succ_cons]

@[simp] theorem erase_nil : erase d [] = [] := rfl

theorem erase_hit (hd : d ≠ []) (t : List α) : erase d (d ++ t) = erase d t := by
  obtain ⟨a, d', rfl⟩ := List.exists_cons_of_ne_nil hd
  have hpre : a :: d' <+: a :: (d' ++ t) := ⟨t, rfl⟩
  rw [List.cons_append, erase, eraseFrom, if_pos hpre, eraseFrom_eq]
  simp

theorem erase_miss {a : α} (h : ¬ d <+: a :: t) : erase d (a :: t) = a :: erase d t := by
  rw [erase, eraseFrom, if_neg h]; rfl

theorem erase_copies (hd : d ≠ []) (t : List α) : ∀ n : Nat, erase d ((List.replicate n d).flatten ++ t) = erase d t
  | 0 => rfl
  | n + 1 => by rw [List.replicate_succ, List.flatten_cons, List.append_assoc, erase_hit hd, erase_copies hd t n]

theorem erase_of_not_infix : ∀ {t : List α}, ¬ d <:+: t → erase d t = t
  | [], _ => rfl
  | a :: t, h => by
    have hpre : ¬ d <+: a :: t := fun hp => h hp.isInfix
    rw [erase_miss hpre, erase_of_not_infix fun ht => h (List.infix_cons ht)]

end

/-! ## Occurrences that share no letter -/

variable {d e u w x s : List α}

/-- **No occurrence of `d` shares a letter with an occurrence of `e`**, the same occurrence apart. -/
def Apart (d e : List α) : Prop :=
  ∀ (t : List α) (p q : Nat), d <+: t.drop p → e <+: t.drop q → p < q + e.length → q < p + d.length → p = q ∧ d = e

theorem Apart.no_border (h : Apart d e) (hu : u <:+ d) (hne : u ≠ []) (hud : u ≠ d) : ¬ u <+: e ++ s := by
  rintro ⟨r, hr⟩
  obtain ⟨b, rfl⟩ := hu
  have hb : 0 < b.length := List.length_pos_iff.2 fun hb => hud (by simp [hb])
  have hu : 0 < u.length := List.length_pos_iff.2 hne
  have hpos := (h (b ++ (e ++ s)) 0 b.length (by simp [← hr]) (by simp) (by omega) (by simp; omega)).1
  omega

theorem Apart.inside (h : Apart d x) (hd : d ≠ []) {x' v : List α} (hx : x = x' ++ v) (hv : v ≠ [])
    (hp : d <+: v ++ s) : x' = [] ∧ d = x := by
  subst hx
  have hv : 0 < v.length := List.length_pos_iff.2 hv
  have hd : 0 < d.length := List.length_pos_iff.2 hd
  obtain ⟨hpos, heq⟩ := h (x' ++ v ++ s) x'.length 0 (by simpa using hp) (by simp) (by simp; omega) (by omega)
  exact ⟨List.eq_nil_of_length_eq_zero hpos, heq⟩

theorem apart_self (h : ∀ u ∈ d.tails, u ≠ [] → u ≠ d → ¬ u <+: d) : Apart d d := by
  have hlt : ∀ {t : List α} {p q : Nat}, d <+: t.drop p → d <+: t.drop q → q < p + d.length → q ≤ p := by
    intro t p q hp hq hqp
    by_contra hpq
    have hdrop : d.drop (q - p) <+: d := by
      have hbehind : d.drop (q - p) <+: t.drop q := by
        obtain ⟨r, hr⟩ := hp
        refine ⟨r, ?_⟩
        rw [← List.drop_append_of_le_length (by omega), hr, List.drop_drop]
        congr 1; omega
      exact List.prefix_of_prefix_length_le hbehind hq (by simp)
    refine h _ ((List.mem_tails _ _).2 (List.drop_suffix _ _)) (by simp; omega) (fun heq => ?_) hdrop
    have hlen := congrArg List.length heq
    simp at hlen; omega
  exact fun t p q hp hq hpq hqp => ⟨le_antisymm (hlt hq hp hpq) (hlt hp hq hqp), rfl⟩

theorem Apart.later (h : Apart d d) {p p' s' : List α} (heq : p ++ d ++ s = p' ++ d ++ s')
    (hle : p.length ≤ p'.length) : s = s' ∨ ∃ r, s = r ++ d ++ s' := by
  rcases Nat.lt_or_ge p'.length (p ++ d).length with hlt | hge
  · have hpos := (h (p ++ d ++ s) p.length p'.length (by simp) (by simp [heq]) (by simp at hlt; omega)
      (by simpa using hlt)).1
    rw [List.append_assoc, List.append_assoc] at heq
    exact .inl (List.append_cancel_left (List.append_inj_right heq hpos))
  · rw [List.append_assoc p'] at heq
    rcases List.append_eq_append_iff.1 heq with ⟨r, rfl, hs⟩ | ⟨r, hr, hs⟩
    · exact .inr ⟨r, by simpa using hs⟩
    · have hnil : r = [] := by
        have hlen := congrArg List.length hr
        rw [@List.length_append _ p' r] at hlen
        exact List.eq_nil_of_length_eq_zero (by omega)
      exact .inr ⟨[], by simpa [hnil] using hs.symm⟩

/-! ## Words read across cuts -/

/-- `w` is `v` with copies of `d` between its letters. -/
inductive Stuffed (d : List α) : List α → List α → Prop
  | last (a : α) : Stuffed d [a] [a]
  | next {v w : List α} (a : α) (n : Nat) : Stuffed d v w → Stuffed d (a :: v) (a :: ((List.replicate n d).flatten ++ w))

theorem Stuffed.ne_nil (h : Stuffed d x w) : x ≠ [] := by cases h <;> simp

theorem Stuffed.ne_nil' (h : Stuffed d x w) : w ≠ [] := by cases h <;> simp

/-- **A piece that ends `d` and begins a word stuffed with `e` begins the word itself**, and passes its end only where
nothing is stuffed in. -/
theorem Stuffed.reads (h : Apart d e) (hst : Stuffed e x w) :
    ∀ {u : List α}, u <:+ d → u <+: w ++ s → u <+: x ++ s ∧ (x.length ≤ u.length → w = x) := by
  induction hst with
  | last a => exact fun _ hu => ⟨hu, fun _ => rfl⟩
  | @next v w a n hst ih =>
    intro u hud hu
    cases u with
    | nil => simp
    | cons b u =>
      obtain ⟨rfl, hu⟩ := List.cons_prefix_cons.1 hu
      have hud' : u <:+ d := (List.suffix_cons b u).trans hud
      cases n with
      | zero =>
        obtain ⟨hpre, hlen⟩ := ih hud' (by simpa using hu)
        refine ⟨List.cons_prefix_cons.2 ⟨rfl, hpre⟩, fun hle => ?_⟩
        simp [hlen (by simpa using hle)]
      | succ n =>
        cases u with
        | nil =>
          exact ⟨List.cons_prefix_cons.2 ⟨rfl, List.nil_prefix⟩, fun hle => absurd (by simpa using hle) hst.ne_nil⟩
        | cons c u =>
          have hne : c :: u ≠ d := by
            rintro rfl
            have hle := hud.length_le
            simp only [List.length_cons] at hle
            omega
          refine absurd ?_ (h.no_border hud' (List.cons_ne_nil c u) hne (s := (List.replicate n e).flatten ++ w ++ s))
          simpa [List.replicate_succ] using hu

theorem Stuffed.cut (hst : Stuffed e x w) : ∀ {p r : List α}, w = p ++ r → r ≠ [] →
    (∃ x' v, x = x' ++ v ∧ Stuffed e v r ∧ (x' = [] → p = [])) ∨ (∃ b c z, e = b ++ c ∧ c ≠ [] ∧ r = c ++ z) := by
  induction hst with
  | last a =>
    rintro (_ | ⟨b, p⟩) r hw hr
    · obtain rfl : r = [a] := hw.symm
      exact .inl ⟨[], [a], rfl, .last a, fun _ => rfl⟩
    · simp_all
  | @next v w a n hst ih =>
    rintro (_ | ⟨b, p⟩) r hw hr
    · obtain rfl : r = _ := hw.symm
      exact .inl ⟨[], a :: v, rfl, .next a n hst, fun _ => rfl⟩
    · obtain ⟨rfl, htail⟩ := List.cons.inj hw
      clear hw
      induction n generalizing p with
      | zero =>
        rcases ih (by simpa using htail) hr with ⟨x', v', rfl, hv', -⟩ | hright
        · exact .inl ⟨a :: x', v', rfl, hv', by simp⟩
        · exact .inr hright
      | succ n ihn =>
        rw [List.replicate_succ, List.flatten_cons, List.append_assoc] at htail
        have hbehind : ∀ q, (List.replicate n e).flatten ++ w = q ++ r →
            (∃ x' v', a :: v = x' ++ v' ∧ Stuffed e v' r ∧ (x' = [] → a :: p = [])) ∨
              (∃ b c z, e = b ++ c ∧ c ≠ [] ∧ r = c ++ z) := by
          intro q hq
          rcases ihn q hq with ⟨x', v', hxv, hv', hnil⟩ | hright
          · exact .inl ⟨x', v', hxv, hv', fun hx => absurd (hnil hx) (by simp)⟩
          · exact .inr hright
        rcases List.append_eq_append_iff.1 htail with ⟨p', rfl, hrest⟩ | ⟨c, rfl, hrest⟩
        · exact hbehind p' hrest
        · by_cases hc : c = []
          · subst hc
            exact hbehind [] (by simpa using hrest.symm)
          · exact .inr ⟨p, c, _, rfl, hc, hrest⟩

theorem Apart.stuffed (hx : Apart d x) (he : Apart d e) (hde : d ≠ e) (hd : d ≠ []) (hst : Stuffed e x w) :
    Apart d w := by
  intro t p q hp hq hpq hqp
  rcases Nat.lt_or_ge p q with hlt | hge
  · -- an end of `d` begins `w`, hence begins `x`
    obtain ⟨r, hr⟩ := hp
    obtain ⟨r', hr'⟩ := hq
    have hdrop : d.drop (q - p) <+: w ++ r' := by
      refine ⟨r, ?_⟩
      rw [hr', ← List.drop_append_of_le_length (by omega), hr, List.drop_drop]
      congr 1; omega
    have hne : d.drop (q - p) ≠ [] := by simp; omega
    have hlen : d.drop (q - p) ≠ d := fun h => by
      have := congrArg List.length h
      simp at this; omega
    exact absurd (hst.reads he (List.drop_suffix _ _) hdrop).1 (hx.no_border (List.drop_suffix _ _) hne hlen)
  · -- `d` begins somewhere in `w`
    obtain ⟨r, hr⟩ := hq
    have hdrop : d <+: w.drop (p - q) ++ r := by
      rw [← List.drop_append_of_le_length (by omega), hr, List.drop_drop]
      rwa [show q + (p - q) = p by omega]
    have hne : w.drop (p - q) ≠ [] := by simp; omega
    rcases hst.cut (List.take_append_drop (p - q) w).symm hne with ⟨x', v, hx', hv, htake⟩ | ⟨b, c, z, hbc, hc, hw⟩
    · have hreads := hv.reads he List.suffix_rfl hdrop
      obtain ⟨rfl, rfl⟩ := hx.inside hd hx' hv.ne_nil hreads.1
      obtain rfl : d = v := hx'
      have hpq : p - q = 0 := by
        have hnil := congrArg List.length (htake rfl)
        have hwne := List.length_pos_iff.2 hst.ne_nil'
        simp only [List.length_take, List.length_nil] at hnil; omega
      have hwd := hreads.2 le_rfl
      rw [hpq, List.drop_zero] at hwd
      exact ⟨by omega, hwd.symm⟩
    · rw [hw, List.append_assoc] at hdrop
      exact absurd (he.inside hd hbc hc hdrop).2 hde

/-! ## What a cut leaves -/

section
variable [DecidableEq α] {t r : List α}

theorem erase_append_of_border (hd : d ≠ []) (hb : ∀ u, u <:+ d → u ≠ [] → u ≠ d → ¬ u <+: s) :
    ∀ (n : Nat) (p : List α), p.length ≤ n → erase d (p ++ s) = erase d p ++ erase d s
  | _, [], _ => rfl
  | n + 1, a :: p, hn => by
    have hdpos := List.length_pos_iff.2 hd
    by_cases hhit : d <+: a :: p
    · obtain ⟨p', hp'⟩ := hhit
      have hlen : p'.length ≤ n := by
        have hcount := congrArg List.length hp'
        simp at hcount hn; omega
      rw [← hp', List.append_assoc, erase_hit hd, erase_hit hd, erase_append_of_border hd hb n p' hlen]
    · have hmiss : ¬ d <+: a :: (p ++ s) := by
        intro hpre
        rcases List.prefix_or_prefix_of_prefix hpre (⟨s, rfl⟩ : a :: p <+: a :: (p ++ s)) with hp' | ⟨u, hu⟩
        · exact hhit hp'
        · -- the occurrence would reach over the end of the text before
          subst hu
          have hune : u ≠ [] := fun h => hhit (by simp [h])
          refine hb u (List.suffix_append _ _) hune (fun h => ?_) ?_
          · have hcount := congrArg List.length h
            simp at hcount; omega
          · simpa using hpre
      rw [List.cons_append, erase_miss hmiss, erase_miss hhit, erase_append_of_border hd hb n p (by simpa using hn)]
      rfl

theorem Stuffed.erase (hx : Apart d x) (hd : Apart d d) (hne : d ≠ []) {v w : List α} (hst : Stuffed d v w) :
    ∀ x', x = x' ++ v → (x' = [] → w ≠ d) → Needles.erase d (w ++ s) = v ++ Needles.erase d s := by
  -- no occurrence of `d` starts at a letter of the word
  have hmiss : ∀ {v w : List α}, Stuffed d v w → ∀ x', x = x' ++ v → (x' = [] → w ≠ d) → ¬ d <+: w ++ s := by
    intro v w hst x' hx' hw hpre
    have hreads := hst.reads hd List.suffix_rfl hpre
    obtain ⟨rfl, hdx⟩ := hx.inside hne hx' hst.ne_nil hreads.1
    obtain rfl : d = v := hdx.trans hx'
    exact hw rfl (hreads.2 le_rfl)
  induction hst with
  | last a => exact fun x' hx' hw => erase_miss (hmiss (.last a) x' hx' hw)
  | @next v w a n hst ih =>
    intro x' hx' hw
    have hhere : ¬ d <+: a :: ((List.replicate n d).flatten ++ (w ++ s)) := by
      simpa using hmiss (.next a n hst) x' hx' hw
    rw [List.cons_append, List.append_assoc, erase_miss hhere, erase_copies hne,
      ih (x' ++ [a]) (by simp [hx']) (by simp)]
    rfl

theorem erase_eq_cons {a : α} (hd : d ≠ []) : ∀ (m : Nat) (t : List α), t.length ≤ m → Needles.erase d t = a :: r →
    ∃ n t', t = (List.replicate n d).flatten ++ a :: t' ∧ ¬ d <+: a :: t' ∧ Needles.erase d t' = r
  | _, [], _, h => by simp at h
  | m + 1, b :: t, hm, h => by
    by_cases hhit : d <+: b :: t
    · obtain ⟨t', ht'⟩ := hhit
      have hlen : t'.length ≤ m := by
        have hcount := congrArg List.length ht'
        have hdpos := List.length_pos_iff.2 hd
        simp at hcount hm; omega
      rw [← ht', erase_hit hd] at h
      obtain ⟨n, t'', rfl, hrest⟩ := erase_eq_cons hd m t' hlen h
      exact ⟨n + 1, t'', by simp [← ht', List.replicate_succ], hrest⟩
    · rw [erase_miss hhit] at h
      obtain ⟨rfl, hrest⟩ := List.cons.inj h
      exact ⟨0, t, rfl, hhit, hrest⟩

theorem stuffed_of_erase (hd : d ≠ []) : ∀ {x : List α} {a : α} {t : List α}, Needles.erase d t = x ++ s →
    ∃ w r, a :: t = w ++ r ∧ Stuffed d (a :: x) w
  | [], a, t, _ => ⟨[a], t, rfl, .last a⟩
  | b :: x, a, t, h => by
    obtain ⟨n, t', rfl, -, hrest⟩ := erase_eq_cons hd _ t le_rfl h
    obtain ⟨w, r, hw, hst⟩ := stuffed_of_erase hd (a := b) hrest
    exact ⟨_, r, by rw [hw]; simp, .next a n hst⟩

theorem infix_erase (hd : d ≠ []) (hdd : Apart d d) (hx : Apart d x) (hne : x ≠ []) :
    x <:+: Needles.erase d t ↔ ∃ w, Stuffed d x w ∧ w ≠ d ∧ w <:+: t := by
  constructor
  · rintro ⟨p, s, h⟩
    obtain ⟨b, x, rfl⟩ := List.exists_cons_of_ne_nil hne
    clear hne
    induction p generalizing t with
    | nil =>
      obtain ⟨n, t', rfl, hmiss, hrest⟩ := erase_eq_cons hd _ t le_rfl h.symm
      obtain ⟨w, r, hw, hst⟩ := stuffed_of_erase hd (a := b) hrest
      refine ⟨w, hst, ?_, (List.replicate n d).flatten, r, by rw [hw]; simp⟩
      rintro rfl
      exact hmiss ⟨r, hw.symm⟩
    | cons a p ih =>
      obtain ⟨n, t', rfl, -, hrest⟩ := erase_eq_cons hd _ t le_rfl h.symm
      obtain ⟨w, hst, hwd, hin⟩ := ih hrest.symm
      exact ⟨w, hst, hwd, hin.trans ⟨(List.replicate n d).flatten ++ [a], [], by simp⟩⟩
  · rintro ⟨w, hst, hwd, p, r, rfl⟩
    have hb : ∀ u, u <:+ d → u ≠ [] → u ≠ d → ¬ u <+: w ++ r := fun u hu hune hud hpre =>
      hx.no_border hu hune hud (hst.reads hdd hu hpre).1
    rw [List.append_assoc, erase_append_of_border hd hb _ p le_rfl, hst.erase hx hdd hd [] rfl fun _ => hwd]
    exact ⟨Needles.erase d p, Needles.erase d r, by simp⟩

end

end Needles
