import Execlaw.Utf8Text
/-!
# Utf8Pages — a text read page by page

An offset inside a character is moved to a boundary, the beginning of a page up (`ceilBoundary`) and its end down
(`floorBoundary`).  A page of so many bytes then holds the characters that fit in front (`fill`).  Pages of different
sizes get a text dealt out, character by character, as long as each character fits on a page of its own (`deals`);
a page that begins before a character wider than itself holds nothing.
-/
namespace Utf8Text

/-! ## Boundaries -/

/-- Upwards to a boundary; `left` bytes are left. -/
def boundaryUp (t : List Char) : Nat → Nat → Nat
  | 0, n => n
  | left + 1, n => if isCharBoundary t n then n else boundaryUp t left (n + 1)

/-- Downwards to a boundary, over `above` bytes at most. -/
def boundaryDown (t : List Char) : Nat → Nat → Nat
  | 0, n => n
  | above + 1, n => if isCharBoundary t n then n else boundaryDown t above (n - 1)

def ceilBoundary (t : List Char) (n : Nat) : Nat := boundaryUp t (size t - n) n

def floorBoundary (t : List Char) (low n : Nat) : Nat := boundaryDown t (n - low) n

def restFrom : List Char → Nat → List Char
  | t, 0 => t
  | [], _ + 1 => []
  | c :: t, n + 1 => restFrom t (n + 1 - c.utf8Size)

variable {t p r s : List Char} {c : Char} {n m low : Nat}

theorem isCharBoundary_iff : isCharBoundary t n = true ↔ ∃ p s, t = p ++ s ∧ size p = n := by
  rw [isCharBoundary, Option.isSome_iff_exists]
  simp only [sliceFrom_eq_some_iff]
  exact exists_comm

theorem isCharBoundary_append (p s : List Char) : isCharBoundary (p ++ s) (size p) = true :=
  isCharBoundary_iff.2 ⟨p, s, rfl, rfl⟩

theorem isCharBoundary_size (t : List Char) : isCharBoundary t (size t) = true :=
  isCharBoundary_iff.2 ⟨t, [], (List.append_nil t).symm, rfl⟩

theorem not_boundary_within (hlow : size p < n) (hhigh : n < size p + c.utf8Size) :
    ¬ isCharBoundary (p ++ c :: s) n := by
  obtain ⟨k, rfl⟩ := Nat.exists_eq_add_of_lt hlow
  exact not_isCharBoundary (k := k + 1) (Nat.succ_pos k) (by omega)

theorem boundaryUp_spec : ∀ (left n : Nat), n + left = size t →
    n ≤ boundaryUp t left n ∧ isCharBoundary t (boundaryUp t left n) = true ∧
      ∀ k, n ≤ k → k < boundaryUp t left n → ¬ isCharBoundary t k
  | 0, n, h => ⟨le_rfl, by rw [boundaryUp, show n = size t by omega]; exact isCharBoundary_size t,
      fun k hk hlt => absurd hlt (by rw [boundaryUp]; omega)⟩
  | left + 1, n, h => by
    rw [boundaryUp]
    by_cases hb : isCharBoundary t n = true
    · rw [if_pos hb]
      exact ⟨le_rfl, hb, fun k hk hlt => absurd hlt (by omega)⟩
    · rw [if_neg hb]
      obtain ⟨hle, hbound, hfirst⟩ := boundaryUp_spec left (n + 1) (by omega)
      refine ⟨by omega, hbound, fun k hk hlt => ?_⟩
      rcases Nat.eq_or_lt_of_le hk with rfl | hk
      · exact hb
      · exact hfirst k hk hlt

theorem boundaryDown_spec : ∀ (above n : Nat), above ≤ n → isCharBoundary t (n - above) = true →
    n - above ≤ boundaryDown t above n ∧ boundaryDown t above n ≤ n ∧
      isCharBoundary t (boundaryDown t above n) = true ∧
      ∀ k, boundaryDown t above n < k → k ≤ n → ¬ isCharBoundary t k
  | 0, n, _, h => ⟨le_rfl, le_rfl, h, fun k hlt hk => absurd hlt (by rw [boundaryDown]; omega)⟩
  | above + 1, n, hle, h => by
    rw [boundaryDown]
    by_cases hb : isCharBoundary t n = true
    · rw [if_pos hb]
      exact ⟨Nat.sub_le _ _, le_rfl, hb, fun k hlt hk => absurd hlt (by omega)⟩
    · rw [if_neg hb]
      have hlow : n - 1 - above = n - (above + 1) := by omega
      obtain ⟨hge, hdown, hbound, hlast⟩ := boundaryDown_spec above (n - 1) (by omega) (hlow ▸ h)
      refine ⟨by omega, by omega, hbound, fun k hlt hk => ?_⟩
      rcases Nat.eq_or_lt_of_le hk with rfl | hk
      · exact hb
      · exact hlast k hlt (by omega)

theorem restFrom_spec : ∀ {t : List Char} {n : Nat}, n ≤ size t →
    ∃ p, t = p ++ restFrom t n ∧ n ≤ size p ∧ ∀ k, n ≤ k → k < size p → ¬ isCharBoundary t k
  | t, 0, _ => ⟨[], by rw [restFrom, List.nil_append], le_rfl, fun k _ hk => absurd hk (Nat.not_lt_zero k)⟩
  | [], n + 1, h => by simp at h
  | c :: t, n + 1, h => by
    rw [size_cons] at h
    obtain ⟨p, hp, hle, hfirst⟩ := restFrom_spec (t := t) (n := n + 1 - c.utf8Size) (by omega)
    refine ⟨c :: p, by rw [restFrom, List.cons_append, ← hp], by rw [size_cons]; omega, fun k hk hlt => ?_⟩
    rw [size_cons] at hlt
    by_cases hin : k < c.utf8Size
    · exact not_boundary_within (p := []) (by rw [size_nil]; omega) (by rw [size_nil]; omega)
    · intro hb
      obtain ⟨q, s, hqs, hq⟩ := isCharBoundary_iff.1 hb
      cases q with
      | nil => simp at hq; omega
      | cons d q =>
        obtain ⟨rfl, hrest⟩ := List.cons.inj hqs
        rw [size_cons] at hq
        exact hfirst (k - c.utf8Size) (by omega) (by omega) (isCharBoundary_iff.2 ⟨q, s, hrest, by omega⟩)

theorem restFrom_of_size_lt : ∀ {t : List Char} {n : Nat}, size t < n → restFrom t n = []
  | _, 0, h => absurd h (Nat.not_lt_zero _)
  | [], n + 1, _ => rfl
  | c :: t, n + 1, h => by
    rw [size_cons] at h
    rw [restFrom]
    exact restFrom_of_size_lt (by omega)

theorem restFrom_append : ∀ p s : List Char, restFrom (p ++ s) (size p) = s
  | [], s => by cases s <;> rfl
  | c :: p, s => by
    have hc := c.utf8Size_pos
    obtain ⟨m, hm⟩ : ∃ m, size (c :: p) = m + 1 := ⟨size (c :: p) - 1, by rw [size_cons]; omega⟩
    have hrest : m + 1 - c.utf8Size = size p := by rw [size_cons] at hm; omega
    rw [List.cons_append, hm, restFrom, hrest, restFrom_append p s]

theorem ceilBoundary_min (t : List Char) (n : Nat) :
    ∃ p, t = p ++ restFrom t n ∧ ceilBoundary t (min n (size t)) = size p := by
  by_cases hn : n ≤ size t
  · obtain ⟨p, hp, hle, hfirst⟩ := restFrom_spec hn
    have hpsize : size p ≤ size t := by rw [hp, size_append]; omega
    obtain ⟨hup, hbound, hbefore⟩ := boundaryUp_spec (t := t) (size t - n) n (by omega)
    refine ⟨p, hp, ?_⟩
    rw [Nat.min_eq_left hn]
    -- both are the first boundary there
    rcases Nat.lt_trichotomy (ceilBoundary t n) (size p) with h | h | h
    · exact absurd hbound (hfirst _ hup h)
    · exact h
    · have hp' : isCharBoundary t (size p) = true := by
        rw [hp]
        exact isCharBoundary_append _ _
      exact absurd hp' (hbefore _ hle h)
  · refine ⟨t, by rw [restFrom_of_size_lt (by omega), List.append_nil], ?_⟩
    rw [Nat.min_eq_right (by omega), ceilBoundary, Nat.sub_self, boundaryUp]

/-! ## Pages -/

def fill : Nat → List Char → List Char × List Char
  | _, [] => ([], [])
  | room, c :: t =>
    if c.utf8Size ≤ room then (c :: (fill (room - c.utf8Size) t).1, (fill (room - c.utf8Size) t).2) else ([], c :: t)

variable {room : Nat}

theorem fill_append : ∀ (room : Nat) (t : List Char), (fill room t).1 ++ (fill room t).2 = t
  | _, [] => rfl
  | room, c :: t => by
    rw [fill]
    split
    · exact congrArg (c :: ·) (fill_append _ t)
    · rfl

theorem size_fill_le : ∀ (room : Nat) (t : List Char), size (fill room t).1 ≤ room
  | _, [] => Nat.zero_le _
  | room, c :: t => by
    rw [fill]
    split
    · have ih := size_fill_le (room - c.utf8Size) t
      simp only [size_cons]
      omega
    · exact Nat.zero_le _

theorem room_lt_of_fill : ∀ (room : Nat) (t : List Char), (fill room t).2 = c :: s →
    room < size (fill room t).1 + c.utf8Size
  | _, [], h => by cases h
  | room, d :: t, h => by
    rw [fill] at h ⊢
    by_cases hd : d.utf8Size ≤ room
    · rw [if_pos hd] at h ⊢
      have ih := room_lt_of_fill (room - d.utf8Size) t h
      rw [size_cons]
      omega
    · rw [if_neg hd] at h ⊢
      obtain ⟨rfl, -⟩ := List.cons.inj h
      simpa using hd

theorem floorBoundary_min (p r : List Char) (room : Nat) :
    floorBoundary (p ++ r) (size p) (min (size p + room) (size (p ++ r))) = size p + size (fill room r).1 := by
  have hsize := congrArg size (fill_append room r)
  have hroom := size_fill_le room r
  rw [size_append] at hsize
  generalize hn : min (size p + room) (size (p ++ r)) = n
  rw [size_append] at hn
  have hbound : isCharBoundary (p ++ r) (size p + size (fill room r).1) = true := by
    rw [isCharBoundary_iff]
    exact ⟨p ++ (fill room r).1, (fill room r).2, by rw [List.append_assoc, fill_append], size_append _ _⟩
  have hlast : ∀ k, size p + size (fill room r).1 < k → k ≤ n → ¬ isCharBoundary (p ++ r) k := by
    intro k hlt hk
    cases hs : (fill room r).2 with
    | nil => rw [hs, size_nil] at hsize; omega
    | cons c s =>
      have hc := room_lt_of_fill _ _ hs
      have hsplit : p ++ r = (p ++ (fill room r).1) ++ c :: s := by rw [List.append_assoc, ← hs, fill_append]
      rw [hsplit]
      exact not_boundary_within (by rw [size_append]; omega) (by rw [size_append]; omega)
  have hlow : n - (n - size p) = size p := by omega
  obtain ⟨hge, hle, hdown, habove⟩ := boundaryDown_spec (t := p ++ r) (n - size p) n (by omega)
    (by rw [hlow]; exact isCharBoundary_append p r)
  -- both are the last boundary there
  rcases Nat.lt_trichotomy (floorBoundary (p ++ r) (size p) n) (size p + size (fill room r).1) with h | h | h
  · exact absurd hbound (habove _ h (by omega))
  · exact h
  · exact absurd hdown (hlast _ h hle)

/-! ## Dealing -/

variable (rooms : Nat → Nat)

/-- Page `i` has `room` bytes left; a character that does not fit begins the next page. -/
def dealsOn : Nat → Nat → List Char → Bool
  | _, _, [] => true
  | i, room, c :: t =>
    if c.utf8Size ≤ room then dealsOn i (room - c.utf8Size) t
    else decide (c.utf8Size ≤ rooms (i + 1)) && dealsOn (i + 1) (rooms (i + 1) - c.utf8Size) t

/-- **Every character fits on the page it comes to**, from a fresh page `i` on. -/
def deals (i : Nat) : List Char → Bool
  | [] => true
  | c :: t => decide (c.utf8Size ≤ rooms i) && dealsOn rooms i (rooms i - c.utf8Size) t

variable {rooms} {i : Nat}

theorem dealsOn_eq : ∀ {i room : Nat} {t : List Char}, dealsOn rooms i room t = deals rooms (i + 1) (fill room t).2
  | _, _, [] => rfl
  | i, room, c :: t => by
    rw [dealsOn, fill]
    split
    · exact dealsOn_eq
    · rfl

theorem deals_iff : deals rooms i t = true ↔
    t = [] ∨ (fill (rooms i) t).1 ≠ [] ∧ deals rooms (i + 1) (fill (rooms i) t).2 = true := by
  cases t with
  | nil => simp [deals]
  | cons c t =>
    rw [deals, fill, dealsOn_eq]
    by_cases hc : c.utf8Size ≤ rooms i <;> simp [hc]

theorem deals_const (room i : Nat) : deals (fun _ => room) i t = t.all (fun c => decide (c.utf8Size ≤ room)) := by
  have hon : ∀ {t : List Char} {i left : Nat}, dealsOn (fun _ => room) i left t = true →
      left ≤ room → ∀ c ∈ t, c.utf8Size ≤ room := by
    intro t
    induction t with
    | nil => simp
    | cons d t ih =>
      intro i left h hleft c hc
      rw [dealsOn] at h
      by_cases hd : d.utf8Size ≤ left
      · rw [if_pos hd] at h
        rcases List.mem_cons.1 hc with rfl | hc
        · omega
        · exact ih h (by omega) c hc
      · rw [if_neg hd, Bool.and_eq_true, decide_eq_true_eq] at h
        rcases List.mem_cons.1 hc with rfl | hc
        · exact h.1
        · exact ih h.2 (by omega) c hc
  have hall : ∀ {t : List Char} {i left : Nat}, (∀ c ∈ t, c.utf8Size ≤ room) →
      dealsOn (fun _ => room) i left t = true := by
    intro t
    induction t with
    | nil => simp [dealsOn]
    | cons d t ih =>
      intro i left h
      have hd := h d List.mem_cons_self
      have ht : ∀ {i left : Nat}, dealsOn (fun _ => room) i left t = true :=
        ih fun c hc => h c (List.mem_cons_of_mem d hc)
      rw [dealsOn]
      split
      · exact ht
      · rw [ht, Bool.and_true]
        exact decide_eq_true hd
  rw [Bool.eq_iff_iff, List.all_eq_true]
  simp only [decide_eq_true_eq]
  cases t with
  | nil => simp [deals]
  | cons c t =>
    rw [deals, Bool.and_eq_true, decide_eq_true_eq, List.forall_mem_cons]
    refine and_congr_right fun hc => ⟨fun h => hon h (Nat.sub_le _ _), fun h => hall h⟩

theorem deals_of_four_le (h : ∀ i, 4 ≤ rooms i) : deals rooms i t = true := by
  have hfits : ∀ (i : Nat) (c : Char), c.utf8Size ≤ rooms i := fun i c => c.utf8Size_le_four.trans (h i)
  have hon : ∀ {t : List Char} {i room : Nat}, dealsOn rooms i room t = true := by
    intro t
    induction t with
    | nil => simp [dealsOn]
    | cons c t ih =>
      intro i room
      rw [dealsOn]
      split
      · exact ih
      · rw [ih, Bool.and_true]
        exact decide_eq_true (hfits _ c)
  cases t with
  | nil => rfl
  | cons c t =>
    rw [deals, hon, Bool.and_true]
    exact decide_eq_true (hfits i c)

end Utf8Text
