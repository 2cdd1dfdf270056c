import Execlaw.Outbox
import Execlaw.ThinkFilter
/-!
# ThinkBlocks — reasoning blocks out of a whole reply (`model-adapter/src/extract.rs`)

An unstreamed reply loses what matches `(?s)<think>(.*?)</think>`: tags in lower case only, and a block that is not
closed stays.  The filter of the streamed reply reads tags in any case and hides an open block to the end.  `agrees`
says when the two hide the same characters (`hidden_eq_iff`).
-/
namespace Execlaw
namespace ThinkBlocks

open ThinkFilter Utf8Text

/-! ## The code -/

def beforeTag (tag : List Char) : List Char → Option (List Char)
  | [] => none
  | c :: t => if tag <+: c :: t then some [] else (beforeTag tag t).map (c :: ·)

def thinkAt (t : List Char) : Option (List Char) :=
  if OPEN_TAG <+: t then beforeTag CLOSE_TAG (t.drop OPEN_TAG.length) else none

def matchLength (inner : List Char) : Nat := OPEN_TAG.length + (inner.length + CLOSE_TAG.length)

/-- The loop over `captures_iter`: what the matches capture and what stands between them; the number counts the
characters of a match still to be passed over. -/
def captures : Nat → List Char → List (List Char) × List Char
  | _, [] => ([], [])
  | k + 1, _ :: t => captures k t
  | 0, c :: t =>
    match thinkAt (c :: t) with
    | some inner => (inner :: (captures (matchLength inner - 1) t).1, (captures (matchLength inner - 1) t).2)
    | none => ((captures 0 t).1, c :: (captures 0 t).2)

def splitThinkBlock (s : List Char) : Option (List Char) × List Char :=
  let (inners, visible) := captures 0 s
  if inners = [] then (none, s)
  else
    let parts := (inners.map fun inner => (trim (String.ofList inner)).toList).filter (· ≠ [])
    (if parts = [] then none else some ("\n\n".toList.intercalate parts), visible)

example : splitThinkBlock "<think>a </think>b<think>\nc</think>d<think>".toList =
    (some "a\n\nc".toList, "bd<think>".toList) := by decide

/-! ## What is hidden -/

def hiddenByFilter : State → Nat → List Char → List Bool
  | _, _, [] => []
  | s, k + 1, _ :: t => true :: hiddenByFilter s k t
  | s, 0, c :: t =>
    if s.tag <+: toAsciiLowercase (c :: t) then true :: hiddenByFilter s.flip (s.tag.length - 1) t
    else decide (s = .inside) :: hiddenByFilter s 0 t

/-- Which characters `split_think_block` hides. -/
def hiddenBySplit : Nat → List Char → List Bool
  | _, [] => []
  | k + 1, _ :: t => true :: hiddenBySplit k t
  | 0, c :: t =>
    match thinkAt (c :: t) with
    | some inner => true :: hiddenBySplit (matchLength inner - 1) t
    | none => false :: hiddenBySplit 0 t

def shown (t : List Char) (hidden : List Bool) : List Char := ((t.zip hidden).filter fun p => !p.2).map Prod.fst

theorem shown_cons (c : Char) (t : List Char) (h : Bool) (hidden : List Bool) :
    shown (c :: t) (h :: hidden) = if h then shown t hidden else c :: shown t hidden := by
  cases h <;> rfl

theorem visibleFrom_eq_shown : ∀ (s : State) (k : Nat) (t : List Char),
    visibleFrom s k t = shown t (hiddenByFilter s k t)
  | s, _, [] => by cases s <;> rfl
  | s, k + 1, c :: t => by
    rw [visibleFrom, hiddenByFilter, shown_cons, if_pos rfl]
    exact visibleFrom_eq_shown s k t
  | s, 0, c :: t => by
    rw [visibleFrom, hiddenByFilter]
    split
    · rw [shown_cons, if_pos rfl]
      exact visibleFrom_eq_shown s.flip _ t
    · rw [shown_cons, visibleFrom_eq_shown s 0 t]
      cases s <;> rfl

theorem captures_eq_shown : ∀ (k : Nat) (t : List Char), (captures k t).2 = shown t (hiddenBySplit k t)
  | _, [] => rfl
  | k + 1, c :: t => by
    rw [captures, hiddenBySplit, shown_cons, if_pos rfl]
    exact captures_eq_shown k t
  | 0, c :: t => by
    rw [captures, hiddenBySplit]
    cases thinkAt (c :: t) with
    | some inner =>
      simp only [shown_cons, if_true]
      exact captures_eq_shown _ t
    | none =>
      simp only [shown_cons, Bool.false_eq_true, if_false]
      exact congrArg (c :: ·) (captures_eq_shown 0 t)

theorem captures_nil : ∀ {t : List Char}, (captures 0 t).1 = [] → (captures 0 t).2 = t
  | [], _ => rfl
  | c :: t, h => by
    rw [captures] at h ⊢
    cases hat : thinkAt (c :: t) with
    | some inner => rw [hat] at h; cases h
    | none =>
      rw [hat] at h
      exact congrArg (c :: ·) (captures_nil h)

theorem splitThinkBlock_visible (s : List Char) : (splitThinkBlock s).2 = shown s (hiddenBySplit 0 s) := by
  rw [← captures_eq_shown, splitThinkBlock]
  split
  next inners visible hcap =>
  split_ifs with hnil
  · exact (captures_nil (by rw [hcap]; exact hnil)).symm
  · rw [hcap]

/-! ## Where the two agree -/

/-- How far both have come: outside blocks; inside one for both; inside for the pattern only, the filter having closed
its block with a tag that the pattern does not know. -/
inductive Phase
  | outside
  | inside
  | between

/-- A stretch that is hidden opens with `<think>` in lower case and ends at the first `</think>` in lower case; where the
filter closes a block before that, it opens the next at once. -/
def agrees : Phase → Nat → List Char → Bool
  | .outside, _, [] => true
  | _, _, [] => false
  | p, k + 1, _ :: t => agrees p k t
  | .outside, 0, c :: t =>
    if OPEN_TAG <+: toAsciiLowercase (c :: t) then
      decide (OPEN_TAG <+: c :: t) && agrees .inside (OPEN_TAG.length - 1) t
    else agrees .outside 0 t
  | .inside, 0, c :: t =>
    if CLOSE_TAG <+: c :: t then agrees .outside (CLOSE_TAG.length - 1) t
    else if CLOSE_TAG <+: toAsciiLowercase (c :: t) then agrees .between (CLOSE_TAG.length - 1) t
    else agrees .inside 0 t
  | .between, 0, c :: t =>
    decide (OPEN_TAG <+: toAsciiLowercase (c :: t)) && agrees .inside (OPEN_TAG.length - 1) t

example : agrees .outside 0 "a<think>b</THINK><Think>c</think>d".toList = true ∧
    agrees .outside 0 "<Think>a</think>".toList = false ∧ agrees .outside 0 "<think>a".toList = false := by decide

variable {s : State} {o r t m : List Char} {c : Char}

/-! Tags in any case. -/

theorem eq_bracket_of_toLower (h : c.toLower = '<') : c = '<' := by
  unfold Char.toLower at h
  split at h
  · rename_i hupper
    have hval := congrArg (fun c : Char => c.val.toNat) h
    have hlo : 65 ≤ c.val.toNat := hupper.1
    have hhi : c.val.toNat ≤ 90 := hupper.2
    have h32 : ('a'.val - 'A'.val).toNat = 32 := rfl
    have hbracket : '<'.val.toNat = 60 := rfl
    rw [UInt32.toNat_add, h32, hbracket] at hval
    omega
  · exact h

theorem tag_shape (ho : toAsciiLowercase o = s.tag) : ∃ p, o = '<' :: p ∧ '<' ∉ p := by
  have hshape : ∃ q, s.tag = '<' :: q ∧ '<' ∉ q := by
    cases s
    · exact ⟨"think>".toList, rfl, by decide⟩
    · exact ⟨"/think>".toList, rfl, by decide⟩
  obtain ⟨q, htag, hq⟩ := hshape
  rw [htag] at ho
  obtain ⟨a, p, rfl, ha, rfl⟩ := List.map_eq_cons_iff.1 ho
  have hlower : ∀ b ∈ p, b ≠ '<' := by
    rintro b hb rfl
    exact hq (List.mem_map.2 ⟨'<', hb, rfl⟩)
  refine ⟨p, ?_, fun hmem => hlower _ hmem rfl⟩
  rw [eq_bracket_of_toLower ha]

theorem tag_here (h : s.tag <+: toAsciiLowercase t) : ∃ o r, t = o ++ r ∧ toAsciiLowercase o = s.tag := by
  obtain ⟨r', hr'⟩ := h
  obtain ⟨o, r, rfl, ho, -⟩ := of_toAsciiLowercase_append hr'.symm
  exact ⟨o, r, rfl, ho⟩

theorem anyCase_of_tag (ho : toAsciiLowercase o = s.tag) : s.tag <+: toAsciiLowercase (o ++ r) :=
  ⟨toAsciiLowercase r, by rw [toAsciiLowercase_append, ho]⟩

theorem anyCase_of_exact (h : s.tag <+: t) : s.tag <+: toAsciiLowercase t := by
  obtain ⟨r, rfl⟩ := h
  exact anyCase_of_tag s.tag_lower

theorem not_close_of_open (ho : toAsciiLowercase o = OPEN_TAG) : ¬ CLOSE_TAG <+: o ++ r := by
  intro h
  have hlower := @anyCase_of_exact .inside _ h
  rw [toAsciiLowercase_append, ho] at hlower
  have hsecond := (List.cons_prefix_cons.1 (show '<' :: "/think>".toList <+: '<' :: ("think>".toList ++ _) from hlower)).2
  exact absurd (List.cons_prefix_cons.1
    (show '/' :: "think>".toList <+: 't' :: ("hink>".toList ++ _) from hsecond)).1 (by decide)

theorem beforeTag_skip : ∀ {p : List Char}, '<' ∉ p →
    beforeTag CLOSE_TAG (p ++ t) = (beforeTag CLOSE_TAG t).map (p ++ ·)
  | [], _ => by simp
  | c :: p, hp => by
    rw [List.mem_cons, not_or] at hp
    have hno : ¬ CLOSE_TAG <+: c :: (p ++ t) := fun h => hp.1 (List.cons_prefix_cons.1 h).1
    rw [List.cons_append, beforeTag, if_neg hno, beforeTag_skip hp.2, Option.map_map]
    rfl

theorem beforeTag_past (ho : toAsciiLowercase o = s.tag) (hno : ¬ CLOSE_TAG <+: o ++ r) :
    beforeTag CLOSE_TAG (o ++ r) = (beforeTag CLOSE_TAG r).map (o ++ ·) := by
  obtain ⟨p, rfl, hp⟩ := tag_shape ho
  rw [List.cons_append] at hno ⊢
  rw [beforeTag, if_neg hno, beforeTag_skip hp, Option.map_map]
  rfl

/-! Past a tag all readers count its letters down. -/

theorem hiddenByFilter_past : ∀ (o : List Char),
    hiddenByFilter s o.length (o ++ r) = List.replicate o.length true ++ hiddenByFilter s 0 r
  | [] => rfl
  | _ :: o => congrArg (true :: ·) (hiddenByFilter_past o)

theorem hiddenBySplit_past (n : Nat) : ∀ (o : List Char),
    hiddenBySplit (o.length + n) (o ++ r) = List.replicate o.length true ++ hiddenBySplit n r
  | [] => by rw [List.length_nil, Nat.zero_add]; rfl
  | c :: o => by
    rw [List.length_cons, Nat.add_right_comm]
    exact congrArg (true :: ·) (hiddenBySplit_past n o)

theorem agrees_past (p : Phase) : ∀ (o : List Char), agrees p o.length (o ++ r) = agrees p 0 r
  | [] => rfl
  | c :: o => by
    rw [List.length_cons, List.cons_append, show agrees p (o.length + 1) (c :: (o ++ r)) = agrees p o.length (o ++ r) by
      cases p <;> rfl]
    exact agrees_past p o

theorem hiddenByFilter_tag (ho : toAsciiLowercase o = s.tag) :
    hiddenByFilter s 0 (o ++ r) = List.replicate o.length true ++ hiddenByFilter s.flip 0 r := by
  have hlen : s.tag.length = o.length := by rw [← ho, length_toAsciiLowercase]
  have hhere := @anyCase_of_tag s o r ho
  rw [← hiddenByFilter_past]
  obtain ⟨p, rfl, -⟩ := tag_shape ho
  rw [List.cons_append] at hhere ⊢
  rw [hiddenByFilter, if_pos hhere, hlen]
  rfl

theorem hiddenBySplit_match {inner : List Char} (h : thinkAt t = some inner) :
    hiddenBySplit 0 t = hiddenBySplit (matchLength inner) t := by
  cases t with
  | nil =>
    have hnil : thinkAt [] = none := by decide
    rw [hnil] at h
    cases h
  | cons c t =>
    rw [hiddenBySplit, h]
    rfl

theorem hiddenByFilter_plain (h : ¬ s.tag <+: toAsciiLowercase (c :: t)) :
    hiddenByFilter s 0 (c :: t) = decide (s = .inside) :: hiddenByFilter s 0 t := by
  rw [hiddenByFilter, if_neg h]

theorem hidden_ne_of_tag (ho : toAsciiLowercase o = s.tag) (hno : thinkAt (o ++ r) = none) :
    hiddenBySplit 0 (o ++ r) ≠ hiddenByFilter s 0 (o ++ r) := by
  rw [hiddenByFilter_tag ho]
  obtain ⟨p, rfl, -⟩ := tag_shape ho
  rw [List.cons_append] at hno ⊢
  rw [hiddenBySplit, hno]
  intro h
  exact absurd (List.cons.inj h).1 (by decide)

/-! The conditions at a tag. -/

theorem agrees_open (ho : toAsciiLowercase o = OPEN_TAG) :
    agrees .outside 0 (o ++ r) = (decide (OPEN_TAG <+: o ++ r) && agrees .inside 0 r) ∧
      agrees .between 0 (o ++ r) = agrees .inside 0 r := by
  have hhere : OPEN_TAG <+: toAsciiLowercase (o ++ r) := @anyCase_of_tag .outside o r ho
  have hlen : OPEN_TAG.length = o.length := by rw [← ho, length_toAsciiLowercase]
  rw [← agrees_past .inside o]
  obtain ⟨p, rfl, -⟩ := @tag_shape .outside _ ho
  rw [List.cons_append] at hhere ⊢
  have hrest : agrees .inside (OPEN_TAG.length - 1) (p ++ r) = agrees .inside ('<' :: p).length ('<' :: (p ++ r)) := by
    rw [hlen]
    rfl
  constructor
  · rw [agrees, if_pos hhere, hrest]
  · rw [agrees, decide_eq_true hhere, Bool.true_and, hrest]

theorem agrees_close (ho : toAsciiLowercase o = CLOSE_TAG) :
    agrees .inside 0 (o ++ r) = if CLOSE_TAG <+: o ++ r then agrees .outside 0 r else agrees .between 0 r := by
  have hhere : CLOSE_TAG <+: toAsciiLowercase (o ++ r) := @anyCase_of_tag .inside o r ho
  have hlen : CLOSE_TAG.length = o.length := by rw [← ho, length_toAsciiLowercase]
  rw [← agrees_past .outside o, ← agrees_past .between o]
  obtain ⟨p, rfl, -⟩ := @tag_shape .inside _ ho
  rw [List.cons_append] at hhere ⊢
  rw [agrees, if_pos hhere, hlen]
  rfl

theorem exact_tag (ho : toAsciiLowercase o = s.tag) (h : s.tag <+: o ++ r) : o = s.tag := by
  obtain ⟨x, hx⟩ := h
  exact (List.append_inj hx (by rw [← ho, length_toAsciiLowercase])).1.symm

theorem rest_shorter (ht : t = o ++ r) (ho : toAsciiLowercase o = s.tag) : r.length < t.length := by
  obtain ⟨p, rfl, -⟩ := tag_shape ho
  rw [ht]
  simp only [List.cons_append, List.length_cons, List.length_append]
  omega

theorem agrees_unclosed (t : List Char) (h : beforeTag CLOSE_TAG t = none) :
    agrees .inside 0 t = false ∧ agrees .between 0 t = false := by
  have ih : ∀ r, r.length < t.length → beforeTag CLOSE_TAG r = none →
      agrees .inside 0 r = false ∧ agrees .between 0 r = false := fun r _ h => agrees_unclosed r h
  cases t with
  | nil => exact ⟨rfl, rfl⟩
  | cons c t =>
    have hexact : ¬ CLOSE_TAG <+: c :: t := fun hpre => by
      rw [beforeTag, if_pos hpre] at h
      cases h
    have hnone : beforeTag CLOSE_TAG t = none := by
      rw [beforeTag, if_neg hexact] at h
      exact Option.map_eq_none_iff.1 h
    constructor
    · by_cases hclose : CLOSE_TAG <+: toAsciiLowercase (c :: t)
      · obtain ⟨o, r, ht, ho⟩ := @tag_here .inside _ hclose
        have hshorter := rest_shorter ht ho
        rw [ht] at h hexact ⊢
        rw [beforeTag_past ho hexact, Option.map_eq_none_iff] at h
        rw [agrees_close ho, if_neg hexact]
        exact (ih r hshorter h).2
      · rw [agrees, if_neg hexact, if_neg hclose]
        exact (ih t (Nat.lt_succ_self _) hnone).1
    · by_cases hopen : OPEN_TAG <+: toAsciiLowercase (c :: t)
      · obtain ⟨o, r, ht, ho⟩ := @tag_here .outside _ hopen
        have hshorter := rest_shorter ht ho
        rw [ht] at h hexact ⊢
        rw [beforeTag_past ho hexact, Option.map_eq_none_iff] at h
        rw [(agrees_open ho).2]
        exact (ih r hshorter h).1
      · rw [agrees, decide_eq_false hopen, Bool.false_and]
termination_by t.length

/-! ## The same characters -/

/-- The two hide the same characters of a text exactly where `agrees` says so, from each phase. -/
structure Reads (t : List Char) : Prop where
  outside : hiddenBySplit 0 t = hiddenByFilter .outside 0 t ↔ agrees .outside 0 t = true
  inside : ∀ m, beforeTag CLOSE_TAG t = some m →
    (hiddenBySplit (m.length + CLOSE_TAG.length) t = hiddenByFilter .inside 0 t ↔ agrees .inside 0 t = true)
  between : ∀ m, beforeTag CLOSE_TAG t = some m →
    (hiddenBySplit (m.length + CLOSE_TAG.length) t = hiddenByFilter .outside 0 t ↔ agrees .between 0 t = true)

theorem reads_outside (ih : ∀ r, r.length < t.length → Reads r) :
    hiddenBySplit 0 t = hiddenByFilter .outside 0 t ↔ agrees .outside 0 t = true := by
  cases t with
  | nil => exact iff_of_true rfl rfl
  | cons c t =>
    by_cases hopen : OPEN_TAG <+: toAsciiLowercase (c :: t)
    · obtain ⟨o, r, ht, ho⟩ := @tag_here .outside _ hopen
      have hr := ih r (rest_shorter ht ho)
      rw [ht, (agrees_open ho).1]
      by_cases hexact : OPEN_TAG <+: o ++ r
      · have hat : thinkAt (o ++ r) = beforeTag CLOSE_TAG r := by
          rw [thinkAt, if_pos hexact, exact_tag ho hexact]
          exact congrArg _ List.drop_left
        cases hm : beforeTag CLOSE_TAG r with
        | none =>
          refine iff_of_false (hidden_ne_of_tag ho (hat.trans hm)) ?_
          rw [(agrees_unclosed r hm).1, Bool.and_false]
          exact Bool.false_ne_true
        | some m =>
          have hlen : OPEN_TAG.length = o.length := congrArg List.length (exact_tag ho hexact).symm
          rw [hiddenBySplit_match (hat.trans hm), matchLength, hlen, hiddenBySplit_past, hiddenByFilter_tag ho,
            List.append_cancel_left_eq, decide_eq_true hexact, Bool.true_and]
          exact hr.inside m hm
      · refine iff_of_false (hidden_ne_of_tag ho (if_neg hexact)) ?_
        rw [decide_eq_false hexact, Bool.false_and]
        exact Bool.false_ne_true
    · have hat : thinkAt (c :: t) = none := if_neg fun h => hopen (@anyCase_of_exact .outside _ h)
      have hsplit : hiddenBySplit 0 (c :: t) = false :: hiddenBySplit 0 t := by rw [hiddenBySplit, hat]
      rw [hsplit, @hiddenByFilter_plain .outside _ _ hopen, agrees, if_neg hopen, List.cons.injEq]
      exact (and_iff_right rfl).trans (ih t (Nat.lt_succ_self _)).outside

theorem reads_inside (ih : ∀ r, r.length < t.length → Reads r) (hm : beforeTag CLOSE_TAG t = some m) :
    hiddenBySplit (m.length + CLOSE_TAG.length) t = hiddenByFilter .inside 0 t ↔ agrees .inside 0 t = true := by
  cases t with
  | nil => cases hm
  | cons c t =>
    by_cases hclose : CLOSE_TAG <+: toAsciiLowercase (c :: t)
    · obtain ⟨o, r, ht, ho⟩ := @tag_here .inside _ hclose
      have hr := ih r (rest_shorter ht ho)
      by_cases hexact : CLOSE_TAG <+: c :: t
      · rw [beforeTag, if_pos hexact] at hm
        cases hm
        rw [ht] at hexact ⊢
        have hlen : 0 + CLOSE_TAG.length = o.length + 0 := by rw [exact_tag ho hexact]; rfl
        rw [List.length_nil, hlen, hiddenBySplit_past, hiddenByFilter_tag ho, List.append_cancel_left_eq,
          agrees_close ho, if_pos hexact]
        exact hr.outside
      · rw [ht] at hm hexact ⊢
        rw [beforeTag_past ho hexact] at hm
        obtain ⟨m', hm', rfl⟩ := Option.map_eq_some_iff.1 hm
        rw [List.length_append, Nat.add_assoc, hiddenBySplit_past, hiddenByFilter_tag ho,
          List.append_cancel_left_eq, agrees_close ho, if_neg hexact]
        exact hr.between m' hm'
    · have hexact : ¬ CLOSE_TAG <+: c :: t := fun h => hclose (@anyCase_of_exact .inside _ h)
      rw [beforeTag, if_neg hexact] at hm
      obtain ⟨m', hm', rfl⟩ := Option.map_eq_some_iff.1 hm
      rw [@hiddenByFilter_plain .inside _ _ hclose, agrees, if_neg hexact, if_neg hclose, List.length_cons,
        Nat.add_right_comm, hiddenBySplit, List.cons.injEq]
      exact (and_iff_right rfl).trans ((ih t (Nat.lt_succ_self _)).inside m' hm')

theorem reads_between (ih : ∀ r, r.length < t.length → Reads r) (hm : beforeTag CLOSE_TAG t = some m) :
    hiddenBySplit (m.length + CLOSE_TAG.length) t = hiddenByFilter .outside 0 t ↔ agrees .between 0 t = true := by
  cases t with
  | nil => cases hm
  | cons c t =>
    by_cases hopen : OPEN_TAG <+: toAsciiLowercase (c :: t)
    · obtain ⟨o, r, ht, ho⟩ := @tag_here .outside _ hopen
      have hr := ih r (rest_shorter ht ho)
      rw [ht] at hm ⊢
      rw [@beforeTag_past .outside _ _ ho (not_close_of_open ho)] at hm
      obtain ⟨m', hm', rfl⟩ := Option.map_eq_some_iff.1 hm
      rw [List.length_append, Nat.add_assoc, hiddenBySplit_past, hiddenByFilter_tag ho,
        List.append_cancel_left_eq, (agrees_open ho).2]
      exact hr.inside m' hm'
    · rw [@hiddenByFilter_plain .outside _ _ hopen, agrees, decide_eq_false hopen, Bool.false_and]
      refine iff_of_false ?_ Bool.false_ne_true
      rw [show m.length + CLOSE_TAG.length = (m.length + 7) + 1 from rfl, hiddenBySplit]
      intro h
      exact absurd (List.cons.inj h).1 (by decide)

theorem reads (t : List Char) : Reads t :=
  have ih : ∀ r, r.length < t.length → Reads r := fun r _ => reads r
  ⟨reads_outside ih, fun _ hm => reads_inside ih hm, fun _ hm => reads_between ih hm⟩
termination_by t.length

theorem hidden_eq_iff (t : List Char) :
    hiddenBySplit 0 t = hiddenByFilter .outside 0 t ↔ agrees .outside 0 t = true := (reads t).outside

/-! ## Streamed and unstreamed -/

/-- Whatever pieces the reply comes in, the filter passes on what `split_think_block` shows. -/
def SameText (t : List Char) : Prop :=
  ∀ chunks : List (List Char), chunks.flatten = t →
    ∃ f out, feedAll {} chunks = some (f, out) ∧ (splitThinkBlock t).2 = out ++ (flush f).2

theorem feedAll_shown (chunks : List (List Char)) : ∃ f out, feedAll {} chunks = some (f, out) ∧
    out ++ (flush f).2 = shown chunks.flatten (hiddenByFilter .outside 0 chunks.flatten) := by
  obtain ⟨f, out, hf, hfeeds⟩ := feedAll_feeds chunks {} List.nil_prefix (State.size_tag_pos _)
  refine ⟨f, out, hf, ?_⟩
  rw [flush_eq hfeeds.shorter, ← visibleFrom_eq_shown]
  simpa using hfeeds.visible []

/-- **A reply that `agrees` shows the same text streamed and unstreamed**, and on no other are the same characters
hidden. -/
theorem streamed_and_unstreamed (t : List Char) : (agrees .outside 0 t = true → SameText t) ∧
    (hiddenBySplit 0 t = hiddenByFilter .outside 0 t ↔ agrees .outside 0 t = true) := by
  refine ⟨fun h chunks hchunks => ?_, hidden_eq_iff t⟩
  obtain ⟨f, out, hf, hshown⟩ := feedAll_shown chunks
  refine ⟨f, out, hf, ?_⟩
  rw [splitThinkBlock_visible, hshown, hchunks, (hidden_eq_iff t).2 h]

/-- Other characters hidden may still leave the same text, so the text alone does not decide it. -/
example :
    let t := "<THINK><think></THINK><TH<THINK></THINK>INK><TH<THINK></THINK>INK></think><THINK></think>".toList
    agrees .outside 0 t = false ∧ (splitThinkBlock t).2 = withoutThink t := by decide

/-- Reasoning in a tag with a capital letter is shown when the reply is not streamed. -/
theorem capital_is_shown : ¬ SameText "<Think>plan</Think>hi".toList := by
  intro h
  obtain ⟨f, out, hf, hsame⟩ := h ["<Think>plan</Think>hi".toList] (List.append_nil _)
  obtain ⟨g, out', hg, hshown⟩ := feedAll_shown ["<Think>plan</Think>hi".toList]
  cases hf.symm.trans hg
  rw [hshown] at hsame
  revert hsame
  decide

end ThinkBlocks
end Execlaw
