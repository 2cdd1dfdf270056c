import Execlaw.Utf8Text
/-!
# ThinkFilter — reasoning blocks out of a stream

The filter reads a reply in pieces and passes on what stands outside `<think>` blocks.  It holds back an end of what it
has read that the next piece could complete to a tag.  Whatever the pieces, what it passes on is the whole reply without
its blocks (`filtered_eq`).
-/
namespace Execlaw
namespace ThinkFilter

open Utf8Text

/-! ## The code -/

def OPEN_TAG : List Char := "<think>".toList

def CLOSE_TAG : List Char := "</think>".toList

inductive State where
  | outside
  | inside
deriving DecidableEq

structure ThinkBlockFilter where
  state : State := .outside
  pending : List Char := []

def trailingSafeLenFrom (buf tagLower bufLower : List Char) : Nat → Option Nat
  | 0 => some (size buf)
  | n + 1 =>
    if isCharBoundary buf (size buf - (n + 1)) then do
      let suffix ← sliceFrom bufLower (size buf - (n + 1))
      if suffix <+: tagLower then some (size buf - (n + 1)) else trailingSafeLenFrom buf tagLower bufLower n
    else trailingSafeLenFrom buf tagLower bufLower n

def trailingSafeLen (buf tag : List Char) : Option Nat :=
  if buf = [] then some 0
  else trailingSafeLenFrom buf (toAsciiLowercase tag) (toAsciiLowercase buf) (min (size tag - 1) (size buf))

/-- The loop of `feed`; no value where a slice would cut a character. -/
def feedLoop (state : State) (buf out : List Char) : Option (ThinkBlockFilter × List Char) :=
  match state with
  | .outside =>
    match find OPEN_TAG (toAsciiLowercase buf) with
    | some idx =>
      match sliceTo buf idx, _h : sliceFrom buf (idx + size OPEN_TAG) with
      | some before, some rest => feedLoop .inside rest (out ++ before)
      | _, _ => none
    | none => do
      let safeLen ← trailingSafeLen buf OPEN_TAG
      let safe ← sliceTo buf safeLen
      let pending ← sliceFrom buf safeLen
      some (⟨.outside, pending⟩, out ++ safe)
  | .inside =>
    match find CLOSE_TAG (toAsciiLowercase buf) with
    | some idx =>
      match _h : sliceFrom buf (idx + size CLOSE_TAG) with
      | some rest => feedLoop .outside rest out
      | none => none
    | none => do
      let safeLen ← trailingSafeLen buf CLOSE_TAG
      let pending ← sliceFrom buf safeLen
      some (⟨.inside, pending⟩, out)
termination_by buf.length
decreasing_by
  all_goals exact length_sliceFrom_lt _h (Nat.lt_of_lt_of_le (by decide) (Nat.le_add_left _ _))

def feed (f : ThinkBlockFilter) (chunk : List Char) : Option (ThinkBlockFilter × List Char) :=
  feedLoop f.state (f.pending ++ chunk) []

def flush (f : ThinkBlockFilter) : ThinkBlockFilter × List Char :=
  ({ f with pending := [] }, if f.state = .inside then [] else f.pending)

def feedAll : ThinkBlockFilter → List (List Char) → Option (ThinkBlockFilter × List Char)
  | f, [] => some (f, [])
  | f, chunk :: chunks => do
    let (f, out) ← feed f chunk
    let (f, rest) ← feedAll f chunks
    some (f, out ++ rest)

/-! ## The reply without its blocks -/

def State.tag : State → List Char
  | .outside => OPEN_TAG
  | .inside => CLOSE_TAG

def State.flip : State → State
  | .outside => .inside
  | .inside => .outside

def State.emit : State → List Char → List Char
  | .outside, t => t
  | .inside, _ => []

def visibleFrom : State → Nat → List Char → List Char
  | _, _, [] => []
  | s, k + 1, _ :: t => visibleFrom s k t
  | s, 0, c :: t =>
    if s.tag <+: toAsciiLowercase (c :: t) then visibleFrom s.flip (s.tag.length - 1) t
    else s.emit [c] ++ visibleFrom s 0 t

/-- A reply without its `<think>` blocks, in any case of letters; a block that is not closed reaches to the end. -/
def withoutThink (t : List Char) : List Char := visibleFrom .outside 0 t

/-! ## Blocks in the reference -/

variable {s : State} {t b o a r : List Char}

theorem visibleFrom_eq : ∀ (k : Nat) (t : List Char), visibleFrom s k t = visibleFrom s 0 (t.drop k)
  | 0, _ => rfl
  | _ + 1, [] => rfl
  | k + 1, _ :: t => by rw [visibleFrom, visibleFrom_eq k t, List.drop_succ_cons]

theorem State.emit_append (s : State) (b a : List Char) : s.emit (b ++ a) = s.emit b ++ s.emit a := by cases s <;> rfl

theorem State.tag_ne_nil (s : State) : s.tag ≠ [] := by cases s <;> decide

theorem visibleFrom_append : ∀ {b : List Char},
    (∀ b1 b2, b = b1 ++ b2 → b2 ≠ [] → ¬ s.tag <+: toAsciiLowercase (b2 ++ r)) →
    visibleFrom s 0 (b ++ r) = s.emit b ++ visibleFrom s 0 r
  | [], _ => by cases s <;> rfl
  | c :: b, h => by
    have hrest : ∀ b1 b2, b = b1 ++ b2 → b2 ≠ [] → ¬ s.tag <+: toAsciiLowercase (b2 ++ r) :=
      fun b1 b2 hb => h (c :: b1) b2 (by rw [hb]; rfl)
    have hhere : ¬ s.tag <+: toAsciiLowercase (c :: (b ++ r)) := h [] (c :: b) rfl (List.cons_ne_nil _ _)
    rw [List.cons_append, visibleFrom, if_neg hhere, visibleFrom_append hrest, ← List.append_assoc, ← State.emit_append]
    rfl

theorem visibleFrom_tag (ho : toAsciiLowercase o = s.tag) : visibleFrom s 0 (o ++ r) = visibleFrom s.flip 0 r := by
  have hlen : o.length = s.tag.length := by rw [← ho, length_toAsciiLowercase]
  have hne : o ≠ [] := by
    rintro rfl
    exact s.tag_ne_nil ho.symm
  obtain ⟨c, o, rfl⟩ := List.exists_cons_of_ne_nil hne
  have hpre : s.tag <+: toAsciiLowercase (c :: (o ++ r)) :=
    ⟨toAsciiLowercase r, by rw [← ho, ← toAsciiLowercase_append]; rfl⟩
  rw [List.cons_append, visibleFrom, if_pos hpre, visibleFrom_eq, ← hlen]
  simp

/-! ## Tags in the buffer -/

theorem of_toAsciiLowercase_append {p q : List Char} (h : toAsciiLowercase t = p ++ q) :
    ∃ p' q', t = p' ++ q' ∧ toAsciiLowercase p' = p ∧ toAsciiLowercase q' = q :=
  List.map_eq_append_iff.1 h

theorem find_tag {tag : List Char} {idx : Nat} (h : find tag (toAsciiLowercase t) = some idx) :
    ∃ b o a, t = b ++ o ++ a ∧ toAsciiLowercase o = tag ∧ sliceTo t idx = some b ∧ sliceFrom t (idx + size tag) = some a ∧
      ∀ b1 b2, b = b1 ++ b2 → b2 ≠ [] → ¬ tag <+: toAsciiLowercase (b2 ++ o ++ a) := by
  obtain ⟨p, q, hp, rfl, hfirst⟩ := find_eq_some h
  rw [List.append_assoc] at hp
  obtain ⟨b, oa, rfl, rfl, hoa⟩ := of_toAsciiLowercase_append hp
  obtain ⟨o, a, rfl, rfl, rfl⟩ := of_toAsciiLowercase_append hoa
  refine ⟨b, o, a, by simp, rfl, ?_, ?_, ?_⟩
  · simpa using sliceTo_append b (o ++ a)
  · simpa using sliceFrom_append (b ++ o) a
  · rintro b1 b2 rfl hb2 ⟨q, hq⟩
    have hle := hfirst (toAsciiLowercase b1) q (by rw [List.append_assoc (toAsciiLowercase b1), hq]; simp)
    have hpos := List.length_pos_iff.2 hb2
    simp only [length_toAsciiLowercase, List.length_append] at hle
    omega

/-- **What `trailing_safe_len` holds back**: the longest end of the buffer that begins the tag and is not the tag. -/
structure Holds (tag buf safe held : List Char) : Prop where
  parts : buf = safe ++ held
  begins : toAsciiLowercase held <+: tag
  shorter : size held < size tag
  longest : ∀ b h, buf = b ++ h → toAsciiLowercase h <+: tag → size h < size tag → size h ≤ size held

theorem trailingSafeLenFrom_holds {tag buf : List Char} (htag : 0 < size tag) : ∀ n : Nat, n ≤ size buf → n < size tag →
    (∀ b h, buf = b ++ h → toAsciiLowercase h <+: tag → size h < size tag → size h ≤ n) →
    ∃ safe held, trailingSafeLenFrom buf tag (toAsciiLowercase buf) n = some (size safe) ∧ Holds tag buf safe held
  | 0, _, _, hlong => ⟨buf, [], rfl, by simp, List.nil_prefix, htag, by simpa using hlong⟩
  | n + 1, hn, hlt, hlong => by
    rw [trailingSafeLenFrom]
    by_cases hb : isCharBoundary buf (size buf - (n + 1))
    · obtain ⟨held, hheld⟩ := Option.isSome_iff_exists.1 hb
      obtain ⟨safe, hparts, hsafe⟩ := sliceFrom_eq_some hheld
      have hsize : size held = n + 1 := by
        have hcount := congrArg size hparts
        simp at hcount; omega
      have hlower : sliceFrom (toAsciiLowercase buf) (size buf - (n + 1)) = some (toAsciiLowercase held) := by
        rw [← hsafe, hparts, toAsciiLowercase_append, ← size_toAsciiLowercase safe, sliceFrom_append]
      rw [if_pos hb, hlower]
      by_cases hpre : toAsciiLowercase held <+: tag
      · refine ⟨safe, held, by simp [hpre, hsafe], hparts, hpre, by omega, fun b h hbh hp hs => ?_⟩
        exact (hlong b h hbh hp hs).trans hsize.ge
      · have hlong' : ∀ b h, buf = b ++ h → toAsciiLowercase h <+: tag → size h < size tag → size h ≤ n := by
          -- an end of `n + 1` bytes would be the one just looked at
          intro b h hbh hp hs
          refine Nat.le_of_lt_succ ((hlong b h hbh hp hs).lt_of_ne fun heq => hpre ?_)
          have hb' : size buf - (n + 1) = size b := by rw [hbh]; simp; omega
          rw [hb', hbh, sliceFrom_append] at hheld
          rwa [← Option.some.inj hheld]
        obtain ⟨safe', held', hgo, hholds⟩ := trailingSafeLenFrom_holds htag n (by omega) (by omega) hlong'
        exact ⟨safe', held', by simp [hpre, hgo], hholds⟩
    · rw [if_neg hb]
      refine trailingSafeLenFrom_holds htag n (by omega) (by omega) fun b h hbh hp hs => ?_
      refine Nat.le_of_lt_succ ((hlong b h hbh hp hs).lt_of_ne fun heq => hb ?_)
      have hsize : size buf - (n + 1) = size b := by rw [hbh]; simp; omega
      rw [isCharBoundary, hsize, hbh, sliceFrom_append]
      rfl

theorem trailingSafeLen_holds {tag : List Char} (htag : 0 < size tag) (hlower : toAsciiLowercase tag = tag)
    (buf : List Char) :
    ∃ safe held, trailingSafeLen buf tag = some (size safe) ∧ Holds tag buf safe held := by
  rw [trailingSafeLen]
  by_cases hbuf : buf = []
  · subst hbuf
    refine ⟨[], [], rfl, rfl, List.nil_prefix, htag, fun b h hbh _ _ => ?_⟩
    simp [(List.append_eq_nil_iff.1 hbh.symm).2]
  · rw [if_neg hbuf, hlower]
    refine trailingSafeLenFrom_holds htag _ (by omega) (by omega) fun b h hbh _ hs => ?_
    have hle : size h ≤ size buf := by rw [hbh]; simp
    omega

theorem Holds.no_tag {tag buf safe held : List Char} (h : Holds tag buf safe held)
    (hno : ¬ tag <:+: toAsciiLowercase buf) (more : List Char) :
    ∀ b1 b2, safe = b1 ++ b2 → b2 ≠ [] → ¬ tag <+: toAsciiLowercase (b2 ++ (held ++ more)) := by
  rintro b1 b2 rfl hb2 hpre
  rw [← List.append_assoc, toAsciiLowercase_append] at hpre
  have hbuf : buf = b1 ++ (b2 ++ held) := by rw [h.parts, List.append_assoc]
  rcases List.prefix_or_prefix_of_prefix hpre (List.prefix_append _ _) with hin | hin
  · -- the tag ends within the buffer
    refine hno (hin.isInfix.trans ⟨toAsciiLowercase b1, [], ?_⟩)
    rw [hbuf, List.append_nil, toAsciiLowercase_append b1]
  · -- the tag reaches past the buffer: the code would have held back more
    have hsize : size (b2 ++ held) ≤ size tag := by
      obtain ⟨r, hr⟩ := hin
      rw [← hr]; simp
    have hne : size (b2 ++ held) ≠ size tag := fun heq => by
      obtain ⟨r, hr⟩ := hin
      have hr0 : r = [] := by
        by_contra hr'
        have hpos := size_pos hr'
        have hcount := congrArg size hr
        simp at hcount heq; omega
      refine hno ⟨toAsciiLowercase b1, [], ?_⟩
      rw [← hr, hr0, hbuf]; simp
    have hle := h.longest b1 _ hbuf hin (by omega)
    have hpos := size_pos hb2
    simp at hle; omega

/-! ## Feeding -/

structure Feeds (state : State) (buf out : List Char) (f : ThinkBlockFilter) (out' : List Char) : Prop where
  visible : ∀ more, out' ++ visibleFrom f.state 0 (f.pending ++ more) = out ++ visibleFrom state 0 (buf ++ more)
  begins : toAsciiLowercase f.pending <+: f.state.tag
  shorter : size f.pending < size f.state.tag

theorem State.tag_lower (s : State) : toAsciiLowercase s.tag = s.tag := by cases s <;> decide

theorem State.size_tag_pos (s : State) : 0 < size s.tag := size_pos s.tag_ne_nil

theorem feeds_of_holds {buf out safe held : List Char} (h : Holds s.tag buf safe held)
    (hno : ¬ s.tag <:+: toAsciiLowercase buf) : Feeds s buf out ⟨s, held⟩ (out ++ s.emit safe) := by
  refine ⟨fun more => ?_, h.begins, h.shorter⟩
  rw [h.parts, List.append_assoc safe, visibleFrom_append (h.no_tag hno more), List.append_assoc]

theorem feeds_of_tag {out out' : List Char} {f : ThinkBlockFilter} (ho : toAsciiLowercase o = s.tag)
    (hfirst : ∀ b1 b2, b = b1 ++ b2 → b2 ≠ [] → ¬ s.tag <+: toAsciiLowercase (b2 ++ o ++ a))
    (h : Feeds s.flip a (out ++ s.emit b) f out') : Feeds s (b ++ o ++ a) out f out' := by
  refine ⟨fun more => ?_, h.begins, h.shorter⟩
  have hnone : ∀ b1 b2, b = b1 ++ b2 → b2 ≠ [] → ¬ s.tag <+: toAsciiLowercase (b2 ++ (o ++ (a ++ more))) := by
    intro b1 b2 hb hb2 hpre
    have hread : toAsciiLowercase (b2 ++ o ++ a) <+: toAsciiLowercase (b2 ++ (o ++ (a ++ more))) :=
      ⟨toAsciiLowercase more, by simp⟩
    refine hfirst b1 b2 hb hb2 (List.prefix_of_prefix_length_le hpre hread ?_)
    rw [← ho]; simp; omega
  rw [h.visible, List.append_assoc b, List.append_assoc b, List.append_assoc o, visibleFrom_append hnone,
    visibleFrom_tag ho, List.append_assoc]

theorem feedLoop_feeds (state : State) (buf out : List Char) :
    ∃ f out', feedLoop state buf out = some (f, out') ∧ Feeds state buf out f out' := by
  cases hfind : find state.tag (toAsciiLowercase buf) with
  | none =>
    obtain ⟨safe, held, hlen, hholds⟩ := trailingSafeLen_holds state.size_tag_pos state.tag_lower buf
    have hto : sliceTo buf (size safe) = some safe := by rw [hholds.parts]; exact sliceTo_append safe held
    have hfrom : sliceFrom buf (size safe) = some held := by rw [hholds.parts]; exact sliceFrom_append safe held
    refine ⟨⟨state, held⟩, out ++ state.emit safe, ?_, feeds_of_holds hholds (find_eq_none.1 hfind)⟩
    cases state <;> simp only [State.tag] at hfind hlen <;> rw [feedLoop, hfind] <;>
      simp [hlen, hto, hfrom, State.emit]
  | some idx =>
    obtain ⟨b, o, a, rfl, ho, hto, hfrom, hfirst⟩ := find_tag hfind
    have hshort : a.length < (b ++ o ++ a).length := by
      have hpos := State.size_tag_pos state
      exact length_sliceFrom_lt hfrom (by omega)
    obtain ⟨f, out', hloop, hfeeds⟩ := feedLoop_feeds state.flip a (out ++ state.emit b)
    refine ⟨f, out', ?_, feeds_of_tag ho hfirst hfeeds⟩
    cases state with
    | outside =>
      simp only [State.tag] at hfind hfrom
      rw [feedLoop, hfind]
      simp only
      split
      · rename_i hb ha
        rw [hto, Option.some.injEq] at hb
        rw [hfrom, Option.some.injEq] at ha
        subst hb ha
        exact hloop
      · rename_i hnone
        exact absurd hfrom (hnone _ _ hto)
    | inside =>
      simp only [State.tag] at hfind hfrom
      rw [feedLoop, hfind]
      simp only
      split
      · rename_i ha
        rw [hfrom, Option.some.injEq] at ha
        subst ha
        simpa [State.emit, State.flip] using hloop
      · rename_i hnone
        rw [hfrom] at hnone
        cases hnone
termination_by buf.length

theorem feedAll_feeds : ∀ (chunks : List (List Char)) (f : ThinkBlockFilter), toAsciiLowercase f.pending <+: f.state.tag →
    size f.pending < size f.state.tag →
    ∃ g out, feedAll f chunks = some (g, out) ∧ Feeds f.state (f.pending ++ chunks.flatten) [] g out
  | [], f, hbegins, hshorter => ⟨f, [], rfl, fun more => by simp, hbegins, hshorter⟩
  | chunk :: chunks, f, _, _ => by
    obtain ⟨g, out, hfeed, hg⟩ := feedLoop_feeds f.state (f.pending ++ chunk) []
    obtain ⟨g', out', hrest, hg'⟩ := feedAll_feeds chunks g hg.begins hg.shorter
    refine ⟨g', out ++ out', by simp [feedAll, feed, hfeed, hrest], fun more => ?_, hg'.begins, hg'.shorter⟩
    rw [List.append_assoc, hg'.visible more]
    have hhere := hg.visible (chunks.flatten ++ more)
    simpa using hhere

theorem flush_eq {f : ThinkBlockFilter} (hshorter : size f.pending < size f.state.tag) :
    (flush f).2 = visibleFrom f.state 0 f.pending := by
  have hno : ∀ b1 b2, f.pending = b1 ++ b2 → b2 ≠ [] → ¬ f.state.tag <+: toAsciiLowercase (b2 ++ []) := by
    rintro b1 b2 hb - ⟨r, hr⟩
    have hcount := congrArg size hr
    have hparts := congrArg size hb
    simp at hcount hparts; omega
  have hvisible := visibleFrom_append hno
  rw [List.append_nil] at hvisible
  rw [hvisible]
  rcases f with ⟨_ | _, pending⟩ <;> simp [flush, State.emit, visibleFrom]

/-- **A reply is filtered the same in whatever pieces it comes.**  Each call has a value and holds back less than the tag
it waits for; what the calls and the final flush pass on is the reply without its blocks, which a single call passes on as
well. -/
theorem filtered_eq (chunks : List (List Char)) :
    ∃ f out g out', feedAll {} chunks = some (f, out) ∧ size f.pending < size f.state.tag ∧
      feed {} chunks.flatten = some (g, out') ∧ size g.pending < size g.state.tag ∧
      out ++ (flush f).2 = withoutThink chunks.flatten ∧ out' ++ (flush g).2 = withoutThink chunks.flatten := by
  have hstart : size ({} : ThinkBlockFilter).pending < size ({} : ThinkBlockFilter).state.tag := State.size_tag_pos _
  obtain ⟨f, out, hf, hfeeds⟩ := feedAll_feeds chunks {} List.nil_prefix hstart
  obtain ⟨g, out', hg, hfeeds'⟩ := feedLoop_feeds .outside chunks.flatten []
  refine ⟨f, out, g, out', hf, hfeeds.shorter, hg, hfeeds'.shorter, ?_, ?_⟩
  · simpa [flush_eq hfeeds.shorter, withoutThink] using hfeeds.visible []
  · simpa [flush_eq hfeeds'.shorter, withoutThink] using hfeeds'.visible []

example : withoutThink "a<Think>x</THINK>b<think>c".toList = "ab".toList := by decide

end ThinkFilter
end Execlaw
