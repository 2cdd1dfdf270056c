import Execlaw.AutomationGraphs
import Execlaw.JsonWrite
import Execlaw.Utf8Text
/-!
# Templates — `render_template` of `server/src/automation_runtime.rs`

A template is scanned once from the left, by bytes.  What it renders to is its own pieces with the values of its tokens
in their places (`renderTemplate_eq`): a value is never scanned, and no slice cuts a character.
-/
namespace Execlaw
namespace Templates

open Utf8Text

/-! ## The code -/

def lookupPath (path : List Char) (state : NodeState) : Option Json :=
  match path.splitOn '.' with
  | [] => none
  | first :: parts => do
    let cur ← (state.find? (·.1 == String.ofList first)).map Prod.snd
    parts.foldlM (fun cur p => cur.get (String.ofList p)) cur

def valueToString : Json → List Char
  | .str s => s.toList
  | .null => "null".toList
  | .bool b => if b then "true".toList else "false".toList
  | .num text => text.toList
  | .arr items => (Json.arr items).write
  | .obj members => (Json.obj members).write

def findClose (b : List UInt8) (j : Nat) : Option Nat :=
  if j + 1 < b.length then
    if b[j]? = some 0x7d ∧ b[j + 1]? = some 0x7d then some j else findClose b (j + 1)
  else none
termination_by b.length - j

/-- The end of the character at `i`. -/
def chEnd (s : List Char) (i : Nat) : Nat := (([1, 2, 3, 4].map (i + ·)).find? (isCharBoundary s)).getD (size s)

theorem le_findClose {b : List UInt8} {j e : Nat} (h : findClose b j = some e) : j ≤ e := by
  rw [findClose] at h
  split_ifs at h
  · exact (Option.some.inj h).le
  · exact (Nat.le_succ j).trans (le_findClose h)
termination_by b.length - j

theorem lt_chEnd {s : List Char} {i : Nat} (hi : i < size s) : i < chEnd s i := by
  unfold chEnd
  cases h : ([1, 2, 3, 4].map (i + ·)).find? (isCharBoundary s) with
  | none => exact hi
  | some e =>
    have hmem := List.mem_of_find?_eq_some h
    simp at hmem ⊢; omega

/-- Where the token that begins at `i` has its closing braces. -/
def tokenEnd (s : List Char) (i : Nat) : Option Nat :=
  if i + 1 < size s ∧ (bytes s)[i]? = some 0x7b ∧ (bytes s)[i + 1]? = some 0x7b then findClose (bytes s) (i + 2) else none

/-- The value of the token from `i` to the braces at `e`, or the token itself. -/
def tokenText (s : List Char) (state : NodeState) (i e : Nat) : Option (List Char) :=
  -- `from_utf8(..).unwrap_or("")`
  let path := trim (String.ofList ((slice s (i + 2) e).getD []))
  match lookupPath path.toList state with
  | some v => some (valueToString v)
  | none => slice s i (e + 2)

theorem lt_tokenEnd {s : List Char} {i e : Nat} (h : tokenEnd s i = some e) : i + 2 ≤ e := by
  unfold tokenEnd at h
  split_ifs at h
  exact le_findClose h

def renderLoop (s : List Char) (state : NodeState) (i : Nat) (out : List Char) : Option (List Char) :=
  if _hi : i < size s then
    match _h : tokenEnd s i with
    | some e => (tokenText s state i e).bind fun text => renderLoop s state (e + 2) (out ++ text)
    | none => (slice s i (chEnd s i)).bind fun ch => renderLoop s state (chEnd s i) (out ++ ch)
  else some out
termination_by size s - i
decreasing_by
  · have hlt := lt_tokenEnd _h
    omega
  · have hlt := lt_chEnd _hi
    omega

def renderTemplate (s : List Char) (state : NodeState) : Option (List Char) := renderLoop s state 0 []

/-! ## The pieces of a template -/

inductive Piece where
  | char (c : Char)
  /-- What stands between the braces. -/
  | token (inner : List Char)

def cutClose : List Char → Option (List Char × List Char)
  | [] => none
  | c :: r =>
    if c = '\x7d' ∧ r.head? = some '\x7d' then some ([], r.tail)
    else (cutClose r).map fun cut => (c :: cut.1, cut.2)

theorem cutClose_eq_some : ∀ {r inner after : List Char}, cutClose r = some (inner, after) →
    r = inner ++ '\x7d' :: '\x7d' :: after
  | [], _, _, h => by cases h
  | c :: r, inner, after, h => by
    rw [cutClose] at h
    split_ifs at h with hclose
    · obtain ⟨rfl, hr⟩ := hclose
      obtain ⟨r, rfl⟩ := List.head?_eq_some_iff.1 hr
      cases h
      rfl
    · obtain ⟨⟨inner', after'⟩, hcut, heq⟩ := Option.map_eq_some_iff.1 h
      cases heq
      rw [cutClose_eq_some hcut]
      rfl

/-- **The pieces of a template**, from the left: two opening braces and the nearest closing ones are a token, everything
else is itself. -/
def decompose : List Char → List Piece
  | [] => []
  | c :: r =>
    if c = '\x7b' ∧ r.head? = some '\x7b' then
      match _h : cutClose r.tail with
      | some (inner, after) => .token inner :: decompose after
      | none => .char c :: decompose r
    else .char c :: decompose r
termination_by r => r.length
decreasing_by
  · have hlen := congrArg List.length (cutClose_eq_some _h)
    simp at hlen ⊢; omega
  · simp
  · simp

def Piece.source : Piece → List Char
  | .char c => [c]
  | .token inner => '\x7b' :: '\x7b' :: (inner ++ ['\x7d', '\x7d'])

def resolve (inner : List Char) (state : NodeState) : Option Json := lookupPath (trim (String.ofList inner)).toList state

def Piece.text (state : NodeState) : Piece → List Char
  | .char c => [c]
  | .token inner => ((resolve inner state).map valueToString).getD (Piece.token inner).source

def substitute (pieces : List Piece) (state : NodeState) : List Char := pieces.flatMap (·.text state)

/-! ## Bytes of braces -/

variable {s p r : List Char} {c : Char} {state : NodeState}

theorem toNat_eq_iff {b : Char} : c.toNat = b.toNat ↔ c = b :=
  ⟨fun h => Char.ext (UInt32.toNat_inj.1 h), fun h => by rw [h]⟩

theorem byte_eq_iff {b : Char} (hb : b.toNat < 128) :
    (bytes (p ++ r))[size p]? = some (UInt8.ofNat b.toNat) ↔ r.head? = some b := by
  have hget := getElem?_bytes_append p r 0
  rw [Nat.add_zero] at hget
  have hnat : (UInt8.ofNat b.toNat).toNat = b.toNat := by rw [UInt8.toNat_ofNat']; omega
  rw [hget]
  cases r with
  | nil => simp [bytes]
  | cons c r =>
    have hlen : 0 < (String.utf8EncodeChar c).length := by simp [c.utf8Size_pos]
    rw [bytes_cons, List.getElem?_append_left hlen, List.head?_cons, Option.some.injEq]
    constructor
    · intro h
      exact toNat_eq_iff.1 ((eq_of_ascii_byte (by omega) h).2.trans hnat)
    · rintro rfl
      unfold String.utf8EncodeChar
      have hv : c.val.toNat ≤ 0x7f := Nat.le_of_lt_succ hb
      simp only [hv, if_true]
      rfl

theorem byte_inside {b : Char} {k : Nat} (hb : b.toNat < 128) (hk : 0 < k) (hc : k < c.utf8Size) :
    (bytes (p ++ c :: r))[size p + k]? ≠ some (UInt8.ofNat b.toNat) := by
  have hnat : (UInt8.ofNat b.toNat).toNat = b.toNat := by rw [UInt8.toNat_ofNat']; omega
  rw [getElem?_bytes_append, bytes_cons, List.getElem?_append_left (by simpa using hc)]
  intro h
  have := (eq_of_ascii_byte (by omega) h).1
  omega

/-! ## The closing braces -/

theorem findClose_skip {b : List UInt8} {j : Nat} : ∀ n : Nat, (∀ k < n, b[j + k]? ≠ some 0x7d) →
    findClose b j = findClose b (j + n)
  | 0, _ => rfl
  | n + 1, h => by
    have hn : b[j + n]? ≠ some 0x7d := h n (by omega)
    rw [findClose_skip n fun k hk => h k (by omega), findClose]
    by_cases hlt : j + n + 1 < b.length
    · rw [if_pos hlt, if_neg (by simp [hn])]
      rfl
    · have hnone : findClose b (j + (n + 1)) = none := by
        rw [findClose, if_neg (by omega)]
      rw [if_neg hlt, hnone]

theorem findClose_eq : ∀ (r p : List Char),
    findClose (bytes (p ++ r)) (size p) = (cutClose r).map fun cut => size p + size cut.1
  | [], p => by rw [findClose, if_neg (by simp)]; rfl
  | c :: r, p => by
    have hhere := @byte_eq_iff p (c :: r) '\x7d' (by decide)
    have hnext := @byte_eq_iff (p ++ [c]) r '\x7d' (by decide)
    have ih := findClose_eq r (p ++ [c])
    have hsplit : p ++ [c] ++ r = p ++ c :: r := by simp
    have hstep : size (p ++ ['\x7d']) = size p + 1 := by rw [size_append]; rfl
    rw [hsplit] at hnext ih
    simp only [List.head?_cons, Option.some.injEq] at hhere
    rw [cutClose]
    by_cases hclose : c = '\x7d' ∧ r.head? = some '\x7d'
    · obtain ⟨rfl, hr⟩ := hclose
      have h1 : (bytes (p ++ '\x7d' :: r))[size p + 1]? = some 0x7d := hstep ▸ hnext.2 hr
      have hlt : size p + 1 < (bytes (p ++ '\x7d' :: r)).length := (List.getElem?_eq_some_iff.1 h1).1
      rw [findClose, if_pos hlt, if_pos ⟨hhere.2 rfl, h1⟩, if_pos ⟨rfl, hr⟩]
      rfl
    · have hskip : findClose (bytes (p ++ c :: r)) (size p) = findClose (bytes (p ++ c :: r)) (size p + c.utf8Size) := by
        by_cases hc : c = '\x7d'
        · subst hc
          have h1 : (bytes (p ++ '\x7d' :: r))[size p + 1]? ≠ some 0x7d := fun h =>
            hclose ⟨rfl, hnext.1 (hstep ▸ h)⟩
          have hone : ('\x7d' : Char).utf8Size = 1 := rfl
          rw [findClose, hone]
          by_cases hlt : size p + 1 < (bytes (p ++ '\x7d' :: r)).length
          · rw [if_pos hlt, if_neg fun h => h1 h.2]
          · rw [if_neg hlt, findClose, if_neg (by omega)]
        · refine findClose_skip _ fun k hk => ?_
          rcases Nat.eq_zero_or_pos k with rfl | hpos
          · exact fun h => hc (hhere.1 h)
          · exact @byte_inside p r c '\x7d' k (by decide) hpos hk
      rw [hskip, if_neg hclose, Option.map_map]
      simpa [Function.comp_def, Nat.add_assoc] using ih

theorem chEnd_eq (p : List Char) (c : Char) (r : List Char) : chEnd (p ++ c :: r) (size p) = size p + c.utf8Size := by
  have hin : ∀ k, 0 < k → k < c.utf8Size → isCharBoundary (p ++ c :: r) (size p + k) = false := fun k hk hc =>
    Bool.eq_false_iff.2 (not_isCharBoundary hk hc)
  have hend : isCharBoundary (p ++ c :: r) (size p + c.utf8Size) = true := by
    have hslice : sliceFrom (p ++ c :: r) (size p + c.utf8Size) = some r := by
      simpa using sliceFrom_append (p ++ [c]) r
    rw [isCharBoundary, hslice]
    rfl
  have hpos := c.utf8Size_pos
  have hle := c.utf8Size_le_four
  have hcases : c.utf8Size = 1 ∨ c.utf8Size = 2 ∨ c.utf8Size = 3 ∨ c.utf8Size = 4 := by omega
  rcases hcases with hn | hn | hn | hn <;> rw [hn] at hin hend ⊢ <;> simp [chEnd, hin, hend]

theorem slice_char (p : List Char) (c : Char) (r : List Char) :
    slice (p ++ c :: r) (size p) (chEnd (p ++ c :: r) (size p)) = some [c] := by
  rw [chEnd_eq]
  simpa using slice_append p [c] r

theorem tokenEnd_eq (p : List Char) (c : Char) (r : List Char) : tokenEnd (p ++ c :: r) (size p) =
    if c = '\x7b' ∧ r.head? = some '\x7b' then (cutClose r.tail).map fun cut => size p + 2 + size cut.1 else none := by
  have hhere := @byte_eq_iff p (c :: r) '\x7b' (by decide)
  simp only [List.head?_cons, Option.some.injEq] at hhere
  have hnext := @byte_eq_iff (p ++ ['\x7b']) r '\x7b' (by decide)
  have hstep : size (p ++ ['\x7b']) = size p + 1 := by rw [size_append]; rfl
  rw [hstep, List.append_assoc] at hnext
  unfold tokenEnd
  by_cases hc : c = '\x7b'
  · subst hc
    by_cases hr : r.head? = some '\x7b'
    · obtain ⟨r, rfl⟩ := List.head?_eq_some_iff.1 hr
      have hclose := findClose_eq r (p ++ ['\x7b', '\x7b'])
      have hsize : size (p ++ ['\x7b', '\x7b']) = size p + 2 := by rw [size_append]; rfl
      rw [hsize, List.append_assoc] at hclose
      have hlt : size p + 1 < size (p ++ '\x7b' :: '\x7b' :: r) := by
        simp only [size_append, size_cons]
        have hone : ('\x7b' : Char).utf8Size = 1 := rfl
        omega
      rw [if_pos ⟨hlt, hhere.2 rfl, hnext.2 hr⟩, if_pos ⟨rfl, hr⟩]
      exact hclose
    · rw [if_neg fun h => hr (hnext.1 h.2.2), if_neg fun h => hr h.2]
  · rw [if_neg fun h => hc (hhere.1 h.2.1), if_neg fun h => hc h.1]

theorem tokenText_eq (p inner after : List Char) :
    tokenText (p ++ '\x7b' :: '\x7b' :: (inner ++ '\x7d' :: '\x7d' :: after)) state (size p)
      (size p + 2 + size inner) = some ((Piece.token inner).text state) := by
  have hbraces : size ['\x7b', '\x7b'] = 2 := rfl
  have hends : size ['\x7d', '\x7d'] = 2 := rfl
  have hinner : slice (p ++ '\x7b' :: '\x7b' :: (inner ++ '\x7d' :: '\x7d' :: after)) (size p + 2)
      (size p + 2 + size inner) = some inner := by
    have h := slice_append (p ++ ['\x7b', '\x7b']) inner ('\x7d' :: '\x7d' :: after)
    rw [size_append, hbraces] at h
    simpa using h
  have hwhole : slice (p ++ '\x7b' :: '\x7b' :: (inner ++ '\x7d' :: '\x7d' :: after)) (size p)
      (size p + 2 + size inner + 2) = some (Piece.token inner).source := by
    have h := slice_append p (['\x7b', '\x7b'] ++ inner ++ ['\x7d', '\x7d']) after
    rw [size_append, size_append, hbraces, hends] at h
    simpa [Piece.source, Nat.add_assoc] using h
  simp only [tokenText, hinner, hwhole, Option.getD_some, Piece.text, resolve]
  cases lookupPath (trim (String.ofList inner)).toList state <;> rfl

theorem renderLoop_token {i e : Nat} {out : List Char} (hi : i < size s) (h : tokenEnd s i = some e) :
    renderLoop s state i out = (tokenText s state i e).bind fun text => renderLoop s state (e + 2) (out ++ text) := by
  rw [renderLoop, dif_pos hi]
  split
  · rename_i e' h'
    rw [Option.mem_unique h h']
  · rename_i h'
    exact absurd (h.symm.trans h') (by simp)

theorem renderLoop_char {i : Nat} {out : List Char} (hi : i < size s) (h : tokenEnd s i = none) :
    renderLoop s state i out =
      (slice s i (chEnd s i)).bind fun ch => renderLoop s state (chEnd s i) (out ++ ch) := by
  rw [renderLoop, dif_pos hi]
  split
  · rename_i e h'
    exact absurd (h.symm.trans h') (by simp)
  · rfl

theorem renderLoop_eq (r p out : List Char) :
    renderLoop (p ++ r) state (size p) out = some (out ++ substitute (decompose r) state) := by
  induction h : r.length using Nat.strong_induction_on generalizing r p out with
  | _ n ih =>
    subst h
    cases r with
    | nil => rw [renderLoop]; simp [decompose, substitute]
    | cons c r =>
      have hlt : size p < size (p ++ c :: r) := by
        have := c.utf8Size_pos
        simp; omega
      have hchar : tokenEnd (p ++ c :: r) (size p) = none →
          renderLoop (p ++ c :: r) state (size p) out = some (out ++ substitute (.char c :: decompose r) state) := by
        intro hnone
        have hrest := ih r.length (by simp) r (p ++ [c]) (out ++ [c]) rfl
        have hstep : size (p ++ [c]) = size p + c.utf8Size := by simp
        rw [hstep] at hrest
        rw [renderLoop_char hlt hnone, slice_char, chEnd_eq]
        simpa [substitute, Piece.text] using hrest
      have hend := tokenEnd_eq p c r
      rw [decompose]
      by_cases hopen : c = '\x7b' ∧ r.head? = some '\x7b'
      · rw [if_pos hopen] at hend ⊢
        split
        · rename_i inner after hcut
          obtain ⟨rfl, hr⟩ := hopen
          obtain ⟨r, rfl⟩ := List.head?_eq_some_iff.1 hr
          obtain rfl := cutClose_eq_some hcut
          rw [hcut] at hend
          have hlen : after.length < ('\x7b' :: '\x7b' :: (inner ++ '\x7d' :: '\x7d' :: after)).length := by
            simp; omega
          have hrest := ih _ hlen after (p ++ (Piece.token inner).source) (out ++ (Piece.token inner).text state) rfl
          have hsize : size (p ++ (Piece.token inner).source) = size p + 2 + size inner + 2 := by
            have hbrace : ('\x7b' : Char).utf8Size = 1 ∧ ('\x7d' : Char).utf8Size = 1 := ⟨rfl, rfl⟩
            simp only [Piece.source, size_append, size_cons, size_nil, hbrace.1, hbrace.2]
            omega
          have hsplit : p ++ (Piece.token inner).source ++ after =
              p ++ '\x7b' :: '\x7b' :: (inner ++ '\x7d' :: '\x7d' :: after) := by simp [Piece.source]
          rw [hsize, hsplit] at hrest
          rw [renderLoop_token hlt hend, tokenText_eq]
          simpa [substitute] using hrest
        · rename_i hcut
          rw [hcut] at hend
          exact hchar hend
      · rw [if_neg hopen] at hend ⊢
        exact hchar hend

/-! ## Rendering -/

theorem flatMap_source_decompose (s : List Char) : (decompose s).flatMap Piece.source = s := by
  induction s using decompose.induct with
  | case1 => simp [decompose]
  | case2 c r hopen inner after hcut ih =>
    have hdec : decompose (c :: r) = .token inner :: decompose after := by
      rw [decompose, if_pos hopen]
      split <;> simp_all
    obtain ⟨rfl, hr⟩ := hopen
    obtain ⟨r, rfl⟩ := List.head?_eq_some_iff.1 hr
    obtain rfl := cutClose_eq_some hcut
    rw [hdec, List.flatMap_cons, ih]
    simp [Piece.source]
  | case3 c r hopen hcut ih =>
    have hdec : decompose (c :: r) = .char c :: decompose r := by
      rw [decompose, if_pos hopen]
      split <;> simp_all
    rw [hdec, List.flatMap_cons, ih]
    rfl
  | case4 c r hopen ih =>
    rw [decompose, if_neg hopen, List.flatMap_cons, ih]
    rfl

theorem Piece.text_congr {other : NodeState} {piece : Piece}
    (h : ∀ inner, piece = .token inner → resolve inner other = resolve inner state) :
    piece.text other = piece.text state := by
  cases piece with
  | char c => rfl
  | token inner => rw [text, text, h inner rfl]

theorem Piece.text_eq_source {piece : Piece} (h : ∀ inner, piece = .token inner → resolve inner state = none) :
    piece.text state = piece.source := by
  cases piece with
  | char c => rfl
  | token inner => rw [text, h inner rfl]; rfl

/-- **A template renders to its own pieces**, each token whose path resolves replaced by its value: the loop ends, no
slice cuts a character, a template none of whose tokens resolves is returned, and the state counts for what the tokens
of the template name only. -/
theorem renderTemplate_eq (s : List Char) (state : NodeState) :
    renderTemplate s state = some (substitute (decompose s) state) ∧
    (decompose s).flatMap Piece.source = s ∧
    ((∀ inner, .token inner ∈ decompose s → resolve inner state = none) → renderTemplate s state = some s) ∧
    ∀ other, (∀ inner, .token inner ∈ decompose s → resolve inner other = resolve inner state) →
      renderTemplate s other = renderTemplate s state := by
  have heq : ∀ state, renderTemplate s state = some (substitute (decompose s) state) := fun _ => renderLoop_eq s [] []
  refine ⟨heq state, flatMap_source_decompose s, fun hnone => ?_, fun other hsame => ?_⟩
  · rw [heq, substitute, List.flatMap_congr fun piece hp => Piece.text_eq_source fun inner h => hnone inner (h ▸ hp),
      flatMap_source_decompose]
  · rw [heq, heq]
    exact congrArg some (List.flatMap_congr fun piece hp => Piece.text_congr fun inner h => hsame inner (h ▸ hp))

end Templates
end Execlaw
