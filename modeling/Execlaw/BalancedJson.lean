import Execlaw.JsonGrammar
import Execlaw.Utf8Text
import Mathlib.Data.Int.Order.Basic
/-!
# BalancedJson — an object inside prose (`model-adapter/src/extract.rs`)

A byte scanner looks for the brace that closes the one it starts at, past strings and their escapes; the first
candidate the target type accepts is the answer.  Positions are bytes of the whole text, and a slice inside a character
has no value, so that an answer says no slice cut one.

On a JSON object the scanner stops at its last byte (`matchingBraceEnd_object`), whatever follows.
-/
namespace Execlaw.BalancedJson

open Utf8Text JsonGrammar

/-- `str::match_indices` of a character, from position `i` on. -/
def matchIndices (c : Char) (i : Nat) : List Char → List Nat
  | [] => []
  | d :: t => if d = c then i :: matchIndices c (i + d.utf8Size) t else matchIndices c (i + d.utf8Size) t

/-- `depth` is an `i32`, which no text below 2 GiB takes past its range. -/
structure Scanner where
  depth : Int
  inString : Bool
  escape : Bool

def Scanner.step (s : Scanner) (b : UInt8) : Option Scanner :=
  if s.inString then
    if s.escape then some { s with escape := false }
    else if b = 0x5C then some { s with escape := true }
    else if b = 0x22 then some { s with inString := false }
    else some s
  else if b = 0x22 then some { s with inString := true }
  else if b = 0x7B then some { s with depth := s.depth + 1 }
  else if b = 0x7D then
    if s.depth - 1 = 0 then none else some { s with depth := s.depth - 1 }
  else some s

def scan (s : Scanner) (i : Nat) : List UInt8 → Option Nat
  | [] => none
  | b :: bs =>
    match s.step b with
    | none => some i
    | some s' => scan s' (i + 1) bs

def matchingBraceEnd (bs : List UInt8) (start : Nat) : Option Nat :=
  if bs[start]? ≠ some 0x7B then none else scan ⟨0, false, false⟩ start (bs.drop start)

/-- `serde_json::from_str::<T>`: whatever type it reads, it reads JSON only. -/
structure Target where
  fromStr : List Char → Bool
  isJson : ∀ t, fromStr t = true → Derives .element t

def findAmong (T : Target) (s : List Char) : List Nat → Option (Option (List Char))
  | [] => some none
  | pos :: rest =>
    match matchingBraceEnd (bytes s) pos with
    | none => findAmong T s rest
    | some e =>
      match slice s pos (e + 1) with
      | none => none
      | some t => if T.fromStr t then some (some t) else findAmong T s rest

def findBalancedJson (T : Target) (s : List Char) : Option (Option (List Char)) :=
  findAmong T s (matchIndices '\x7b' 0 s)

example : matchingBraceEnd (bytes "é \x7b\"a\": \"\x7d\\\"\"\x7d \x7d".toList) 3 = some 14 := by decide

/-! ## Bytes and characters -/

variable {s s' s'' : Scanner} {t u : List Char} {c : Char} {d : Int}

def Passes (s : Scanner) (t : List Char) (s' : Scanner) : Prop := (bytes t).foldlM Scanner.step s = some s'

theorem Passes.nil : Passes s [] s := rfl

theorem Passes.append (h : Passes s t s') (hu : Passes s' u s'') : Passes s (t ++ u) s'' := by
  rw [Passes, bytes_append, List.foldlM_append, h]
  exact hu

theorem Passes.cons (h : Passes s [c] s') (hu : Passes s' u s'') : Passes s (c :: u) s'' := h.append hu

theorem scan_append : ∀ {xs : List UInt8} {s : Scanner}, xs.foldlM Scanner.step s = some s' →
    ∀ (i : Nat) (bs : List UInt8), scan s i (xs ++ bs) = scan s' (i + xs.length) bs
  | [], s, h, i, bs => by
    cases h
    rfl
  | x :: xs, s, h, i, bs => by
    obtain ⟨s₁, hstep, h⟩ := Option.bind_eq_some_iff.1 h
    rw [List.cons_append, scan, hstep]
    refine (scan_append h (i + 1) bs).trans ?_
    rw [List.length_cons, Nat.add_assoc, Nat.add_comm 1]

theorem Passes.scan (h : Passes s t s') (i : Nat) (bs : List UInt8) :
    scan s i (bytes t ++ bs) = BalancedJson.scan s' (i + size t) bs := by
  rw [scan_append h, length_bytes]

theorem byte_ne {b : UInt8} {a : Char} (ha : a.toNat < 128) (hc : c ≠ a) (hb : b ∈ String.utf8EncodeChar c) :
    b ≠ UInt8.ofNat a.toNat := by
  rintro rfl
  obtain ⟨k, hk⟩ := List.mem_iff_getElem?.1 hb
  have hnat : (UInt8.ofNat a.toNat).toNat = a.toNat := by rw [UInt8.toNat_ofNat']; omega
  exact hc (Char.toNat_inj.1 ((eq_of_ascii_byte (by omega) hk).2.trans hnat))

theorem passes_of_forall (h : ∀ b ∈ String.utf8EncodeChar c, s.step b = some s) : Passes s [c] s := by
  rw [Passes, bytes_cons, show bytes [] = [] from rfl, List.append_nil]
  generalize String.utf8EncodeChar c = bs at h
  induction bs with
  | nil => rfl
  | cons b bs ih =>
    rw [List.forall_mem_cons] at h
    rw [List.foldlM_cons, h.1]
    exact ih h.2

theorem passes_outside (hc : c ∉ ['"', '\x7b', '\x7d']) : Passes ⟨d, false, false⟩ [c] ⟨d, false, false⟩ := by
  simp only [List.mem_cons, List.not_mem_nil, or_false, not_or] at hc
  refine passes_of_forall fun b hb => ?_
  have hquote : b ≠ 0x22 := byte_ne (by decide) hc.1 hb
  have hopen : b ≠ 0x7B := byte_ne (by decide) hc.2.1 hb
  have hclose : b ≠ 0x7D := byte_ne (by decide) hc.2.2 hb
  simp [Scanner.step, hquote, hopen, hclose]

theorem passes_inside (hquote : c ≠ '"') (hslash : c ≠ '\\') : Passes ⟨d, true, false⟩ [c] ⟨d, true, false⟩ := by
  refine passes_of_forall fun b hb => ?_
  have hquote : b ≠ 0x22 := byte_ne (by decide) hquote hb
  have hslash : b ≠ 0x5C := byte_ne (by decide) hslash hb
  simp [Scanner.step, hquote, hslash]

theorem passes_escaped (hc : c ∈ "\"\\/bfnrtu".toList) : Passes ⟨d, true, false⟩ ['\\', c] ⟨d, true, false⟩ := by
  have hall : ("\"\\/bfnrtu".toList.all fun c => c.utf8Size == 1) = true := by decide
  have hsize : c.utf8Size = 1 := beq_iff_eq.1 (List.all_eq_true.1 hall c hc)
  obtain ⟨b, hb⟩ := List.length_eq_one_iff.1 ((String.length_utf8EncodeChar c).trans hsize)
  have hslash : String.utf8EncodeChar '\\' = [0x5C] := by decide
  rw [Passes, bytes_cons, bytes_cons, hslash, hb]
  rfl

theorem passes_chars (h : Chars t) : Passes ⟨d, true, false⟩ t ⟨d, true, false⟩ := by
  induction h with
  | nil => exact .nil
  | unescaped hc _ ih => exact (passes_inside hc.2.1 hc.2.2).cons ih
  | escaped hc _ ih => exact (passes_escaped (List.mem_append_left ['u'] hc)).append ih
  | @unicode c₁ c₂ c₃ c₄ u h₁ h₂ h₃ h₄ _ ih =>
    have hhex : ∀ {c}, HexDigit c → Passes ⟨d, true, false⟩ [c] ⟨d, true, false⟩ := by
      intro c hc
      refine passes_inside ?_ ?_ <;> rintro rfl <;> exact absurd hc (by unfold HexDigit; decide)
    have hu : Passes ⟨d, true, false⟩ ['\\', 'u'] ⟨d, true, false⟩ := passes_escaped (by decide)
    exact hu.append ((hhex h₁).cons ((hhex h₂).cons ((hhex h₃).cons ((hhex h₄).cons ih))))

theorem passes_str (h : Str t) : Passes ⟨d, false, false⟩ t ⟨d, false, false⟩ := by
  obtain ⟨u, hu, rfl⟩ := h
  have hopen : Passes ⟨d, false, false⟩ ['"'] ⟨d, true, false⟩ := rfl
  have hclose : Passes ⟨d, true, false⟩ ['"'] ⟨d, false, false⟩ := rfl
  exact hopen.cons ((passes_chars hu).append hclose)

theorem passes_plain (h : ∀ c ∈ t, c ∉ ['"', '\x7b', '\x7d']) : Passes ⟨d, false, false⟩ t ⟨d, false, false⟩ := by
  induction t with
  | nil => exact .nil
  | cons c t ih =>
    rw [List.forall_mem_cons] at h
    exact (passes_outside h.1).cons (ih h.2)

theorem passes_ws (h : Ws t) : Passes ⟨d, false, false⟩ t ⟨d, false, false⟩ := by
  refine passes_plain fun c hc => ?_
  have hall : ([' ', '\t', '\n', '\r'].all fun c => decide (c ∉ ['"', '\x7b', '\x7d'])) = true := by decide
  exact of_decide_eq_true (List.all_eq_true.1 hall c (h c hc))

theorem passes_literal (h : t ∈ ["false".toList, "null".toList, "true".toList]) :
    Passes ⟨d, false, false⟩ t ⟨d, false, false⟩ := by
  have hall : (["false".toList, "null".toList, "true".toList].all fun t => t.all fun c =>
      decide (c ∉ ['"', '\x7b', '\x7d'])) = true := by decide
  exact passes_plain fun c hc => of_decide_eq_true (List.all_eq_true.1 (List.all_eq_true.1 hall t h) c hc)

theorem passes_number (h : Number t) : Passes ⟨d, false, false⟩ t ⟨d, false, false⟩ := by
  refine passes_plain fun c hc hmem => ?_
  have hletter := h.letters c hc
  simp only [List.mem_cons, List.not_mem_nil, or_false] at hmem
  rcases hmem with rfl | rfl | rfl <;> exact not_numberLetter (by decide) (by decide) hletter

theorem passes_braces (hd : 1 ≤ d) (h : Passes ⟨d + 1, false, false⟩ t ⟨d + 1, false, false⟩) :
    Passes ⟨d, false, false⟩ ('\x7b' :: (t ++ ['\x7d'])) ⟨d, false, false⟩ := by
  have hopen : Passes ⟨d, false, false⟩ ['\x7b'] ⟨d + 1, false, false⟩ := rfl
  have hclose : Passes ⟨d + 1, false, false⟩ ['\x7d'] ⟨d, false, false⟩ := by
    have hstep : Scanner.step ⟨d + 1, false, false⟩ 0x7D = some ⟨d, false, false⟩ := by
      have hdepth : d + 1 - 1 = d := Int.add_sub_cancel d 1
      show (if d + 1 - 1 = 0 then none else some (⟨d + 1 - 1, false, false⟩ : Scanner)) = _
      rw [hdepth, if_neg (by omega)]
    rw [Passes, show bytes ['\x7d'] = [0x7D] from rfl, List.foldlM_cons, hstep]
    rfl
  exact hopen.cons (h.append hclose)

theorem passes_derives {n : Nonterminal} (h : Derives n t) :
    ∀ d : Int, 1 ≤ d → Passes ⟨d, false, false⟩ t ⟨d, false, false⟩ := by
  have hcomma : ∀ {a : Char} {d : Int}, a ∈ [',', ':', '[', ']'] → Passes ⟨d, false, false⟩ [a] ⟨d, false, false⟩ := by
    intro a d ha
    have hall : ([',', ':', '[', ']'].all fun c => decide (c ∉ ['"', '\x7b', '\x7d'])) = true := by decide
    exact passes_outside (of_decide_eq_true (List.all_eq_true.1 hall a ha))
  induction h with
  | literal h => exact fun d _ => passes_literal h
  | number h => exact fun d _ => passes_number h
  | string h => exact fun d _ => passes_str h
  | emptyArray h => exact fun d _ => (hcomma (by decide)).cons ((passes_ws h).append (hcomma (by decide)))
  | array _ ih => exact fun d hd => (hcomma (by decide)).cons ((ih d hd).append (hcomma (by decide)))
  | objectValue _ ih | lastElement _ ih | lastMember _ ih => exact ih
  | element hw _ hw' ih => exact fun d hd => (passes_ws hw).append ((ih d hd).append (passes_ws hw'))
  | moreElements _ _ ih ihs => exact fun d hd => (ih d hd).append ((hcomma (by decide)).cons (ihs d hd))
  | emptyObject h => exact fun d hd => passes_braces hd (passes_ws h)
  | object _ ih => exact fun d hd => passes_braces hd (ih (d + 1) (by omega))
  | member hw hk hw' _ ih =>
    exact fun d hd => (passes_ws hw).append ((passes_str hk).append ((passes_ws hw').append
      ((hcomma (by decide)).cons (ih d hd))))
  | moreMembers _ _ ih ihs => exact fun d hd => (ih d hd).append ((hcomma (by decide)).cons (ihs d hd))

/-! ## The closing brace -/

theorem object_inside {o : List Char} (h : Object o) :
    ∃ u, o = '\x7b' :: (u ++ ['\x7d']) ∧ Passes ⟨1, false, false⟩ u ⟨1, false, false⟩ := by
  cases h with
  | @emptyObject w h => exact ⟨w, rfl, passes_ws h⟩
  | @object u h => exact ⟨u, rfl, passes_derives h 1 (by decide)⟩

theorem drop_bytes (p t : List Char) : (bytes (p ++ t)).drop (size p) = bytes t := by
  rw [bytes_append, List.drop_left' (length_bytes p)]

theorem matchingBraceEnd_object {o : List Char} (h : Object o) (p r : List Char) :
    matchingBraceEnd (bytes (p ++ (o ++ r))) (size p) = some (size p + size o - 1) := by
  obtain ⟨u, rfl, hu⟩ := object_inside h
  have hopen : Passes ⟨0, false, false⟩ ['\x7b'] ⟨1, false, false⟩ := rfl
  have hfirst : (bytes (p ++ ('\x7b' :: (u ++ ['\x7d']) ++ r)))[size p]? = some 0x7B := by
    rw [← Nat.add_zero (size p), getElem?_bytes_append]
    rfl
  have hclose : String.utf8EncodeChar '\x7d' = [0x7D] := by decide
  have hsize : size ('\x7b' :: (u ++ ['\x7d'])) = size ('\x7b' :: u) + 1 := by
    simp only [size_cons, size_append, size_nil]
    rfl
  rw [matchingBraceEnd, if_neg (not_not.2 hfirst), drop_bytes, hsize]
  have htext : bytes ('\x7b' :: (u ++ ['\x7d']) ++ r) = bytes ('\x7b' :: u) ++ (0x7D :: bytes r) := by
    simp only [bytes_cons, bytes_append, List.cons_append, List.append_assoc, hclose]
    rfl
  rw [htext, (hopen.cons hu).scan]
  rfl

theorem eq_of_step_eq_none {b : UInt8} (h : s.step b = none) : b = 0x7D := by
  unfold Scanner.step at h
  split_ifs at h with _ _ _ _ _ _ hb
  exact hb

theorem scan_eq_some : ∀ {bs : List UInt8} {s : Scanner} {i e : Nat}, scan s i bs = some e →
    ∃ k, e = i + k ∧ bs[k]? = some 0x7D
  | b :: bs, s, i, e, h => by
    rw [scan] at h
    split at h
    · next hstep =>
      cases h
      exact ⟨0, rfl, congrArg some (eq_of_step_eq_none hstep)⟩
    · obtain ⟨k, rfl, hk⟩ := scan_eq_some h
      exact ⟨k + 1, by omega, hk⟩

theorem slice_of_matchingBraceEnd {p t : List Char} {e : Nat}
    (h : matchingBraceEnd (bytes (p ++ '\x7b' :: t)) (size p) = some e) :
    ∃ q r, '\x7b' :: t = '\x7b' :: (q ++ ['\x7d']) ++ r ∧ e + 1 = size p + size ('\x7b' :: (q ++ ['\x7d'])) ∧
      slice (p ++ '\x7b' :: t) (size p) (e + 1) = some ('\x7b' :: (q ++ ['\x7d'])) := by
  rw [matchingBraceEnd] at h
  split_ifs at h with hfirst
  rw [drop_bytes] at h
  obtain ⟨k, rfl, hk⟩ := scan_eq_some h
  obtain ⟨q, c, r, hq, hsize, hc⟩ := exists_char_of_byte (by decide) hk
  obtain rfl : c = '\x7d' := Char.toNat_inj.1 hc
  -- the brace found is not the one in front
  cases q with
  | nil => exact absurd (List.cons.inj hq).1 (by decide)
  | cons c q =>
    obtain ⟨rfl, rfl⟩ := List.cons.inj hq
    have hend : size p + k + 1 = size p + size ('\x7b' :: (q ++ ['\x7d'])) := by
      rw [← hsize]
      simp only [size_cons, size_append, size_nil, show '\x7d'.utf8Size = 1 from rfl]
      omega
    have htext : '\x7b' :: (q ++ '\x7d' :: r) = '\x7b' :: (q ++ ['\x7d']) ++ r := by simp
    refine ⟨q, r, htext, hend, ?_⟩
    rw [hend]
    show slice (p ++ '\x7b' :: (q ++ '\x7d' :: r)) _ _ = _
    rw [htext, ← List.append_assoc]
    exact slice_append _ _ _

/-! ## The first object -/

def Begins (T : Target) (o t : List Char) : Prop := Object o ∧ T.fromStr o = true ∧ o <+: t

def FirstObject (T : Target) (t o : List Char) : Prop :=
  ∃ p r, t = p ++ r ∧ Begins T o r ∧ ∀ p' r' o', t = p' ++ r' → Begins T o' r' → p.length ≤ p'.length

variable {T : Target} {o o' : List Char}

theorem Begins.brace (h : Begins T o t) : ∃ r, t = '\x7b' :: r := by
  obtain ⟨hobj, -, r, rfl⟩ := h
  obtain ⟨u, rfl, -⟩ := object_inside hobj
  exact ⟨_, rfl⟩

theorem Begins.matchingBraceEnd (h : Begins T o t) (p : List Char) :
    matchingBraceEnd (bytes (p ++ t)) (size p) = some (size p + size o - 1) := by
  obtain ⟨hobj, -, r, rfl⟩ := h
  exact matchingBraceEnd_object hobj p r

theorem Begins.slice (h : Begins T o t) (p : List Char) :
    slice (p ++ t) (size p) (size p + size o - 1 + 1) = some o := by
  obtain ⟨hobj, -, r, rfl⟩ := h
  obtain ⟨u, rfl, -⟩ := object_inside hobj
  have hpos : 0 < size ('\x7b' :: (u ++ ['\x7d'])) := size_pos (List.cons_ne_nil _ _)
  rw [show size p + size ('\x7b' :: (u ++ ['\x7d'])) - 1 + 1 = size p + size ('\x7b' :: (u ++ ['\x7d'])) by omega,
    ← List.append_assoc]
  exact slice_append _ _ _

theorem Begins.unique (h : Begins T o t) (h' : Begins T o' t) : o = o' := by
  have hend := (h.matchingBraceEnd []).symm.trans (h'.matchingBraceEnd [])
  have hslice := h.slice []
  rw [Option.some.inj hend, h'.slice []] at hslice
  exact (Option.some.inj hslice).symm

theorem FirstObject.unique (h : FirstObject T t o) (h' : FirstObject T t o') : o = o' := by
  obtain ⟨p, r, rfl, hb, hfirst⟩ := h
  obtain ⟨p', r', ht, hb', hfirst'⟩ := h'
  have hlen : p.length = p'.length := le_antisymm (hfirst p' r' o' ht hb') (hfirst' p r o rfl hb)
  obtain ⟨rfl, rfl⟩ := List.append_inj ht hlen
  exact hb.unique hb'

theorem FirstObject.here (h : Begins T o t) : FirstObject T t o :=
  ⟨[], t, rfl, h, fun _ _ _ _ _ => Nat.zero_le _⟩

theorem FirstObject.later (hno : ∀ o', ¬ Begins T o' (c :: t)) (h : FirstObject T t o) : FirstObject T (c :: t) o := by
  obtain ⟨p, r, rfl, hb, hfirst⟩ := h
  refine ⟨c :: p, r, rfl, hb, ?_⟩
  rintro (_ | ⟨c', p'⟩) r' o' ht hb'
  · exact absurd (ht ▸ hb') (hno o')
  · exact Nat.succ_le_succ (hfirst p' r' o' (List.cons.inj ht).2 hb')

theorem object_of_element {q : List Char} (h : Derives .element ('\x7b' :: (q ++ ['\x7d']))) :
    Object ('\x7b' :: (q ++ ['\x7d'])) := by
  have hws : ∀ {c : Char} {w : List Char}, Ws w → c ∈ w → c ≠ '\x7b' ∧ c ≠ '\x7d' := by
    intro c w hw hc
    have hall : ([' ', '\t', '\n', '\r'].all fun c => decide (c ≠ '\x7b' ∧ c ≠ '\x7d')) = true := by decide
    exact of_decide_eq_true (List.all_eq_true.1 hall c (hw c hc))
  generalize htext : '\x7b' :: (q ++ ['\x7d']) = x at h
  cases h with
  | @element w v w' hw hv hw' =>
    cases w with
    | cons c w => exact absurd (List.cons.inj htext).1.symm (hws hw List.mem_cons_self).1
    | nil =>
      cases v with
      | nil =>
        have hmem : '\x7b' ∈ w' := by
          rw [List.nil_append, List.nil_append] at htext
          exact htext ▸ List.mem_cons_self
        exact absurd rfl (hws hw' hmem).1
      | cons c v =>
        cases (List.cons.inj htext).1
        rcases List.eq_nil_or_concat w' with rfl | ⟨x, a, rfl⟩
        · rw [List.append_nil]
          exact object_of_value hv
        · have hlast := congrArg List.getLast? htext
          rw [List.nil_append, List.concat_eq_append, ← List.append_assoc, List.getLast?_concat,
            ← List.cons_append, List.getLast?_concat] at hlast
          cases hlast
          exact absurd rfl (hws hw' (by simp)).2

theorem findAmong_eq (T : Target) : ∀ p t : List Char,
    ∃ result, findAmong T (p ++ t) (matchIndices '\x7b' (size p) t) = some result ∧
      ((result = none ∧ ∀ q r o, t = q ++ r → ¬ Begins T o r) ∨ ∃ o, result = some o ∧ FirstObject T t o)
  | p, [] => by
    refine ⟨none, rfl, .inl ⟨rfl, fun q r o ht hb => ?_⟩⟩
    obtain ⟨rfl, rfl⟩ := List.append_eq_nil_iff.1 ht.symm
    obtain ⟨r, hr⟩ := hb.brace
    cases hr
  | p, c :: t => by
    -- what is found behind `c` is the answer when none begins at `c`
    obtain ⟨result, hrest, hfound⟩ := findAmong_eq T (p ++ [c]) t
    have hsize : size (p ++ [c]) = size p + c.utf8Size := by simp
    rw [List.append_assoc, List.singleton_append, hsize] at hrest
    have hpass : (∀ o, ¬ Begins T o (c :: t)) →
        (result = none ∧ ∀ q r o, c :: t = q ++ r → ¬ Begins T o r) ∨
          ∃ o, result = some o ∧ FirstObject T (c :: t) o := by
      intro hno
      rcases hfound with ⟨rfl, hnone⟩ | ⟨o, rfl, ho⟩
      · refine .inl ⟨rfl, ?_⟩
        rintro (_ | ⟨c', q⟩) r o ht
        · rw [List.nil_append] at ht
          exact ht ▸ hno o
        · exact hnone q r o (List.cons.inj ht).2
      · exact .inr ⟨o, rfl, ho.later hno⟩
    rw [matchIndices]
    by_cases hc : c = '\x7b'
    · subst hc
      rw [if_pos rfl, findAmong]
      cases hend : matchingBraceEnd (bytes (p ++ '\x7b' :: t)) (size p) with
      | none =>
        refine ⟨result, hrest, hpass fun o hb => ?_⟩
        rw [hb.matchingBraceEnd] at hend
        cases hend
      | some e =>
        obtain ⟨q, r, ht, he, hslice⟩ := slice_of_matchingBraceEnd hend
        simp only [hslice]
        by_cases hfrom : T.fromStr ('\x7b' :: (q ++ ['\x7d'])) = true
        · refine ⟨_, if_pos hfrom, .inr ⟨_, rfl, FirstObject.here ?_⟩⟩
          exact ⟨object_of_element (T.isJson _ hfrom), hfrom, r, ht.symm⟩
        · refine ⟨result, (if_neg hfrom).trans hrest, hpass fun o hb => hfrom ?_⟩
          -- one that begins here is the slice
          have ho := hb.slice p
          rw [hb.matchingBraceEnd] at hend
          rw [Option.some.inj hend, hslice] at ho
          exact Option.some.inj ho ▸ hb.2.1
    · rw [if_neg hc]
      refine ⟨result, hrest, hpass fun o hb => ?_⟩
      obtain ⟨r, hr⟩ := hb.brace
      exact hc (List.cons.inj hr).1

/-- **Embedded JSON is found exactly**: no slice cuts a character; the answer is the object text at the first position
where one that the target accepts begins, and there is no answer when there is no such position; and the scanner stops
at the last byte of any object, wherever it begins and whatever follows. -/
theorem find_balanced_json_exact (T : Target) (s : List Char) :
    (∃ result, findBalancedJson T s = some result ∧ (∀ o, result = some o ↔ FirstObject T s o) ∧
      (result = none ↔ ∀ p r o, s = p ++ r → ¬ Begins T o r)) ∧
    ∀ o p r, Object o → matchingBraceEnd (bytes (p ++ (o ++ r))) (size p) = some (size p + size o - 1) := by
  refine ⟨?_, fun o p r h => matchingBraceEnd_object h p r⟩
  obtain ⟨result, hfind, hresult⟩ := findAmong_eq T [] s
  refine ⟨result, hfind, ?_, ?_⟩
  · intro o
    rcases hresult with ⟨rfl, hnone⟩ | ⟨o', rfl, ho'⟩
    · refine iff_of_false (by simp) ?_
      rintro ⟨p, r, ht, hb, -⟩
      exact hnone p r o ht hb
    · rw [Option.some.injEq]
      constructor
      · rintro rfl
        exact ho'
      · exact ho'.unique
  · rcases hresult with ⟨rfl, hnone⟩ | ⟨o', rfl, p, r, ht, hb, -⟩
    · exact iff_of_true rfl hnone
    · exact iff_of_false (by simp) fun hnone => hnone p r o' ht hb

/-- The object `\x7b"a": 1\x7d`. -/
def one : List Char := "\x7b\"a\": 1\x7d".toList

theorem object_one : Object one :=
  .object (.lastMember (@Derives.member [] "\"a\"".toList [] " 1".toList (List.forall_mem_nil _)
    ⟨['a'], .unescaped ⟨by decide, by decide, by decide⟩ .nil, rfl⟩ (List.forall_mem_nil _)
    (@Derives.element [' '] ['1'] [] (List.forall_mem_singleton.2 (by decide))
      (.number ⟨[], ['1'], [], [], by decide, .inr ⟨⟨by decide, List.forall_mem_singleton.2 (by decide)⟩, by decide⟩,
        .inl rfl, .inl rfl, rfl⟩) (List.forall_mem_nil _))))

def onlyOne : Target where
  fromStr t := decide (t = one)
  isJson t ht := by
    have helement : Derives .element ([] ++ (one ++ [])) :=
      .element (List.forall_mem_nil _) (.objectValue object_one) (List.forall_mem_nil _)
    rwa [List.nil_append, List.append_nil, ← of_decide_eq_true ht] at helement

/-- A brace in prose is passed over, and the object behind it is found. -/
theorem one_is_found : FirstObject onlyOne ("a \x7b b ".toList ++ one ++ " \x7d".toList) one := by
  obtain ⟨⟨result, hfind, hfirst, -⟩, -⟩ :=
    find_balanced_json_exact onlyOne ("a \x7b b ".toList ++ one ++ " \x7d".toList)
  have heval : findBalancedJson onlyOne ("a \x7b b ".toList ++ one ++ " \x7d".toList) = some (some one) := by decide
  exact (hfirst one).1 (Option.mem_unique hfind heval)

end Execlaw.BalancedJson
