import Mathlib.Data.List.Basic
/-!
# JsonGrammar — the syntax of JSON (RFC 8259)

A text is the list of its characters.  `Derives` has the rules of values, objects and arrays, with the whitespace that
may stand around each part; strings and numbers have their own.  `'\x7b'` and `'\x7d'` are the braces.  A value that
begins with a brace is an object (`object_of_value`).
-/
namespace JsonGrammar

def Ws (t : List Char) : Prop := ∀ c ∈ t, c ∈ [' ', '\t', '\n', '\r']

def Unescaped (c : Char) : Prop := 0x20 ≤ c.toNat ∧ c ≠ '"' ∧ c ≠ '\\'

def HexDigit (c : Char) : Prop := c ∈ "0123456789abcdefABCDEF".toList

inductive Chars : List Char → Prop
  | nil : Chars []
  | unescaped {c : Char} {t : List Char} (hc : Unescaped c) (h : Chars t) : Chars (c :: t)
  | escaped {c : Char} {t : List Char} (hc : c ∈ "\"\\/bfnrt".toList) (h : Chars t) : Chars ('\\' :: c :: t)
  | unicode {c₁ c₂ c₃ c₄ : Char} {t : List Char} (h₁ : HexDigit c₁) (h₂ : HexDigit c₂) (h₃ : HexDigit c₃)
      (h₄ : HexDigit c₄) (h : Chars t) : Chars ('\\' :: 'u' :: c₁ :: c₂ :: c₃ :: c₄ :: t)

def Str (t : List Char) : Prop := ∃ u, Chars u ∧ t = '"' :: (u ++ ['"'])

def Digits (t : List Char) : Prop := t ≠ [] ∧ ∀ c ∈ t, c.isDigit = true

def IntPart (t : List Char) : Prop := t = ['0'] ∨ Digits t ∧ t.head? ≠ some '0'

def FracPart (t : List Char) : Prop := t = [] ∨ ∃ d, Digits d ∧ t = '.' :: d

def ExpPart (t : List Char) : Prop :=
  t = [] ∨ ∃ e sign d, e ∈ ['e', 'E'] ∧ sign ∈ [[], ['-'], ['+']] ∧ Digits d ∧ t = e :: (sign ++ d)

def Number (t : List Char) : Prop :=
  ∃ minus int frac exp, minus ∈ [[], ['-']] ∧ IntPart int ∧ FracPart frac ∧ ExpPart exp ∧
    t = minus ++ (int ++ (frac ++ exp))

inductive Nonterminal
  | value
  | element
  | elements
  | member
  | members
  | object

inductive Derives : Nonterminal → List Char → Prop
  | literal {t : List Char} (h : t ∈ ["false".toList, "null".toList, "true".toList]) : Derives .value t
  | number {t : List Char} (h : Number t) : Derives .value t
  | string {t : List Char} (h : Str t) : Derives .value t
  | emptyArray {w : List Char} (h : Ws w) : Derives .value ('[' :: (w ++ [']']))
  | array {t : List Char} (h : Derives .elements t) : Derives .value ('[' :: (t ++ [']']))
  | objectValue {t : List Char} (h : Derives .object t) : Derives .value t
  | element {w v w' : List Char} (hw : Ws w) (h : Derives .value v) (hw' : Ws w') :
      Derives .element (w ++ (v ++ w'))
  | lastElement {e : List Char} (h : Derives .element e) : Derives .elements e
  | moreElements {e t : List Char} (h : Derives .element e) (ht : Derives .elements t) :
      Derives .elements (e ++ ',' :: t)
  | emptyObject {w : List Char} (h : Ws w) : Derives .object ('\x7b' :: (w ++ ['\x7d']))
  | object {t : List Char} (h : Derives .members t) : Derives .object ('\x7b' :: (t ++ ['\x7d']))
  | member {w k w' e : List Char} (hw : Ws w) (hk : Str k) (hw' : Ws w') (h : Derives .element e) :
      Derives .member (w ++ (k ++ (w' ++ ':' :: e)))
  | lastMember {m : List Char} (h : Derives .member m) : Derives .members m
  | moreMembers {m t : List Char} (h : Derives .member m) (ht : Derives .members t) :
      Derives .members (m ++ ',' :: t)

abbrev Object (t : List Char) : Prop := Derives .object t

/-! ## The letters of a number -/

def NumberLetter (c : Char) : Prop := c.isDigit = true ∨ c ∈ "+-.eE".toList

variable {t : List Char}

theorem IntPart.letters (h : IntPart t) : ∀ c ∈ t, NumberLetter c := by
  rcases h with rfl | ⟨h, -⟩
  · exact List.forall_mem_singleton.2 (.inl rfl)
  · exact fun c hc => .inl (h.2 c hc)

theorem FracPart.letters (h : FracPart t) : ∀ c ∈ t, NumberLetter c := by
  rcases h with rfl | ⟨d, h, rfl⟩
  · exact List.forall_mem_nil _
  · exact List.forall_mem_cons.2 ⟨.inr (by decide), fun c hc => .inl (h.2 c hc)⟩

theorem ExpPart.letters (h : ExpPart t) : ∀ c ∈ t, NumberLetter c := by
  rcases h with rfl | ⟨e, sign, d, he, hsign, h, rfl⟩
  · exact List.forall_mem_nil _
  · have hletter : e ∈ "+-.eE".toList := by
      rcases List.mem_pair.1 he with rfl | rfl <;> decide
    have hsigns : ∀ c ∈ sign, c ∈ "+-.eE".toList := by
      simp only [List.mem_cons, List.not_mem_nil, or_false] at hsign
      rcases hsign with rfl | rfl | rfl
      · exact List.forall_mem_nil _
      · exact List.forall_mem_singleton.2 (by decide)
      · exact List.forall_mem_singleton.2 (by decide)
    refine List.forall_mem_cons.2 ⟨.inr hletter, List.forall_mem_append.2 ⟨?_, ?_⟩⟩
    · exact fun c hc => .inr (hsigns c hc)
    · exact fun c hc => .inl (h.2 c hc)

theorem Number.letters (h : Number t) : ∀ c ∈ t, NumberLetter c := by
  obtain ⟨minus, int, frac, exp, hminus, hint, hfrac, hexp, rfl⟩ := h
  have hsign : ∀ c ∈ minus, NumberLetter c := by
    rcases List.mem_pair.1 hminus with rfl | rfl
    · exact List.forall_mem_nil _
    · exact List.forall_mem_singleton.2 (.inr (by decide))
  simp only [List.forall_mem_append]
  exact ⟨hsign, hint.letters, hfrac.letters, hexp.letters⟩

theorem not_numberLetter {c : Char} (hdigit : c.isDigit = false) (hsign : c ∉ "+-.eE".toList) : ¬ NumberLetter c := by
  rintro (h | h)
  · rw [hdigit] at h
    cases h
  · exact hsign h

/-! ## Braces -/

theorem object_of_value (h : Derives .value ('\x7b' :: t)) : Object ('\x7b' :: t) := by
  cases h with
  | literal h => revert h; simp
  | number h => exact absurd (h.letters '\x7b' List.mem_cons_self) (not_numberLetter (by decide) (by decide))
  | string h =>
    obtain ⟨u, -, hu⟩ := h
    cases hu
  | objectValue h => exact h

end JsonGrammar
