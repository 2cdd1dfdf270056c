import Execlaw.Json
import Execlaw.Wire
import Mathlib.Data.List.Basic
/-!
# JsonWrite — JSON values as text

The compact text of a value, as `serde_json::to_string` writes it.  A text is the text of one value only (`write_inj`),
as long as numbers are written in the letters of numbers.
-/
namespace Json

open Wire (hexDigit)

def escape (c : Char) : List Char :=
  if c = '"' then ['\\', '"']
  else if c = '\\' then ['\\', '\\']
  else if c = '\x08' then ['\\', 'b']
  else if c = '\x0c' then ['\\', 'f']
  else if c = '\n' then ['\\', 'n']
  else if c = '\r' then ['\\', 'r']
  else if c = '\t' then ['\\', 't']
  else if c.toNat < 0x20 then ['\\', 'u', '0', '0', hexDigit (c.toNat / 16), hexDigit (c.toNat % 16)]
  else [c]

def writeStr (s : String) : List Char := '"' :: (s.toList.flatMap escape ++ ['"'])

def comma (index : Nat) : List Char := if index > 0 then [','] else []

mutual
def write : Json → List Char
  | .null => "null".toList
  | .bool b => if b then "true".toList else "false".toList
  | .num text => text.toList
  | .str s => writeStr s
  | .arr items => '[' :: (writeItems 0 items ++ [']'])
  | .obj members => '\x7b' :: (writeMembers 0 members ++ ['\x7d'])

def writeItems (index : Nat) : List Json → List Char
  | [] => []
  | v :: items => comma index ++ write v ++ writeItems (index + 1) items

def writeMembers (index : Nat) : List (String × Json) → List Char
  | [] => []
  | (key, v) :: members => comma index ++ writeStr key ++ ':' :: write v ++ writeMembers (index + 1) members
end

theorem induct {P : Json → Prop} (null : P .null) (bool : ∀ b, P (.bool b)) (num : ∀ text, P (.num text))
    (str : ∀ s, P (.str s)) (arr : ∀ items, (∀ v ∈ items, P v) → P (.arr items))
    (obj : ∀ members, (∀ m ∈ members, P m.2) → P (.obj members)) : ∀ v, P v
  | .null => null
  | .bool b => bool b
  | .num text => num text
  | .str s => str s
  | .arr items => arr items fun v _ => induct null bool num str arr obj v
  | .obj members => obj members fun m _ => induct null bool num str arr obj m.2

termination_by v => sizeOf v
decreasing_by
  · have hlt := List.sizeOf_lt_of_mem ‹v ∈ items›
    simp only [Json.arr.sizeOf_spec]; omega
  · have hlt := List.sizeOf_lt_of_mem ‹m ∈ members›
    have hsnd : sizeOf m.2 < sizeOf m := by cases m; simp only [Prod.mk.sizeOf_spec]; omega
    simp only [Json.obj.sizeOf_spec]; omega

/-! ## Values -/

def numberLetters : List Char := "0123456789+-.eE".toList

/-- **A `serde_json` value**: numbers in their letters, and no key twice in an object. -/
inductive Value : Json → Prop
  | null : Value .null
  | bool (b : Bool) : Value (.bool b)
  | num {text : String} (hne : text ≠ "") (h : ∀ c ∈ text.toList, c ∈ numberLetters) : Value (.num text)
  | str (s : String) : Value (.str s)
  | arr {items : List Json} (h : ∀ v ∈ items, Value v) : Value (.arr items)
  | obj {members : List (String × Json)} (hkeys : (members.map Prod.fst).Nodup) (h : ∀ m ∈ members, Value m.2) :
      Value (.obj members)

/-! ## Reading a text back -/

def Closed (r : List Char) : Prop := ∀ c ∈ r.head?, c ∉ numberLetters

variable {r r' a b : List Char} {v w : Json} {index : Nat}

theorem closed_cons {c : Char} (h : c ∉ numberLetters) : Closed (c :: r) := by
  simpa [Closed] using h

theorem letters_append_inj : ∀ {a b : List Char}, (∀ c ∈ a, c ∈ numberLetters) → (∀ c ∈ b, c ∈ numberLetters) → Closed r →
    Closed r' → a ++ r = b ++ r' → a = b ∧ r = r'
  | [], [], _, _, _, _, h => ⟨rfl, h⟩
  | [], d :: b, _, hb, hr, _, h => by
    obtain rfl : r = d :: (b ++ r') := h
    exact absurd (hb d (by simp)) (hr d (by simp))
  | c :: a, [], ha, _, _, hr', h => by
    obtain rfl : c :: (a ++ r) = r' := h
    exact absurd (ha c (by simp)) (hr' c (by simp))
  | c :: a, d :: b, ha, hb, hr, hr', h => by
    obtain ⟨hcd, h⟩ := List.cons.inj h
    obtain ⟨hab, hrr⟩ := letters_append_inj (fun c hc => ha c (by simp [hc])) (fun c hc => hb c (by simp [hc])) hr hr' h
    exact ⟨by rw [hcd, hab], hrr⟩

def unescape : List Char → Option (Char × List Char)
  | '\\' :: 'u' :: '0' :: '0' :: x :: y :: r =>
    some (Char.ofNat (16 * ("0123456789abcdef".toList.idxOf x) + "0123456789abcdef".toList.idxOf y), r)
  | '\\' :: 'b' :: r => some ('\x08', r)
  | '\\' :: 'f' :: r => some ('\x0c', r)
  | '\\' :: 'n' :: r => some ('\n', r)
  | '\\' :: 'r' :: r => some ('\r', r)
  | '\\' :: 't' :: r => some ('\t', r)
  | '\\' :: c :: r => some (c, r)
  | c :: r => some (c, r)
  | [] => none

theorem unescape_escape (c : Char) (r : List Char) : unescape (escape c ++ r) = some (c, r) := by
  unfold escape
  split_ifs with h1 h2 h3 h4 h5 h6 h7 h8
  · subst h1; rfl
  · subst h2; rfl
  · subst h3; rfl
  · subst h4; rfl
  · subst h5; rfl
  · subst h6; rfl
  · subst h7; rfl
  · have hall : ∀ n : Fin 32, 16 * "0123456789abcdef".toList.idxOf (hexDigit (n / 16)) +
        "0123456789abcdef".toList.idxOf (hexDigit (n % 16)) = n := by decide
    have hn := hall ⟨c.toNat, h8⟩
    simp only at hn
    simp only [unescape, List.cons_append, List.nil_append]
    rw [hn, Char.ofNat_toNat]
  · rw [List.singleton_append, unescape.eq_def]
    split <;> simp_all

theorem escape_append_inj {c d : Char} (h : escape c ++ a = escape d ++ b) : c = d ∧ a = b := by
  have heq : some (c, a) = some (d, b) := by rw [← unescape_escape c a, h, unescape_escape]
  simpa using heq

theorem escape_quote (c : Char) (a : List Char) : escape c ++ a ≠ '"' :: b := by
  intro h
  unfold escape at h
  split_ifs at h <;> simp at h
  simp_all

theorem writeStr_append_inj {s t : String} (h : writeStr s ++ r = writeStr t ++ r') : s = t ∧ r = r' := by
  have hchars : ∀ (a b : List Char), a.flatMap escape ++ '"' :: r = b.flatMap escape ++ '"' :: r' → a = b ∧ r = r' := by
    intro a
    induction a with
    | nil =>
      rintro (_ | ⟨d, b⟩) h
      · simpa using h
      · rw [List.flatMap_cons, List.append_assoc] at h
        exact absurd h.symm (escape_quote d _)
    | cons c a ih =>
      rintro (_ | ⟨d, b⟩) h
      · rw [List.flatMap_cons, List.append_assoc] at h
        exact absurd h (escape_quote c _)
      · rw [List.flatMap_cons, List.flatMap_cons, List.append_assoc, List.append_assoc] at h
        obtain ⟨hcd, hrest⟩ := escape_append_inj h
        obtain ⟨hab, hr⟩ := ih b hrest
        exact ⟨by rw [hcd, hab], hr⟩
  obtain ⟨hst, hr⟩ := hchars s.toList t.toList (by simpa [writeStr] using h)
  exact ⟨String.toList_injective hst, hr⟩

/-! ## What a text begins with -/

def kindOf (c : Char) : Nat :=
  if c = 'n' then 0 else if c = 't' then 1 else if c = 'f' then 2 else if c = '"' then 4 else if c = '[' then 5
  else if c = '\x7b' then 6 else if c ∈ numberLetters then 3 else 7

def kind : Json → Nat
  | .null => 0
  | .bool true => 1
  | .bool false => 2
  | .num _ => 3
  | .str _ => 4
  | .arr _ => 5
  | .obj _ => 6

theorem Value.write_eq_cons (h : Value v) : ∃ c t, write v = c :: t ∧ kindOf c = kind v := by
  cases h with
  | null | str s => exact ⟨_, _, rfl, rfl⟩
  | bool b => cases b <;> exact ⟨_, _, rfl, rfl⟩
  | @num text hne hletters =>
    obtain ⟨c, t, ht⟩ := List.exists_cons_of_ne_nil (show text.toList ≠ [] by simpa using hne)
    have hc : c ∈ numberLetters := hletters c (by simp [ht])
    have hall : numberLetters.all (kindOf · == 3) := by decide
    have hkind : kindOf c = 3 := by simpa using List.all_eq_true.1 hall c hc
    exact ⟨c, t, by rw [write, ht], hkind⟩
  | arr _ | obj _ _ => exact ⟨_, _, by rw [write], rfl⟩

theorem Value.kind_eq (hv : Value v) (hw : Value w) (h : write v ++ r = write w ++ r') : kind v = kind w := by
  obtain ⟨c, t, hc, hk⟩ := hv.write_eq_cons
  obtain ⟨d, u, hd, hk'⟩ := hw.write_eq_cons
  rw [hc, hd] at h
  rw [← hk, ← hk', (List.cons.inj h).1]

theorem Value.write_ne_close (hv : Value v) : write v ++ r ≠ ']' :: r' := by
  intro h
  obtain ⟨c, t, hc, hk⟩ := hv.write_eq_cons
  rw [hc] at h
  cases (List.cons.inj h).1
  have h7 : kindOf ']' = 7 := by decide
  rw [h7] at hk
  cases v with
  | bool b => cases b <;> simp [kind] at hk
  | _ => simp [kind] at hk

/-! ## One text, one value -/

/-- `v` is read back from any text it begins. -/
def ReadsBack (v : Json) : Prop :=
  ∀ ⦃w : Json⦄ ⦃r r' : List Char⦄, Value v → Value w → Closed r → Closed r' → write v ++ r = write w ++ r' → v = w ∧ r = r'

theorem closed_writeItems (items : List Json) (r : List Char) : Closed (writeItems (index + 1) items ++ ']' :: r) := by
  cases items <;> exact closed_cons (by decide)

theorem closed_writeMembers (members : List (String × Json)) (r : List Char) :
    Closed (writeMembers (index + 1) members ++ '\x7d' :: r) := by
  cases members <;> exact closed_cons (by decide)

theorem close_ne_writeItems {items : List Json} (hv : Value v) (h : ']' :: r = writeItems index (v :: items) ++ r') :
    False := by
  rw [writeItems, List.append_assoc, List.append_assoc] at h
  cases index with
  | zero => exact hv.write_ne_close h.symm
  | succ n => simp [comma] at h

theorem close_ne_writeMembers {key : String} {members : List (String × Json)}
    (h : '\x7d' :: r = writeMembers index ((key, v) :: members) ++ r') : False := by
  rw [writeMembers] at h
  cases index with
  | zero => simp [comma, writeStr] at h
  | succ n => simp [comma] at h

theorem writeItems_append_inj : ∀ {items items' : List Json} {index : Nat} {r r' : List Char},
    (∀ v ∈ items, ReadsBack v) → (∀ v ∈ items, Value v) → (∀ v ∈ items', Value v) →
    writeItems index items ++ ']' :: r = writeItems index items' ++ ']' :: r' → items = items' ∧ r = r'
  | [], [], _, _, _, _, _, _, h => by simpa [writeItems] using h
  | [], w :: items', _, _, _, _, _, hv', h => (close_ne_writeItems (hv' w (by simp)) h).elim
  | v :: items, [], _, _, _, _, hv, _, h => (close_ne_writeItems (hv v (by simp)) h.symm).elim
  | v :: items, w :: items', index, r, r', hback, hv, hv', h => by
    have hread := hback v (by simp) (hv v (by simp)) (hv' w (by simp)) (@closed_writeItems index items r)
      (@closed_writeItems index items' r')
    obtain ⟨rfl, hrest⟩ := hread (by simpa [writeItems] using h)
    obtain ⟨rfl, hr⟩ := writeItems_append_inj (fun v hm => hback v (by simp [hm])) (fun v hm => hv v (by simp [hm]))
      (fun v hm => hv' v (by simp [hm])) hrest
    exact ⟨rfl, hr⟩

theorem writeMembers_append_inj : ∀ {members members' : List (String × Json)} {index : Nat} {r r' : List Char},
    (∀ m ∈ members, ReadsBack m.2) → (∀ m ∈ members, Value m.2) → (∀ m ∈ members', Value m.2) →
    writeMembers index members ++ '\x7d' :: r = writeMembers index members' ++ '\x7d' :: r' → members = members' ∧ r = r'
  | [], [], _, _, _, _, _, _, h => by simpa [writeMembers] using h
  | [], (_, _) :: _, _, _, _, _, _, _, h => (close_ne_writeMembers h).elim
  | (_, _) :: _, [], _, _, _, _, _, _, h => (close_ne_writeMembers h.symm).elim
  | (key, v) :: members, (key', w) :: members', index, r, r', hback, hv, hv', h => by
    have hkey : writeStr key ++ (':' :: (write v ++ (writeMembers (index + 1) members ++ '\x7d' :: r))) =
        writeStr key' ++ (':' :: (write w ++ (writeMembers (index + 1) members' ++ '\x7d' :: r'))) := by
      simpa [writeMembers] using h
    obtain ⟨rfl, hcolon⟩ := writeStr_append_inj hkey
    have hread := hback (key, v) (by simp) (hv (key, v) (by simp)) (hv' (key, w) (by simp))
      (@closed_writeMembers index members r) (@closed_writeMembers index members' r')
    obtain ⟨rfl, hrest⟩ := hread (List.cons.inj hcolon).2
    obtain ⟨rfl, hr⟩ := writeMembers_append_inj (fun m hm => hback m (by simp [hm])) (fun m hm => hv m (by simp [hm]))
      (fun m hm => hv' m (by simp [hm])) hrest
    exact ⟨rfl, hr⟩

theorem readsBack (v : Json) : ReadsBack v := by
  induction v using induct with
  | null =>
    intro w r r' hv hw _ _ h
    have hk := hv.kind_eq hw h
    cases w with
    | null => exact ⟨rfl, by simpa [write] using h⟩
    | bool b => cases b <;> cases hk
    | _ => cases hk
  | bool b =>
    intro w r r' hv hw _ _ h
    have hk := hv.kind_eq hw h
    cases w with
    | bool b' => cases b <;> cases b' <;> first | exact ⟨rfl, by simpa [write] using h⟩ | cases hk
    | _ => cases b <;> cases hk
  | num text =>
    intro w r r' hv hw hr hr' h
    have hk := hv.kind_eq hw h
    cases w with
    | num text' =>
      cases hv with | num _ hletters =>
      cases hw with | num _ hletters' =>
      rw [write, write] at h
      obtain ⟨htext, hrr⟩ := letters_append_inj hletters hletters' hr hr' h
      exact ⟨by rw [String.toList_injective htext], hrr⟩
    | bool b => cases b <;> cases hk
    | _ => cases hk
  | str s =>
    intro w r r' hv hw _ _ h
    have hk := hv.kind_eq hw h
    cases w with
    | str t =>
      rw [write, write] at h
      obtain ⟨rfl, hr⟩ := writeStr_append_inj h
      exact ⟨rfl, hr⟩
    | bool b => cases b <;> cases hk
    | _ => cases hk
  | arr items ih =>
    intro w r r' hv hw _ _ h
    have hk := hv.kind_eq hw h
    cases w with
    | arr items' =>
      cases hv with | arr hitems =>
      cases hw with | arr hitems' =>
      obtain ⟨rfl, hr⟩ := writeItems_append_inj ih hitems hitems' (by simpa [write] using h)
      exact ⟨rfl, hr⟩
    | bool b => cases b <;> cases hk
    | _ => cases hk
  | obj members ih =>
    intro w r r' hv hw _ _ h
    have hk := hv.kind_eq hw h
    cases w with
    | obj members' =>
      cases hv with | obj _ hmembers =>
      cases hw with | obj _ hmembers' =>
      obtain ⟨rfl, hr⟩ := writeMembers_append_inj ih hmembers hmembers' (by simpa [write] using h)
      exact ⟨rfl, hr⟩
    | bool b => cases b <;> cases hk
    | _ => cases hk

theorem write_inj (hv : Value v) (hw : Value w) (h : write v = write w) : v = w :=
  (@readsBack v w [] [] hv hw (by simp [Closed]) (by simp [Closed]) (by rw [h])).1

end Json
