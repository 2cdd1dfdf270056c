import Execlaw.InformationLabels
import Execlaw.Needles
import Execlaw.Utf8Text
import Mathlib.Data.List.Destutter
import Mathlib.Data.List.TakeWhile
/-!
# OutboundScan — credentials in what goes out

Before a text leaves, it is searched for credentials: five detectors, each a loop that looks for a key, tests what
follows it and goes on behind it.  No detector jumps over a credential (`scan_complete`): it fires exactly where the text
holds its pattern, so neither text before nor text behind can hide one.
-/
namespace Execlaw
namespace OutboundScan

open Utf8Text Needles

/-! ## The code -/

abbrev Key := { key : List Char // key ≠ [] }

def isAsciiWhitespace (c : Char) : Bool := c ∈ [' ', '\t', '\n', '\x0c', '\r']

def separator (c : Char) : Bool := isAsciiWhitespace c || c ∈ ['=', ':', '\'', '"']

def valueChar (c : Char) : Bool := !isAsciiWhitespace c && c ∉ [',', ';', '}', '"', '\'']

def tokenChar (c : Char) : Bool := c.isAlphanum || c ∈ ['.', '_', '-', '~']

def keyChar (c : Char) : Bool := c.isAlphanum || c ∈ ['_', '-']

def scanBehind (key : Key) (hit : List Char → Bool) (rest : List Char) : Option Bool :=
  match find key.1 rest with
  | none => some false
  | some index =>
    match _h : sliceFrom rest (index + size key.1) with
    | none => none
    | some rest => if hit rest then some true else scanBehind key hit rest
termination_by rest.length
decreasing_by exact length_sliceFrom_lt _h (Nat.lt_of_lt_of_le (size_pos key.2) (Nat.le_add_left _ _))

def ASSIGNMENT_KEYS : List Key :=
  [⟨"api_key".toList, by decide⟩, ⟨"api-key".toList, by decide⟩, ⟨"secret".toList, by decide⟩,
    ⟨"password".toList, by decide⟩, ⟨"credential".toList, by decide⟩, ⟨"access_token".toList, by decide⟩]

def containsAssignmentSecret (lower : List Char) : Option Bool :=
  ASSIGNMENT_KEYS.anyM fun key =>
    scanBehind key (fun rest => 8 ≤ ((rest.dropWhile separator).takeWhile valueChar).length) lower

def BEARER : Key := ⟨"bearer ".toList, by decide⟩

def containsBearerToken (text : List Char) : Option Bool :=
  scanBehind BEARER (fun rest => 16 ≤ (rest.takeWhile tokenChar).length) (toAsciiLowercase text)

def scanPrefixed (key : Key) (suffixLen : Nat) (rest : List Char) : Option Bool :=
  match find key.1 rest with
  | none => some false
  | some index =>
    match sliceFrom rest (index + size key.1), sliceFrom rest index with
    | some suffix, some (c :: _) =>
      if suffixLen ≤ (suffix.takeWhile keyChar).length then some true
      else
        match _h : sliceFrom rest (index + c.utf8Size) with
        | none => none
        | some rest => scanPrefixed key suffixLen rest
    -- the key stands at `index`, so a character does
    | _, _ => none
termination_by rest.length
decreasing_by exact length_sliceFrom_lt _h (Nat.lt_of_lt_of_le c.utf8Size_pos (Nat.le_add_left _ _))

def containsPrefixedKey (text : List Char) (key : Key) (suffixLen : Nat) : Option Bool :=
  scanPrefixed key suffixLen (toAsciiLowercase text)

def SK : Key := ⟨"sk-".toList, by decide⟩

def AKIA : Key := ⟨"akia".toList, by decide⟩

def PRIVATE_KEY_HEADERS : List (List Char) :=
  ["-----begin private key-----".toList, "-----begin rsa private key-----".toList,
    "-----begin openssh private key-----".toList]

def secretIndicators (text : List Char) : Option (List String) := do
  let lower := toAsciiLowercase text
  let findings := if PRIVATE_KEY_HEADERS.any (fun header => header <:+: lower) then ["private_key_block"] else []
  let findings := findings ++ if ← containsAssignmentSecret lower then ["credential_assignment"] else []
  let findings := findings ++ if ← containsBearerToken text then ["bearer_token"] else []
  let findings := findings ++ if ← containsPrefixedKey text SK 20 then ["sk_key"] else []
  return findings ++ if ← containsPrefixedKey text AKIA 16 then ["aws_access_key"] else []

structure OutboundDecision where
  allowed : Bool
  findings : List String

def declassifiedFor (label : InformationLabel) (destination : List Char) : Bool :=
  label.declassification.any (·.destination = destination)

/-- The text is the content as `from_utf8_lossy` reads it. -/
def inspectOutbound (text : List Char) (label : Option InformationLabel) (destination : List Char) :
    Option OutboundDecision := do
  let operatorAuthorizedExport := label.any (declassifiedFor · destination)
  let findings ← if operatorAuthorizedExport then some [] else secretIndicators text
  let findings := findings ++
    match label with
    | none => []
    | some label =>
      (if !label.permitsDestination destination then ["destination_not_authorized_by_label"] else []) ++
      (if label.sensitivity = .secret && !declassifiedFor label destination then ["secret_data_requires_explicit_export"]
        else [])
  let findings := (findings.mergeSort (· ≤ ·)).destutter (· ≠ ·)
  return { allowed := findings.isEmpty, findings }

/-! ## The patterns -/

/-- A piece of at least `n` characters of one kind. -/
def Piece (kind : Char → Bool) (n : Nat) (t : List Char) : Prop :=
  ∃ piece rest, t = piece ++ rest ∧ (∀ c ∈ piece, kind c) ∧ n ≤ piece.length

def Assigned (t : List Char) : Prop :=
  ∃ run value rest, t = run ++ value ++ rest ∧ (∀ c ∈ run, separator c) ∧ (∀ c ∈ value, valueChar c) ∧ 8 ≤ value.length ∧
    ∀ c, value.head? = some c → separator c = false

def Keyed (key : Key) (behind : List Char → Prop) (lower : List Char) : Prop :=
  ∃ p s, lower = p ++ key.1 ++ s ∧ behind s

inductive Detector where
  | privateKeyBlock
  | credentialAssignment
  | bearerToken
  | skKey
  | awsAccessKey

namespace Detector

def id : Detector → String
  | privateKeyBlock => "private_key_block"
  | credentialAssignment => "credential_assignment"
  | bearerToken => "bearer_token"
  | skKey => "sk_key"
  | awsAccessKey => "aws_access_key"

def Found : Detector → List Char → Prop
  | privateKeyBlock, lower => ∃ header ∈ PRIVATE_KEY_HEADERS, header <:+: lower
  | credentialAssignment, lower => ∃ key ∈ ASSIGNMENT_KEYS, Keyed key Assigned lower
  | bearerToken, lower => Keyed BEARER (Piece tokenChar 16) lower
  | skKey, lower => Keyed SK (Piece keyChar 20) lower
  | awsAccessKey, lower => Keyed AKIA (Piece keyChar 16) lower

end Detector

/-! ## What follows a key -/

variable {t : List Char} {key : Key} {n : Nat}

theorem piece_iff {kind : Char → Bool} : Piece kind n t ↔ n ≤ (t.takeWhile kind).length := by
  constructor
  · rintro ⟨piece, rest, rfl, hpiece, hn⟩
    rw [List.takeWhile_append_of_pos hpiece]
    simp; omega
  · exact fun h => ⟨_, _, (List.takeWhile_append_dropWhile (p := kind)).symm, fun c hc => List.mem_takeWhile_imp hc, h⟩

theorem assigned_iff : Assigned t ↔ 8 ≤ ((t.dropWhile separator).takeWhile valueChar).length := by
  constructor
  · rintro ⟨run, value, rest, rfl, hrun, hvalue, hlen, hhead⟩
    have hne : value ≠ [] := by rintro rfl; simp at hlen
    obtain ⟨c, value, rfl⟩ := List.exists_cons_of_ne_nil hne
    rw [List.append_assoc, List.dropWhile_append_of_pos hrun, List.cons_append,
      List.dropWhile_cons_of_neg (by simp [hhead c rfl]), ← List.cons_append, List.takeWhile_append_of_pos hvalue]
    simp at hlen ⊢; omega
  · intro h
    refine ⟨t.takeWhile separator, (t.dropWhile separator).takeWhile valueChar,
      (t.dropWhile separator).dropWhile valueChar, ?_, fun c hc => List.mem_takeWhile_imp hc,
      fun c hc => List.mem_takeWhile_imp hc, h, fun c hc => ?_⟩
    · rw [List.append_assoc, List.takeWhile_append_dropWhile, List.takeWhile_append_dropWhile]
    · cases hd : t.dropWhile separator with
      | nil => rw [hd] at hc; cases hc
      | cons c' rest =>
        have hc' := List.head?_dropWhile_not separator t
        rw [hd] at hc hc'
        rw [List.takeWhile_cons] at hc
        split at hc
        · cases hc
          simpa using hc'
        · cases hc

/-- **A loop that goes on behind the key misses nothing**, where two occurrences of the key share no letter. -/
theorem scanBehind_eq (hkey : Apart key.1 key.1) (hit : List Char → Bool) (rest : List Char) :
    ∃ b, scanBehind key hit rest = some b ∧ (b = true ↔ Keyed key (hit ·) rest) := by
  rw [scanBehind]
  cases hfind : find key.1 rest with
  | none =>
    refine ⟨false, rfl, iff_of_false Bool.false_ne_true ?_⟩
    rintro ⟨p, s, rfl, -⟩
    exact find_eq_none.1 hfind ⟨p, s, rfl⟩
  | some index =>
    obtain ⟨p, s, hrest, rfl, hfirst⟩ := find_eq_some hfind
    have hslice : sliceFrom rest (size p + size key.1) = some s := by
      rw [hrest, ← size_append]
      exact sliceFrom_append (p ++ key.1) s
    have hshort : s.length < rest.length := length_sliceFrom_lt hslice (by have := size_pos key.2; omega)
    simp only
    split
    · rename_i hnone
      rw [hslice] at hnone
      cases hnone
    rename_i s' hs'
    obtain rfl : s = s' := Option.mem_unique hslice hs'
    by_cases hhit : hit s
    · exact ⟨true, if_pos hhit, iff_of_true rfl ⟨p, s, hrest, hhit⟩⟩
    · obtain ⟨b, hb, hiff⟩ := scanBehind_eq hkey hit s
      refine ⟨b, by rw [if_neg hhit, hb], hiff.trans ⟨?_, ?_⟩⟩
      · rintro ⟨p', s', rfl, h⟩
        exact ⟨p ++ key.1 ++ p', s', by rw [hrest]; simp, h⟩
      · rintro ⟨p', s', heq, h⟩
        have hle := hfirst p' s' heq
        rcases hkey.later (hrest.symm.trans heq) hle with rfl | ⟨r, hr⟩
        · exact absurd h hhit
        · exact ⟨r, s', hr, h⟩
termination_by rest.length

theorem scanPrefixed_eq (key : Key) (n : Nat) (rest : List Char) :
    ∃ b, scanPrefixed key n rest = some b ∧ (b = true ↔ Keyed key (Piece keyChar n) rest) := by
  rw [scanPrefixed]
  cases hfind : find key.1 rest with
  | none =>
    refine ⟨false, rfl, iff_of_false Bool.false_ne_true ?_⟩
    rintro ⟨p, s, rfl, -⟩
    exact find_eq_none.1 hfind ⟨p, s, rfl⟩
  | some index =>
    obtain ⟨p, s, hrest, rfl, hfirst⟩ := find_eq_some hfind
    obtain ⟨c, k, hk⟩ := List.exists_cons_of_ne_nil key.2
    have hsuffix : sliceFrom rest (size p + size key.1) = some s := by
      rw [hrest, ← size_append]
      exact sliceFrom_append (p ++ key.1) s
    have hindex : sliceFrom rest (size p) = some (c :: (k ++ s)) := by
      rw [hrest, hk, List.append_assoc]
      exact sliceFrom_append p _
    have hnext : sliceFrom rest (size p + c.utf8Size) = some (k ++ s) := by
      have hsize : size p + c.utf8Size = size (p ++ [c]) := by simp
      have hparts : rest = (p ++ [c]) ++ (k ++ s) := by rw [hrest, hk]; simp
      rw [hsize, hparts]
      exact sliceFrom_append _ _
    have hshort : k.length + s.length < rest.length := by
      simpa using length_sliceFrom_lt hnext (by have := c.utf8Size_pos; omega)
    simp only [hsuffix, hindex]
    by_cases hhit : n ≤ (s.takeWhile keyChar).length
    · exact ⟨true, by rw [if_pos hhit], iff_of_true rfl ⟨p, s, hrest, piece_iff.2 hhit⟩⟩
    · rw [if_neg hhit]
      split
      · rename_i hnone
        rw [hnext] at hnone
        cases hnone
      rename_i rest' hrest'
      obtain rfl : k ++ s = rest' := Option.mem_unique hnext hrest'
      obtain ⟨b, hb, hiff⟩ := scanPrefixed_eq key n (k ++ s)
      refine ⟨b, hb, hiff.trans ⟨?_, ?_⟩⟩
      · rintro ⟨p', s', hks, h⟩
        have hcons : key.1 ++ s = c :: (k ++ s) := by rw [hk]; rfl
        exact ⟨p ++ c :: p', s', by rw [hrest, List.append_assoc, hcons, hks]; simp, h⟩
      · rintro ⟨p', s', heq, h⟩
        have hle := hfirst p' s' heq
        rcases Nat.eq_or_lt_of_le hle with hlen | hlt
        · -- the occurrence just tested
          rw [hrest, List.append_assoc, List.append_assoc] at heq
          obtain ⟨-, hks⟩ := List.append_inj heq hlen
          rw [List.append_cancel_left hks] at hhit
          exact absurd (piece_iff.1 h) hhit
        · have hparts : (p ++ [c]) ++ (k ++ s) = p' ++ (key.1 ++ s') := by
            rw [← List.append_assoc p', ← heq, hrest, hk]; simp
          rcases List.append_eq_append_iff.1 hparts with ⟨r, rfl, hr⟩ | ⟨r, hr, hs⟩
          · exact ⟨r, s', by simpa using hr, h⟩
          · have hnil : r = [] := by
              have hcount := congrArg List.length hr
              simp at hcount
              exact List.eq_nil_of_length_eq_zero (by omega)
            exact ⟨[], s', by simpa [hnil] using hs.symm, h⟩
termination_by rest.length

/-! ## The detectors -/

theorem containsAssignmentSecret_eq (lower : List Char) :
    ∃ b, containsAssignmentSecret lower = some b ∧ (b = true ↔ Detector.credentialAssignment.Found lower) := by
  have hany : ∀ keys : List Key, (∀ key ∈ keys, Apart key.1 key.1) →
      ∃ b, (keys.anyM fun key => scanBehind key
        (fun rest => 8 ≤ ((rest.dropWhile separator).takeWhile valueChar).length) lower) = some b ∧
          (b = true ↔ ∃ key ∈ keys, Keyed key Assigned lower) := by
    intro keys hkeys
    induction keys with
    | nil => exact ⟨false, rfl, by simp⟩
    | cons key keys ih =>
      obtain ⟨b, hb, hiff⟩ := scanBehind_eq (hkeys key (by simp))
        (fun rest => 8 ≤ ((rest.dropWhile separator).takeWhile valueChar).length) lower
      simp only [decide_eq_true_eq, ← assigned_iff] at hiff
      obtain ⟨b', hb', hiff'⟩ := ih fun key hkey => hkeys key (by simp [hkey])
      cases b with
      | true => exact ⟨true, by simp [List.anyM, hb], by simpa using .inl (hiff.1 rfl)⟩
      | false =>
        refine ⟨b', by simpa [List.anyM, hb] using hb', hiff'.trans ?_⟩
        have hno := mt hiff.2 Bool.false_ne_true
        simp [hno]
  refine hany ASSIGNMENT_KEYS ?_
  simp only [ASSIGNMENT_KEYS, List.mem_cons, List.not_mem_nil, or_false, forall_eq_or_imp, forall_eq]
  refine ⟨?_, ?_, ?_, ?_, ?_, ?_⟩ <;> exact apart_self (by decide)

theorem containsBearerToken_eq (text : List Char) : ∃ b, containsBearerToken text = some b ∧
    (b = true ↔ Detector.bearerToken.Found (toAsciiLowercase text)) := by
  have happ : Apart BEARER.1 BEARER.1 := apart_self (by decide)
  obtain ⟨b, hb, hiff⟩ := scanBehind_eq happ (fun rest => 16 ≤ (rest.takeWhile tokenChar).length) (toAsciiLowercase text)
  simp only [decide_eq_true_eq, ← piece_iff] at hiff
  exact ⟨b, hb, hiff⟩

theorem mem_if {b : Bool} {x y : String} : x ∈ (if b then [y] else []) ↔ b = true ∧ x = y := by
  cases b <;> simp

theorem secretIndicators_eq (text : List Char) : ∃ findings, secretIndicators text = some findings ∧
    (∀ d : Detector, d.id ∈ findings ↔ d.Found (toAsciiLowercase text)) ∧ ∀ x ∈ findings, ∃ d : Detector, d.id = x := by
  obtain ⟨b1, h1, hiff1⟩ := containsAssignmentSecret_eq (toAsciiLowercase text)
  obtain ⟨b2, h2, hiff2⟩ := containsBearerToken_eq text
  obtain ⟨b3, h3, (hiff3 : b3 = true ↔ Detector.skKey.Found _)⟩ := scanPrefixed_eq SK 20 (toAsciiLowercase text)
  obtain ⟨b4, h4, (hiff4 : b4 = true ↔ Detector.awsAccessKey.Found _)⟩ := scanPrefixed_eq AKIA 16 (toAsciiLowercase text)
  have hall : secretIndicators text = some
      ((if PRIVATE_KEY_HEADERS.any (fun header => header <:+: toAsciiLowercase text) then ["private_key_block"] else []) ++
        (if b1 then ["credential_assignment"] else []) ++ (if b2 then ["bearer_token"] else []) ++
        (if b3 then ["sk_key"] else []) ++ if b4 then ["aws_access_key"] else []) := by
    simp [secretIndicators, containsPrefixedKey, h1, h2, h3, h4]
  have hhead : PRIVATE_KEY_HEADERS.any (fun header => header <:+: toAsciiLowercase text) = true ↔
      Detector.privateKeyBlock.Found (toAsciiLowercase text) := by
    simp [List.any_eq_true, Detector.Found]
  refine ⟨_, hall, fun d => ?_, fun x hx => ?_⟩ <;> simp only [List.mem_append, mem_if] at *
  · cases d with
    | privateKeyBlock => simpa [Detector.id] using hhead
    | credentialAssignment => simpa [Detector.id] using hiff1
    | bearerToken => simpa [Detector.id] using hiff2
    | skKey => simpa [Detector.id] using hiff3
    | awsAccessKey => simpa [Detector.id] using hiff4
  · rcases hx with (((⟨-, rfl⟩ | ⟨-, rfl⟩) | ⟨-, rfl⟩) | ⟨-, rfl⟩) | ⟨-, rfl⟩
    exacts [⟨.privateKeyBlock, rfl⟩, ⟨.credentialAssignment, rfl⟩, ⟨.bearerToken, rfl⟩, ⟨.skKey, rfl⟩, ⟨.awsAccessKey, rfl⟩]

/-! ## Text before and behind -/

theorem Piece.append {kind : Char → Bool} (h : Piece kind n t) (s : List Char) : Piece kind n (t ++ s) := by
  obtain ⟨piece, rest, rfl, hpiece, hn⟩ := h
  exact ⟨piece, rest ++ s, by simp, hpiece, hn⟩

theorem Assigned.append (h : Assigned t) (s : List Char) : Assigned (t ++ s) := by
  obtain ⟨run, value, rest, rfl, hrest⟩ := h
  exact ⟨run, value, rest ++ s, by simp, hrest⟩

theorem Keyed.append {behind : List Char → Prop} (hmono : ∀ {u : List Char}, behind u → ∀ s, behind (u ++ s))
    (h : Keyed key behind t) (p s : List Char) : Keyed key behind (p ++ t ++ s) := by
  obtain ⟨p', s', rfl, hs'⟩ := h
  exact ⟨p ++ p', s' ++ s, by simp, hmono hs' s⟩

theorem Detector.Found.append {d : Detector} (h : d.Found t) (p s : List Char) : d.Found (p ++ t ++ s) := by
  cases d with
  | privateKeyBlock =>
    obtain ⟨header, hmem, hin⟩ := h
    exact ⟨header, hmem, hin.trans ⟨p, s, rfl⟩⟩
  | credentialAssignment =>
    obtain ⟨key, hmem, hk⟩ := h
    exact ⟨key, hmem, hk.append Assigned.append p s⟩
  | bearerToken | skKey | awsAccessKey => exact Keyed.append Piece.append h p s

theorem secretIndicators_append (text p s : List Char) : ∃ findings more, secretIndicators text = some findings ∧
    secretIndicators (p ++ text ++ s) = some more ∧ findings ⊆ more := by
  obtain ⟨findings, h, hfound, hids⟩ := secretIndicators_eq text
  obtain ⟨more, hmore, hfound', -⟩ := secretIndicators_eq (p ++ text ++ s)
  refine ⟨findings, more, h, hmore, fun x hx => ?_⟩
  obtain ⟨d, rfl⟩ := hids x hx
  rw [hfound' d, toAsciiLowercase_append, toAsciiLowercase_append]
  exact ((hfound d).1 hx).append _ _

theorem inspectOutbound_append (text p s : List Char) {label : Option InformationLabel} {destination : List Char}
    (hlabel : label.any (declassifiedFor · destination) = false) :
    ∃ d d', inspectOutbound text label destination = some d ∧
      inspectOutbound (p ++ text ++ s) label destination = some d' ∧ (d.allowed = false → d'.allowed = false) := by
  obtain ⟨findings, more, h, hmore, hsub⟩ := secretIndicators_append text p s
  have hempty : ∀ l : List String, ((l.mergeSort (· ≤ ·)).destutter (· ≠ ·)).isEmpty = l.isEmpty := by
    intro l
    rw [Bool.eq_iff_iff, List.isEmpty_iff, List.isEmpty_iff, List.destutter_eq_nil, ← List.length_eq_zero_iff,
      List.length_mergeSort, List.length_eq_zero_iff]
  refine ⟨_, _, by simp only [inspectOutbound, hlabel, h]; rfl, by simp only [inspectOutbound, hlabel, hmore]; rfl, ?_⟩
  simp only [hempty, ← Bool.not_eq_true, List.isEmpty_iff, List.append_eq_nil_iff]
  rintro hno ⟨hmore0, hrest⟩
  exact hno ⟨List.subset_nil.1 (hmore0 ▸ hsub), hrest⟩

/-- **The scan misses no position.**  Each detector fires exactly where its pattern stands somewhere in the text, in any
case of letters; text before or behind hides nothing; and a text that is not let out is not let out in a longer one. -/
theorem scan_complete (text : List Char) : ∃ findings, secretIndicators text = some findings ∧
    (∀ d : Detector, d.id ∈ findings ↔ d.Found (toAsciiLowercase text)) ∧ ∀ p s : List Char,
      (∃ more, secretIndicators (p ++ text ++ s) = some more ∧ findings ⊆ more) ∧
        ∀ (label : Option InformationLabel) (destination : List Char),
          label.any (declassifiedFor · destination) = false → ∃ d d', inspectOutbound text label destination = some d ∧
            inspectOutbound (p ++ text ++ s) label destination = some d' ∧ (d.allowed = false → d'.allowed = false) := by
  obtain ⟨findings, h, hfound, -⟩ := secretIndicators_eq text
  refine ⟨findings, h, hfound, fun p s => ⟨?_, fun label destination hlabel => inspectOutbound_append text p s hlabel⟩⟩
  obtain ⟨findings', more, h', hmore, hsub⟩ := secretIndicators_append text p s
  obtain rfl : findings = findings' := Option.mem_unique h h'
  exact ⟨more, hmore, hsub⟩

def AssignedLoosely (t : List Char) : Prop :=
  ∃ run value rest, t = run ++ value ++ rest ∧ (∀ c ∈ run, separator c) ∧ (∀ c ∈ value, valueChar c) ∧ 8 ≤ value.length

/-- The characters of a value may be separators too, and then the code passes over them. -/
theorem loose_value_passed_over : ¬ ∀ (text : List Char) (findings : List String), secretIndicators text = some findings →
    (Detector.credentialAssignment.id ∈ findings ↔
      ∃ key ∈ ASSIGNMENT_KEYS, Keyed key AssignedLoosely (toAsciiLowercase text)) := by
  intro h
  obtain ⟨findings, hf, hfound, -⟩ := secretIndicators_eq "secret========".toList
  have hloose : ∃ key ∈ ASSIGNMENT_KEYS, Keyed key AssignedLoosely (toAsciiLowercase "secret========".toList) :=
    ⟨⟨"secret".toList, by decide⟩, by decide, [], "========".toList, by decide, [], "========".toList, [], by decide,
      List.forall_mem_nil _, List.all_eq_true.1 (by decide), by decide⟩
  obtain ⟨key, hkey, p, s, hps, hs⟩ := (hfound .credentialAssignment).1 ((h _ _ hf).2 hloose)
  -- every place where a key stands is looked at
  have hnone : ∀ key ∈ ASSIGNMENT_KEYS, ∀ i < 15, key.1 <+: (toAsciiLowercase "secret========".toList).drop i →
      ¬ 8 ≤ ((((toAsciiLowercase "secret========".toList).drop (i + key.1.length)).dropWhile separator).takeWhile
        valueChar).length := by decide +kernel
  have hlen : p.length < 15 := by
    have hcount := congrArg List.length hps
    simp at hcount; omega
  refine hnone key hkey p.length hlen ?_ ?_
  · rw [hps, List.append_assoc]; simp
  · rw [hps, ← List.length_append, List.drop_left]
    exact assigned_iff.1 hs

end OutboundScan
end Execlaw
