import Execlaw.Cuts
import Execlaw.Outbox
import Execlaw.Phrases
import Execlaw.UnicodeText
import Execlaw.Utf8Text
/-!
# ResearchEvidence — whether a snapshot supports a claim (`core/src/research.rs`)

A claim is looked for in each sentence of a snapshot by its content words, in order and near each other.  The splitter
does not end a sentence at a full stop behind a digit, so a piece may run on over one (`RunsOn`).  The walk takes the
first occurrence of each word and bounds what it skips, before the first word too; a sentence that carries the claim
further on, or from a second occurrence, is passed over.
-/
namespace Execlaw

open Utf8Text (bytes size sliceFrom slice)
open Cuts (Ends cut glue)
open Phrases (FirstNear)

/-! ## Sentences -/

def isAsciiDigit (b : UInt8) : Bool := 0x30 ≤ b && b ≤ 0x39

/-- Whether the character at `index` ends a sentence; `none` is a slice that cuts a character. -/
def sentenceBoundary (text : List Char) (index nextIndex : Nat) (character : Char) : Option Bool :=
  if character ∈ ['!', '?', '\n', ';'] then some true
  else if character = '.' then
    let previousIsDigit := decide (0 < index) && (bytes text)[index - 1]?.any isAsciiDigit
    let nextIsDigit := (bytes text)[nextIndex]?.any isAsciiDigit
    if previousIsDigit || nextIsDigit then some false
    else (sliceFrom text nextIndex).map fun rest => rest.head?.all isWhitespace
  else some false

/-- The loop over the characters from `index` on; the piece begins at `start`. -/
def evidenceSentencesFrom (text : List Char) : List Char → Nat → Nat → Option (List (List Char))
  | [], _, start => if start < size text then (sliceFrom text start).map ([·]) else some []
  | character :: rest, index, start => do
    let nextIndex := index + character.utf8Size
    if ← sentenceBoundary text index nextIndex character then
      let sentence ← slice text start nextIndex
      let sentences ← evidenceSentencesFrom text rest nextIndex nextIndex
      pure (sentence :: sentences)
    else evidenceSentencesFrom text rest nextIndex start

def researchEvidenceSentences (text : List Char) : Option (List (List Char)) := evidenceSentencesFrom text text 0 0

/-! ## Terms -/

def stopWords : List String :=
  ["a", "about", "after", "all", "also", "an", "and", "are", "as", "at", "be", "because",
    "been", "before", "being", "between", "both", "but", "by", "can", "could", "did", "do",
    "does", "during", "each", "for", "from", "had", "has", "have", "he", "her", "here", "his",
    "how", "i", "if", "in", "into", "is", "it", "its", "may", "might", "more", "most", "must",
    "of", "on", "one", "or", "our", "out", "over", "s", "same", "she", "should", "so", "some",
    "such", "than", "that", "the", "their", "them", "then", "there", "these", "they", "this",
    "those", "through", "to", "under", "up", "was", "we", "were", "what", "when", "where",
    "which", "while", "who", "will", "with", "would", "you", "your"]

def isResearchNegation (term : String) : Bool := ["no", "not", "never", "without", "neither", "nor"].contains term

section Claims

variable (u : Unicode)

def researchEvidenceTerms (text : List Char) : List String :=
  (((text.splitOnP fun c => !u.isAlphanumeric c).filter (· ≠ [])).map fun term =>
    String.ofList (u.toLowercase term)).filter fun term => !stopWords.contains term

def negated (terms : List String) : Bool := terms.any isResearchNegation

def walk (evidenceTerms : List String) : Nat → List String → Bool
  | _, [] => true
  | evidenceIndex, claimTerm :: claimTerms =>
    match (evidenceTerms.drop evidenceIndex).findIdx? (· == claimTerm) with
    | none => false
    | some found => if 4 < found then false else walk evidenceTerms (evidenceIndex + (found + 1)) claimTerms

def sentenceSupports (claimTerms evidenceTerms : List String) : Bool :=
  if evidenceTerms.length < claimTerms.length || negated evidenceTerms != negated claimTerms then false
  else walk evidenceTerms 0 claimTerms

def researchClaimSupportedBySnapshot (claim snapshot : List Char) : Option Bool :=
  let claimTerms := researchEvidenceTerms u claim
  if claimTerms.length < 2 then some false
  else (researchEvidenceSentences snapshot).map fun sentences =>
    sentences.any fun sentence => sentenceSupports claimTerms (researchEvidenceTerms u sentence)

end Claims

/-! ## What the splitter makes -/

def endsPiece : Ends Char := fun previous c next =>
  decide (c ∈ ['!', '?', '\n', ';']) ||
    (c == '.' && !previous.any Char.isDigit && !next.any Char.isDigit && next.all isWhitespace)

def pieces (text : List Char) : List (List Char) := cut endsPiece none text

theorem isDigit_iff {c : Char} : c.isDigit = true ↔ 48 ≤ c.toNat ∧ c.toNat ≤ 57 := by
  rw [Char.isDigit, Bool.and_eq_true, decide_eq_true_eq, decide_eq_true_eq]
  exact Iff.rfl

theorem isAsciiDigit_iff {b : UInt8} : isAsciiDigit b = true ↔ 48 ≤ b.toNat ∧ b.toNat ≤ 57 := by
  rw [isAsciiDigit, Bool.and_eq_true, decide_eq_true_eq, decide_eq_true_eq]
  exact Iff.rfl

theorem isAsciiDigit_byte {c : Char} {k : Nat} (hk : k < c.utf8Size) :
    (String.utf8EncodeChar c)[k]?.any isAsciiDigit = c.isDigit := by
  have hlen : k < (String.utf8EncodeChar c).length := by rwa [String.length_utf8EncodeChar]
  rw [List.getElem?_eq_getElem hlen, Option.any_some, Bool.eq_iff_iff, isAsciiDigit_iff, isDigit_iff]
  by_cases hc : 127 < c.toNat
  · have hbyte := Utf8Text.le_of_mem_utf8EncodeChar hc (List.getElem_mem hlen)
    omega
  · have henc := Utf8Text.utf8EncodeChar_ascii (Nat.le_of_not_lt hc)
    have hmem : (String.utf8EncodeChar c)[k] ∈ [UInt8.ofNat c.toNat] := by
      rw [← henc]
      exact List.getElem_mem hlen
    rw [List.mem_singleton.1 hmem, UInt8.toNat_ofNat']
    omega

theorem previous_digit (pre rest : List Char) :
    (decide (0 < size pre) && (bytes (pre ++ rest))[size pre - 1]?.any isAsciiDigit) =
      pre.getLast?.any Char.isDigit := by
  rcases List.eq_nil_or_concat' pre with rfl | ⟨pre, d, rfl⟩
  · rfl
  · have hd := d.utf8Size_pos
    have hindex : size (pre ++ [d]) - 1 = size pre + (d.utf8Size - 1) := by
      rw [Utf8Text.size_append, Utf8Text.size_cons, Utf8Text.size_nil]
      omega
    have hbyte : (bytes (pre ++ [d] ++ rest))[size pre + (d.utf8Size - 1)]? =
        (String.utf8EncodeChar d)[d.utf8Size - 1]? := by
      rw [List.append_assoc, Utf8Text.getElem?_bytes_append, List.singleton_append, Utf8Text.bytes_cons]
      exact List.getElem?_append_left (by rw [String.length_utf8EncodeChar]; omega)
    have hpos : 0 < size (pre ++ [d]) := by
      rw [Utf8Text.size_append, Utf8Text.size_cons]
      omega
    rw [hindex, hbyte, isAsciiDigit_byte (by omega), decide_eq_true hpos]
    simp

theorem next_digit (pre rest : List Char) :
    (bytes (pre ++ rest))[size pre]?.any isAsciiDigit = rest.head?.any Char.isDigit := by
  rw [← Nat.add_zero (size pre), Utf8Text.getElem?_bytes_append]
  cases rest with
  | nil => rfl
  | cons d rest =>
    rw [Utf8Text.bytes_cons, List.getElem?_append_left (by rw [String.length_utf8EncodeChar]; exact d.utf8Size_pos),
      isAsciiDigit_byte d.utf8Size_pos]
    rfl

theorem sentenceBoundary_eq (pre rest : List Char) (c : Char) :
    sentenceBoundary (pre ++ c :: rest) (size pre) (size pre + c.utf8Size) c =
      some (endsPiece pre.getLast? c rest.head?) := by
  have hsplit : pre ++ c :: rest = (pre ++ [c]) ++ rest := by rw [List.append_assoc, List.singleton_append]
  have hnext : size pre + c.utf8Size = size (pre ++ [c]) := by simp
  have hrest : sliceFrom (pre ++ c :: rest) (size pre + c.utf8Size) = some rest := by
    rw [hsplit, hnext]
    exact Utf8Text.sliceFrom_append _ _
  have hdigit : (bytes (pre ++ c :: rest))[size pre + c.utf8Size]?.any isAsciiDigit = rest.head?.any Char.isDigit := by
    rw [hsplit, hnext]
    exact next_digit _ _
  rw [sentenceBoundary, previous_digit, hdigit, hrest, endsPiece]
  by_cases hend : c ∈ ['!', '?', '\n', ';']
  · simp [hend]
  · by_cases hdot : c = '.'
    · subst hdot
      cases hprev : pre.getLast?.any Char.isDigit <;> cases hhead : rest.head?.any Char.isDigit <;> simp
    · simp [hend, hdot]

theorem evidenceSentencesFrom_eq : ∀ (rest done cur : List Char),
    evidenceSentencesFrom (done ++ cur ++ rest) rest (size (done ++ cur)) (size done) =
      some (cur.foldr glue (cut endsPiece (done ++ cur).getLast? rest))
  | [], done, cur => by
    rw [evidenceSentencesFrom, List.append_nil, cut]
    by_cases hcur : cur = []
    · subst hcur
      simp
    · have hpos := Utf8Text.size_pos hcur
      rw [if_pos (by rw [Utf8Text.size_append]; omega), Utf8Text.sliceFrom_append, Cuts.foldr_glue_nil hcur]
      rfl
  | c :: rest, done, cur => by
    have hsplit : done ++ cur ++ c :: rest = (done ++ (cur ++ [c])) ++ rest := by simp
    have hnext : size (done ++ cur) + c.utf8Size = size (done ++ (cur ++ [c])) := by simp [Nat.add_assoc]
    have hlast : (done ++ (cur ++ [c])).getLast? = some c := by simp
    rw [evidenceSentencesFrom, sentenceBoundary_eq]
    simp only [Option.bind_eq_bind, Option.bind_some, hnext]
    rw [cut]
    by_cases hend : endsPiece (done ++ cur).getLast? c rest.head? = true
    · have hslice : slice (done ++ cur ++ c :: rest) (size done) (size (done ++ (cur ++ [c]))) = some (cur ++ [c]) := by
        rw [hsplit, Utf8Text.size_append]
        exact Utf8Text.slice_append done (cur ++ [c]) rest
      have ih := evidenceSentencesFrom_eq rest (done ++ (cur ++ [c])) []
      rw [List.append_nil, hlast, ← hsplit] at ih
      rw [if_pos hend, if_pos hend, hslice, ih, Cuts.foldr_glue_cons]
      rfl
    · have ih := evidenceSentencesFrom_eq rest done (cur ++ [c])
      rw [hlast, ← hsplit] at ih
      rw [if_neg hend, if_neg hend, ih, List.foldr_append]
      rfl

theorem researchEvidenceSentences_eq (text : List Char) : researchEvidenceSentences text = some (pieces text) :=
  evidenceSentencesFrom_eq text [] []

/-! ## What the walk accepts -/

theorem findIdx?_first {w : String} {q r : List String} (hq : w ∉ q) :
    (q ++ w :: r).findIdx? (· == w) = some q.length := by
  have hnone : q.findIdx? (· == w) = none := by
    rw [List.findIdx?_eq_none_iff]
    exact fun x hx => beq_eq_false_iff_ne.2 fun h => hq (h ▸ hx)
  rw [List.findIdx?_append, hnone, List.findIdx?_cons]
  simp

theorem walk_iff (evidenceTerms : List String) : ∀ (claimTerms : List String) (i : Nat),
    walk evidenceTerms i claimTerms = true ↔ FirstNear 4 claimTerms (evidenceTerms.drop i)
  | [], i => by simp [walk, FirstNear]
  | w :: claimTerms, i => by
    rw [walk]
    by_cases hw : w ∈ evidenceTerms.drop i
    · obtain ⟨q, r, hsplit, hq⟩ := List.eq_append_cons_of_mem hw
      have hdrop : evidenceTerms.drop (i + (q.length + 1)) = r := by
        rw [← List.drop_drop, hsplit]
        simp
      rw [hsplit, findIdx?_first hq, Phrases.firstNear_cons hq]
      by_cases hlen : 4 < q.length
      · simp [hlen, Nat.not_le.2 hlen]
      · simp [hlen, Nat.le_of_not_lt hlen, walk_iff evidenceTerms claimTerms, hdrop]
    · have hnone : (evidenceTerms.drop i).findIdx? (· == w) = none := by
        rw [List.findIdx?_eq_none_iff]
        exact fun x hx => beq_eq_false_iff_ne.2 fun h => hw (h ▸ hx)
      rw [hnone]
      refine iff_of_false (by simp) ?_
      rintro ⟨q, r, heq, -⟩
      exact hw (heq ▸ by simp)

theorem sentenceSupports_iff {claimTerms evidenceTerms : List String} :
    sentenceSupports claimTerms evidenceTerms = true ↔
      negated evidenceTerms = negated claimTerms ∧ FirstNear 4 claimTerms evidenceTerms := by
  have hwalk := walk_iff evidenceTerms claimTerms 0
  rw [List.drop_zero] at hwalk
  rw [← hwalk, sentenceSupports]
  have hlen : walk evidenceTerms 0 claimTerms = true → claimTerms.length ≤ evidenceTerms.length :=
    fun h => (hwalk.1 h).carries.sublist.length_le
  by_cases hpolarity : negated evidenceTerms = negated claimTerms
  · by_cases hshort : evidenceTerms.length < claimTerms.length
    · simp only [hshort, hpolarity]
      refine iff_of_false (by simp) fun h => ?_
      have := hlen h.2
      omega
    · simp [hshort, hpolarity]
  · simp [hpolarity]

/-! ## Sentences and pieces -/

/-- Where a sentence ends: at `!`, `?`, `;` or a newline, or at a full stop that white space or the end follows. -/
def endsSentence : Ends Char := fun _ c next =>
  decide (c ∈ ['!', '?', '\n', ';']) || (c == '.' && next.all isWhitespace)

def sentences (text : List Char) : List (List Char) := cut endsSentence none text

/-- **The piece runs on** over a full stop that stands between a digit and white space. -/
def RunsOn (p : List Char) : Prop :=
  ∃ q d w r, p = q ++ d :: '.' :: w :: r ∧ d.isDigit = true ∧ isWhitespace w = true

variable {text p s : List Char}

theorem endsSentence_of_endsPiece (previous : Option Char) (c : Char) (next : Option Char)
    (h : endsPiece previous c next = true) : endsSentence previous c next = true := by
  rw [endsPiece, Bool.or_eq_true, Bool.and_eq_true, Bool.and_eq_true, Bool.and_eq_true] at h
  rw [endsSentence, Bool.or_eq_true, Bool.and_eq_true]
  exact h.imp_right fun h => ⟨h.1.1.1, h.2⟩

theorem not_digit_of_endsPiece {previous next : Option Char} {c : Char} (h : endsPiece previous c next = true) :
    c.isDigit = false := by
  rw [endsPiece, Bool.or_eq_true] at h
  have hmem : c ∈ ['!', '?', '\n', ';', '.'] := by
    rcases h with h | h
    · have := of_decide_eq_true h
      simp only [List.mem_cons, List.not_mem_nil, or_false] at this ⊢
      tauto
    · simp only [Bool.and_eq_true, beq_iff_eq] at h
      rw [h.1.1.1]
      decide
  have hall : ['!', '?', '\n', ';', '.'].all (fun c => !c.isDigit) = true := by decide
  simpa using List.all_eq_true.1 hall c hmem

theorem not_digit_of_whitespace {c : Char} (h : isWhitespace c = true) : c.isDigit = false := by
  by_contra hdigit
  rw [Bool.not_eq_false, isDigit_iff] at hdigit
  simp [isWhitespace] at h
  omega

theorem runsOn_of_inner {previous : Option Char} (hprevious : previous.any Char.isDigit = false)
    (h : Cuts.Inner endsPiece endsSentence previous p) : RunsOn p := by
  obtain ⟨q, c, w, r, rfl, hends, hends'⟩ := h
  rw [endsSentence, Bool.or_eq_true] at hends'
  rw [endsPiece, Bool.or_eq_false_iff] at hends
  obtain ⟨hdot, hw⟩ : c = '.' ∧ isWhitespace w = true := by
    simpa only [hends.1, Bool.false_eq_true, false_or, Bool.and_eq_true, beq_iff_eq, Option.all_some] using hends'
  have hdigit : (q.getLast?.or previous).any Char.isDigit = true := by
    simpa [hdot, hw, not_digit_of_whitespace hw] using hends.2
  subst hdot
  rcases List.eq_nil_or_concat' q with rfl | ⟨q, d, rfl⟩
  · rw [List.getLast?_nil, Option.none_or, hprevious] at hdigit
    cases hdigit
  · exact ⟨q, d, w, r, by simp, by simpa using hdigit, hw⟩

theorem pieces_groups (text : List Char) : ∃ gs : List (List (List Char)), pieces text = gs.map List.flatten ∧
    sentences text = gs.flatten ∧ ∀ g ∈ gs, (∃ s, g = [s]) ∨ RunsOn g.flatten := by
  obtain ⟨gs, hpieces, hsentences, hfirst, hlater⟩ := Cuts.cut_groups endsSentence_of_endsPiece text none
  refine ⟨gs, hpieces, hsentences, fun g hg => ?_⟩
  cases gs with
  | nil => cases hg
  | cons g' gs =>
    rcases List.mem_cons.1 hg with rfl | hg
    · exact (hfirst _ rfl).imp_right fun h => runsOn_of_inner rfl h.2
    · obtain ⟨x, c, y, hends, hgroup⟩ := hlater g hg
      have hdigit : (some c).any Char.isDigit = false := not_digit_of_endsPiece hends
      exact hgroup.imp_right fun h => runsOn_of_inner hdigit h.2

theorem piece_cases (hp : p ∈ pieces text) : p ∈ sentences text ∨ RunsOn p := by
  obtain ⟨gs, hpieces, hsentences, hgroups⟩ := pieces_groups text
  rw [hpieces] at hp
  obtain ⟨g, hg, rfl⟩ := List.mem_map.1 hp
  rcases hgroups g hg with ⟨s, rfl⟩ | h
  · refine .inl ?_
    rw [hsentences]
    exact List.mem_flatten.2 ⟨[s], hg, by simp⟩
  · exact .inr h

theorem sentence_cases (hs : s ∈ sentences text) : s ∈ pieces text ∨ ∃ p ∈ pieces text, RunsOn p ∧ s <:+: p := by
  obtain ⟨gs, hpieces, hsentences, hgroups⟩ := pieces_groups text
  rw [hsentences] at hs
  obtain ⟨g, hg, hsg⟩ := List.mem_flatten.1 hs
  have hmem : g.flatten ∈ pieces text := hpieces ▸ List.mem_map_of_mem hg
  rcases hgroups g hg with ⟨s', rfl⟩ | h
  · obtain rfl := List.mem_singleton.1 hsg
    exact .inl (by simpa using hmem)
  · exact .inr ⟨_, hmem, h, List.infix_of_mem_flatten hsg⟩

/-! ## Support -/

section Support

variable (u : Unicode) (claim : List Char)

def SamePolarity (s : List Char) : Prop :=
  negated (researchEvidenceTerms u s) = negated (researchEvidenceTerms u claim)

instance (s : List Char) : Decidable (SamePolarity u claim s) := inferInstanceAs (Decidable (_ = _))

/-- **The sentence carries the claim**: at its polarity, and with its terms in order, each at most five behind the one
before. -/
def CarriesClaim (s : List Char) : Prop :=
  SamePolarity u claim s ∧ Phrases.Carries 5 (researchEvidenceTerms u claim) (researchEvidenceTerms u s)

def MatchesClaim (p : List Char) : Prop :=
  SamePolarity u claim p ∧ FirstNear 4 (researchEvidenceTerms u claim) (researchEvidenceTerms u p)

variable (snapshot : List Char)

/-- **Exact ordered phrase matching**: the pieces of the splitter put together are the snapshot, and the answer is yes
exactly when one sentence carries the claim. -/
structure PhraseMatching : Prop where
  splits : ∃ ss, researchEvidenceSentences snapshot = some ss ∧ ss.flatten = snapshot
  answers : ∃ answer, researchClaimSupportedBySnapshot u claim snapshot = some answer ∧
    (answer = true ↔ ∃ s ∈ sentences snapshot, CarriesClaim u claim s)

/-- **Run-on pieces and far occurrences make no difference**: a piece that runs on and matches has the claim from one
sentence of the snapshot too, and where a sentence that carries the claim is part of such a piece, or takes a first
occurrence with more than four terms before it, some piece matches. -/
structure Undisturbed : Prop where
  runs_on : ∀ p ∈ pieces snapshot, RunsOn p → MatchesClaim u claim p → ∃ s ∈ sentences snapshot, CarriesClaim u claim s
  far : ∀ s ∈ sentences snapshot, CarriesClaim u claim s →
    (∃ p ∈ pieces snapshot, RunsOn p ∧ s <:+: p) ∨
      ¬ FirstNear 4 (researchEvidenceTerms u claim) (researchEvidenceTerms u s) →
    ∃ p ∈ pieces snapshot, MatchesClaim u claim p

variable {u claim snapshot}

theorem MatchesClaim.carriesClaim (h : MatchesClaim u claim p) : CarriesClaim u claim p := ⟨h.1, h.2.carries⟩

theorem supported_iff (snapshot : List Char) (hclaim : 2 ≤ (researchEvidenceTerms u claim).length) :
    ∃ answer, researchClaimSupportedBySnapshot u claim snapshot = some answer ∧
      (answer = true ↔ ∃ p ∈ pieces snapshot, MatchesClaim u claim p) := by
  refine ⟨_, by rw [researchClaimSupportedBySnapshot, if_neg (by omega), researchEvidenceSentences_eq]; rfl, ?_⟩
  rw [List.any_eq_true]
  exact exists_congr fun p => and_congr_right fun _ => sentenceSupports_iff

theorem splits (snapshot : List Char) : ∃ ss, researchEvidenceSentences snapshot = some ss ∧ ss.flatten = snapshot :=
  ⟨_, researchEvidenceSentences_eq snapshot, Cuts.flatten_cut _ _ _⟩

theorem Undisturbed.phraseMatching (hclaim : 2 ≤ (researchEvidenceTerms u claim).length)
    (h : Undisturbed u claim snapshot) : PhraseMatching u claim snapshot := by
  obtain ⟨answer, hanswer, hmatches⟩ := supported_iff snapshot hclaim
  refine ⟨splits snapshot, answer, hanswer, hmatches.trans ⟨?_, ?_⟩⟩
  · rintro ⟨p, hp, hm⟩
    rcases piece_cases hp with hs | hruns
    · exact ⟨p, hs, hm.carriesClaim⟩
    · exact h.runs_on p hp hruns hm
  · rintro ⟨s, hs, hcarries⟩
    rcases sentence_cases hs with hp | hruns
    · by_cases hnear : FirstNear 4 (researchEvidenceTerms u claim) (researchEvidenceTerms u s)
      · exact ⟨s, hp, hcarries.1, hnear⟩
      · exact h.far s hs hcarries (.inr hnear)
    · exact h.far s hs hcarries (.inl hruns)

/-- Where no piece runs on and no sentence has more than five terms, the matcher is exact. -/
theorem phraseMatching_of_short (hclaim : 2 ≤ (researchEvidenceTerms u claim).length)
    (hruns : ∀ p ∈ pieces snapshot, ¬ RunsOn p)
    (hshort : ∀ s ∈ sentences snapshot, (researchEvidenceTerms u s).length ≤ 5) : PhraseMatching u claim snapshot := by
  refine Undisturbed.phraseMatching hclaim ⟨fun p hp hrun => absurd hrun (hruns p hp), fun s hs hcarries h => ?_⟩
  have hnear := Phrases.firstNear_of_short (hshort s hs) hcarries.2.sublist
  rcases h with ⟨p, hp, hrun, -⟩ | hfar
  · exact absurd hrun (hruns p hp)
  · exact absurd hnear hfar

/-- **The matcher is exact** where run-on pieces and far occurrences make no difference, and nowhere else. -/
theorem phraseMatching_iff (hclaim : 2 ≤ (researchEvidenceTerms u claim).length) :
    PhraseMatching u claim snapshot ↔ Undisturbed u claim snapshot := by
  obtain ⟨answer, hanswer, hmatches⟩ := supported_iff snapshot hclaim
  constructor
  · rintro ⟨-, answer', hanswer', hexact⟩
    cases hanswer.symm.trans hanswer'
    have hiff := hmatches.symm.trans hexact
    exact ⟨fun p hp _ hm => hiff.1 ⟨p, hp, hm⟩, fun s hs hcarries _ => hiff.2 ⟨s, hs, hcarries⟩⟩
  · exact Undisturbed.phraseMatching hclaim

end Support

theorem phraseMatching_sample :
    PhraseMatching asciiUnicode "Disk full!".toList "At noon the disk was full.".toList := by
  have hmatches : MatchesClaim asciiUnicode "Disk full!".toList "At noon the disk was full.".toList :=
    sentenceSupports_iff.1 (by decide)
  exact (phraseMatching_iff (by decide)).2
    ⟨fun _ _ _ _ => ⟨_, by decide, hmatches.carriesClaim⟩, fun _ _ _ _ => ⟨_, by decide, hmatches⟩⟩

/-- **Three inputs on which the matcher is not exact**: terms of two sentences of which the first ends with a number;
a sentence with five terms before the claim; one that carries the claim behind another occurrence of its first term. -/
theorem matcher_disturbed :
    ¬ PhraseMatching asciiUnicode "The service binds on 127.0.0.1.".toList
        "The service uses port 9443. It binds on 127.0.0.1.".toList ∧
      ¬ PhraseMatching asciiUnicode "disk full".toList "Monday night alerts reported server disk full.".toList ∧
      ¬ PhraseMatching asciiUnicode "disk full".toList
        "Disk alerts reported Monday night: server disk full.".toList := by
  have hinfix : ∀ {snapshot : List Char}, researchClaimSupportedBySnapshot asciiUnicode "disk full".toList snapshot =
      some false → snapshot ∈ sentences snapshot → SamePolarity asciiUnicode "disk full".toList snapshot →
      researchEvidenceTerms asciiUnicode "disk full".toList <:+: researchEvidenceTerms asciiUnicode snapshot →
      ¬ PhraseMatching asciiUnicode "disk full".toList snapshot := by
    rintro snapshot hfalse hs hpolarity hin ⟨-, answer, hanswer, hexact⟩
    cases hfalse.symm.trans hanswer
    exact Bool.false_ne_true (hexact.2 ⟨snapshot, hs, hpolarity, Phrases.carries_of_infix (by decide) hin⟩)
  refine ⟨?_, hinfix (by decide) (by decide) (by decide) (by decide),
    hinfix (by decide) (by decide) (by decide) (by decide)⟩
  rintro ⟨-, answer, hanswer, hexact⟩
  have htrue : researchClaimSupportedBySnapshot asciiUnicode "The service binds on 127.0.0.1.".toList
      "The service uses port 9443. It binds on 127.0.0.1.".toList = some true := by decide
  cases htrue.symm.trans hanswer
  obtain ⟨s, hs, -, hcarries⟩ := hexact.1 rfl
  have hno : ∀ s ∈ sentences "The service uses port 9443. It binds on 127.0.0.1.".toList,
      ¬ (researchEvidenceTerms asciiUnicode "The service binds on 127.0.0.1.".toList).Sublist
        (researchEvidenceTerms asciiUnicode s) := by decide
  exact hno s hs hcarries.sublist

end Execlaw
