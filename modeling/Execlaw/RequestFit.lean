import Execlaw.ChatMessages
import Execlaw.Segments
/-!
# RequestFit — fitting a model request to its context (`context-window/src/lib.rs`)

A request over its budget loses its oldest turns, whole, until it fits or the newest is left (`fitChatRequest_turns`).
A turn runs from a user message that is no compaction receipt to the next one; so a receipt inside a turn goes with it,
and a tool message behind the boundary loses its call (`fits_iff`).
-/
namespace Execlaw
namespace RequestFit

open Segments

def estimateTokensFromBytes (bytes bytesPerTokenMilli : Nat) : Nat :=
  let ratio := min (max bytesPerTokenMilli 1000) 3000
  let scaled := min (bytes * 1000) (2 ^ 128 - 1)
  min (min (scaled + (ratio - 1)) (2 ^ 128 - 1) / ratio) (2 ^ 64 - 1)

def isCompactionReceipt (m : ChatMessage) : Bool :=
  m.role == .user && match m.content with
    | some content => "Untrusted history summary ".toList.isPrefixOf content.asText.toList
    | none => false

def beginsTurn (m : ChatMessage) : Bool := m.role == .user && !isCompactionReceipt m

def fitLoop (estimate : List ChatMessage → Nat) (budget : Nat) (messages : List ChatMessage) : List ChatMessage :=
  if budget < estimate messages ∧ 2 < messages.length then
    match _h : firstTwo beginsTurn messages with
    | some (firstUser, nextUser) => fitLoop estimate budget (messages.take firstUser ++ messages.drop nextUser)
    | none => messages
  else messages
termination_by messages.length
decreasing_by
  have hlt := firstTwo_lt _h
  rw [List.length_append, List.length_take, List.length_drop]
  omega

def fitMessages (estimate : List ChatMessage → Nat) (budget : Nat) (refusal : Nat → Nat → String)
    (messages : List ChatMessage) : Except String Nat × List ChatMessage :=
  let fitted := fitLoop estimate budget messages
  let finalEstimate := estimate fitted
  (if budget < finalEstimate then .error (refusal finalEstimate budget) else .ok finalEstimate, fitted)

def estimateRequest (f32 : UInt32 → Json) (bytesPerTokenMilli : Nat) (request : ChatRequest) : Nat :=
  estimateTokensFromBytes (serializedLen (request.toJson f32)) bytesPerTokenMilli

def requestRefusal (estimate budget : Nat) : String :=
  s!"mandatory serialized model request exceeds context budget: estimated {estimate}, budget {budget}"

def fitChatRequest (f32 : UInt32 → Json) (request : ChatRequest) (contextTokens outputReserve bytesPerTokenMilli : Nat) :
    Except String Nat × ChatRequest :=
  let fitted := fitMessages (fun messages => estimateRequest f32 bytesPerTokenMilli { request with messages })
    (contextTokens - outputReserve) requestRefusal request.messages
  (fitted.1, { request with messages := fitted.2 })

def estimateRound (tools : List ToolDeclaration) (bytesPerTokenMilli : Nat) (messages : List ChatMessage) : Nat :=
  let bytes := serializedLen (.arr (messages.map ChatMessage.toJson)) +
    serializedLen (.arr (tools.map ToolDeclaration.toJson))
  estimateTokensFromBytes (min bytes (2 ^ 64 - 1)) bytesPerTokenMilli

def roundRefusal (estimate budget : Nat) : String :=
  s!"mandatory model request block exceeds context budget: estimated {estimate}, budget {budget}"

def fitModelRound (messages : List ChatMessage) (tools : List ToolDeclaration)
    (contextTokens outputReserve bytesPerTokenMilli : Nat) : Except String Nat × List ChatMessage :=
  fitMessages (estimateRound tools bytesPerTokenMilli) (contextTokens - outputReserve) roundRefusal messages

/-! ## What fitting is to be -/

abbrev turns (messages : List ChatMessage) : List (List ChatMessage) := segments beginsTurn messages

abbrev withoutOldest (messages : List ChatMessage) (k : Nat) : List ChatMessage := keep beginsTurn messages k

/-- The message at `i` is kept when the `k` oldest turns go. -/
def Kept (messages : List ChatMessage) (k i : Nat) : Prop :=
  i < (preamble beginsTurn messages).length ∨
    (preamble beginsTurn messages).length + ((turns messages).take k).flatten.length ≤ i

/-- **Whole oldest turns go**, no more than needed: what is left fits, or nothing more may go. -/
def LosesTurns (estimate : List ChatMessage → Nat) (budget : Nat) (messages : List ChatMessage)
    (result : Except String Nat × List ChatMessage) : Prop :=
  ∃ k, (k = 0 ∨ k < (turns messages).length) ∧ result.2 = withoutOldest messages k ∧
    (0 < k → budget < estimate (withoutOldest messages (k - 1))) ∧
    -- A call and its answer in one turn stay together.
    (∀ i j, Answers messages i j → (∀ l, i < l → l ≤ j → ∀ m, messages[l]? = some m → beginsTurn m = false) →
      Kept messages k j → Kept messages k i) ∧
    match result.1 with
    | .ok e => e = estimate result.2 ∧ e ≤ budget
    | .error _ => budget < estimate result.2 ∧ (result.2.length ≤ 2 ∨ (turns messages).length ≤ k + 1)

/-- **Fitted**: whole oldest turns go, no more than needed, with no receipt and no call answered later; and nothing goes
from what does not fit. -/
structure Fitted (estimate : List ChatMessage → Nat) (budget : Nat) (messages : List ChatMessage)
    (result : Except String Nat × List ChatMessage) : Prop where
  ok : ∀ e, result.1 = .ok e → e = estimate result.2 ∧ e ≤ budget ∧ ∃ k, (k = 0 ∨ k < (turns messages).length) ∧
    result.2 = withoutOldest messages k ∧
    result.2.filter isCompactionReceipt = messages.filter isCompactionReceipt ∧
    (∀ i j, Answers messages i j → Kept messages k j → Kept messages k i) ∧
    (0 < k → budget < estimate (withoutOldest messages (k - 1)))
  err : ∀ e, result.1 = .error e → result.2 = messages

/-- The messages left without the `k` oldest turns are over the budget, and may lose another turn. -/
def Over (estimate : List ChatMessage → Nat) (budget : Nat) (messages : List ChatMessage) (k : Nat) : Prop :=
  budget < estimate (withoutOldest messages k) ∧ 2 < (withoutOldest messages k).length ∧ k + 1 < (turns messages).length

/-- **The turns that have to go**, where `k` is how many, hold no receipt and no call answered later; and none has to go
from what does not fit. -/
def Fittable (estimate : List ChatMessage → Nat) (budget : Nat) (messages : List ChatMessage) : Prop :=
  ∀ k, (∀ j < k, Over estimate budget messages j) → ¬ Over estimate budget messages k →
    if estimate (withoutOldest messages k) ≤ budget then
      (∀ m ∈ ((turns messages).take k).flatten, isCompactionReceipt m = false) ∧
      ∀ i j, Answers messages i j → Kept messages k j → Kept messages k i
    else k = 0

variable {estimate : List ChatMessage → Nat} {budget k : Nat} {messages : List ChatMessage}

theorem Fittable.dropped (h : Fittable estimate budget messages) (hbelow : ∀ j < k, Over estimate budget messages j)
    (hnot : ¬ Over estimate budget messages k) (hfit : estimate (withoutOldest messages k) ≤ budget) :
    (∀ m ∈ ((turns messages).take k).flatten, isCompactionReceipt m = false) ∧
      ∀ i j, Answers messages i j → Kept messages k j → Kept messages k i := by
  have hk := h k hbelow hnot
  rwa [if_pos hfit] at hk

theorem Fittable.refused (h : Fittable estimate budget messages) (hbelow : ∀ j < k, Over estimate budget messages j)
    (hnot : ¬ Over estimate budget messages k) (hover : budget < estimate (withoutOldest messages k)) : k = 0 := by
  have hk := h k hbelow hnot
  rwa [if_neg (Nat.not_le.2 hover)] at hk

theorem fitLoop_drop {s t : List ChatMessage} {ss : List (List ChatMessage)}
    (hover : budget < estimate messages ∧ 2 < messages.length) (hturns : turns messages = s :: t :: ss) :
    fitLoop estimate budget messages = fitLoop estimate budget (withoutOldest messages 1) := by
  obtain ⟨i, j, hfirst, hkeep⟩ := firstTwo_eq_some hturns
  rw [fitLoop, if_pos hover]
  split
  · next i' j' h =>
    cases hfirst.symm.trans h
    rw [hkeep]
  · next h => exact absurd (hfirst.symm.trans h) (by simp)

theorem fitLoop_stop (h : ¬ (budget < estimate messages ∧ 2 < messages.length ∧ 1 < (turns messages).length)) :
    fitLoop estimate budget messages = messages := by
  rw [fitLoop]
  split
  · next hover =>
    have hnone : firstTwo beginsTurn messages = none :=
      firstTwo_eq_none (Nat.not_lt.1 fun hturns => h ⟨hover.1, hover.2, hturns⟩)
    split
    · next h' => exact absurd (hnone.symm.trans h') (by simp)
    · rfl
  · rfl

theorem length_turns_withoutOldest (messages : List ChatMessage) (k : Nat) :
    (turns (withoutOldest messages k)).length = (turns messages).length - k := by
  rw [turns, withoutOldest, (keep_parts messages k).2, List.length_drop]

theorem fitLoop_withoutOldest (messages : List ChatMessage) : ∀ d k, (turns messages).length - k = d →
    ∃ l, k ≤ l ∧ (∀ j, k ≤ j → j < l → Over estimate budget messages j) ∧ ¬ Over estimate budget messages l ∧
      fitLoop estimate budget (withoutOldest messages k) = withoutOldest messages l := by
  intro d
  induction d with
  | zero =>
    intro k hd
    have hnot : ¬ Over estimate budget messages k := fun h => by have := h.2.2; omega
    refine ⟨k, le_rfl, fun j hj hl => absurd hj (by omega), hnot, fitLoop_stop fun h => ?_⟩
    rw [length_turns_withoutOldest] at h
    omega
  | succ d ih =>
    intro k hd
    by_cases hover : Over estimate budget messages k
    · obtain ⟨l, hl, hbelow, hnot, heq⟩ := ih (k + 1) (by omega)
      refine ⟨l, by omega, fun j hj hjl => ?_, hnot, ?_⟩
      · rcases Nat.eq_or_lt_of_le hj with rfl | hj
        · exact hover
        · exact hbelow j hj hjl
      · obtain ⟨s, t, ss, hturns⟩ : ∃ s t ss, turns (withoutOldest messages k) = s :: t :: ss := by
          have hlen := length_turns_withoutOldest messages k
          have htwo := hover.2.2
          match h : turns (withoutOldest messages k), hlen with
          | [], hlen => simp at hlen; omega
          | [s], hlen => simp at hlen; omega
          | s :: t :: ss, _ => exact ⟨s, t, ss, rfl⟩
        rw [fitLoop_drop ⟨hover.1, hover.2.1⟩ hturns, withoutOldest, keep_keep]
        exact heq
    · refine ⟨k, le_rfl, fun j hj hl => absurd hj (by omega), hover, fitLoop_stop fun h => hover ?_⟩
      rw [length_turns_withoutOldest] at h
      exact ⟨h.1, h.2.1, by omega⟩

theorem fitLoop_eq (estimate : List ChatMessage → Nat) (budget : Nat) (messages : List ChatMessage) :
    ∃ k, (∀ j < k, Over estimate budget messages j) ∧ ¬ Over estimate budget messages k ∧
      fitLoop estimate budget messages = withoutOldest messages k := by
  obtain ⟨k, -, hbelow, hnot, heq⟩ := @fitLoop_withoutOldest estimate budget messages _ 0 rfl
  rw [withoutOldest, keep_zero] at heq
  exact ⟨k, fun j hj => hbelow j (Nat.zero_le _) hj, hnot, heq⟩

theorem eq_zero_or_lt_turns (h : ∀ j < k, Over estimate budget messages j) : k = 0 ∨ k < (turns messages).length := by
  rcases Nat.eq_zero_or_pos k with hk | hk
  · exact .inl hk
  · have hlast := (h (k - 1) (by omega)).2.2
    omega

/-! ## The request -/

theorem fitMessages_fitted_iff (estimate : List ChatMessage → Nat) (budget : Nat) (refusal : Nat → Nat → String)
    (messages : List ChatMessage) :
    Fitted estimate budget messages (fitMessages estimate budget refusal messages) ↔ Fittable estimate budget messages := by
  obtain ⟨k, hbelow, hnot, heq⟩ := fitLoop_eq estimate budget messages
  have hunique : ∀ l, (∀ j < l, Over estimate budget messages j) → ¬ Over estimate budget messages l → l = k := by
    intro l hl hl'
    rcases Nat.lt_trichotomy l k with h | h | h
    · exact absurd (hbelow l h) hl'
    · exact h
    · exact absurd (hl k h) hnot
  have hk := eq_zero_or_lt_turns hbelow
  have hkle : k ≤ (turns messages).length := by omega
  unfold fitMessages
  rw [heq]
  by_cases hfit : estimate (withoutOldest messages k) ≤ budget
  · simp only [if_neg (Nat.not_lt.2 hfit)]
    constructor
    · intro h l hl hl'
      obtain rfl := hunique l hl hl'
      obtain ⟨-, -, l', hl'', hsame, hreceipts, hpairs, -⟩ := h.ok _ rfl
      have hle : l' ≤ (turns messages).length := by omega
      obtain rfl := keep_inj hkle hle hsame
      rw [if_pos hfit]
      exact ⟨filter_keep_iff.1 hreceipts, hpairs⟩
    · intro h
      have hdropped := h.dropped hbelow hnot hfit
      refine ⟨fun e he => ?_, nofun⟩
      cases he
      exact ⟨rfl, hfit, k, hk, rfl, filter_keep_iff.2 hdropped.1, hdropped.2, fun hpos =>
        (hbelow (k - 1) (by omega)).1⟩
  · simp only [if_pos (Nat.not_le.1 hfit)]
    constructor
    · intro h l hl hl'
      obtain rfl := hunique l hl hl'
      rw [if_neg hfit]
      have hsame := h.err _ rfl
      exact keep_inj hkle (Nat.zero_le _) (hsame.trans (keep_zero messages).symm)
    · intro h
      obtain rfl := h.refused hbelow hnot (Nat.not_le.1 hfit)
      exact ⟨nofun, fun _ _ => keep_zero messages⟩

theorem kept_of_kept {i j : Nat} (hk : k = 0 ∨ k < (turns messages).length) (hij : i < j)
    (hsame : ∀ l, i < l → l ≤ j → ∀ m, messages[l]? = some m → beginsTurn m = false) (hj : Kept messages k j) :
    Kept messages k i := by
  by_contra hi
  simp only [Kept, not_or, Nat.not_lt, Nat.not_le] at hi hj
  rcases hk with rfl | hk
  · simp at hi
    omega
  · -- The turns kept begin between the two.
    obtain ⟨m, hm, hget⟩ := @starts_at _ beginsTurn messages k hk
    have hfalse := hsame _ hi.2 (by omega) m hget
    simp [hm] at hfalse

theorem fitMessages_losesTurns (estimate : List ChatMessage → Nat) (budget : Nat) (refusal : Nat → Nat → String)
    (messages : List ChatMessage) :
    LosesTurns estimate budget messages (fitMessages estimate budget refusal messages) := by
  obtain ⟨k, hbelow, hnot, heq⟩ := fitLoop_eq estimate budget messages
  have hk := eq_zero_or_lt_turns hbelow
  unfold fitMessages
  rw [heq]
  refine ⟨k, hk, rfl, fun hpos => (hbelow (k - 1) (by omega)).1, fun i j hij hsame => kept_of_kept hk hij.1 hsame, ?_⟩
  by_cases hfit : estimate (withoutOldest messages k) ≤ budget
  · simp only [if_neg (Nat.not_lt.2 hfit)]
    exact ⟨trivial, hfit⟩
  · simp only [if_pos (Nat.not_le.1 hfit)]
    refine ⟨Nat.not_le.1 hfit, ?_⟩
    by_contra hmore
    simp only [not_or, Nat.not_le] at hmore
    exact hnot ⟨Nat.not_le.1 hfit, hmore.1, hmore.2⟩

/-- **A request loses whole oldest turns**, no more than needed, and nothing but its messages changes. -/
theorem fitChatRequest_turns (f32 : UInt32 → Json) (request : ChatRequest)
    (contextTokens outputReserve bytesPerTokenMilli : Nat) :
    let result := fitChatRequest f32 request contextTokens outputReserve bytesPerTokenMilli
    LosesTurns (fun messages => estimateRequest f32 bytesPerTokenMilli { request with messages })
      (contextTokens - outputReserve) request.messages (result.1, result.2.messages) ∧
    result.2 = { request with messages := result.2.messages } :=
  ⟨fitMessages_losesTurns _ _ requestRefusal _, rfl⟩

theorem fitModelRound_turns (messages : List ChatMessage) (tools : List ToolDeclaration)
    (contextTokens outputReserve bytesPerTokenMilli : Nat) :
    LosesTurns (estimateRound tools bytesPerTokenMilli) (contextTokens - outputReserve) messages
      (fitModelRound messages tools contextTokens outputReserve bytesPerTokenMilli) :=
  fitMessages_losesTurns _ _ _ _

def Fits (f32 : UInt32 → Json) (request : ChatRequest) (contextTokens outputReserve bytesPerTokenMilli : Nat) : Prop :=
  let result := fitChatRequest f32 request contextTokens outputReserve bytesPerTokenMilli
  Fitted (fun messages => estimateRequest f32 bytesPerTokenMilli { request with messages })
    (contextTokens - outputReserve) request.messages (result.1, result.2.messages)

theorem fits_iff {f32 : UInt32 → Json} {request : ChatRequest} {contextTokens outputReserve bytesPerTokenMilli : Nat} :
    Fits f32 request contextTokens outputReserve bytesPerTokenMilli ↔
      Fittable (fun messages => estimateRequest f32 bytesPerTokenMilli { request with messages })
        (contextTokens - outputReserve) request.messages :=
  fitMessages_fitted_iff _ _ requestRefusal _

/-- A receipt behind the oldest question goes with it, a request refused has lost its oldest turn, and an answer behind
the next question loses its call. -/
theorem not_fits_receipt :
    ¬ Fits (fun _ => .null) { model := "m", messages := [{ role := .user, content := some (.text "hello") },
        { role := .user, content := some (.text "Untrusted history summary 1") },
        { role := .user, content := some (.text "go on") }] } 30 0 3000 ∧
    ¬ Fits (fun _ => .null) { model := "m", messages := [{ role := .user, content := some (.text "a") },
        { role := .user, content := some (.text "b") }, { role := .user, content := some (.text "c") }] } 10 0 3000 ∧
    ¬ Fits (fun _ => .null) { model := "m", messages := [{ role := .user, content := some (.text "hello") },
        { role := .assistant, toolCalls := [⟨"c", "function", "f", "{}"⟩] },
        { role := .user, content := some (.text "go on") }, { role := .tool, toolCallId := some "c" }] } 50 0 3000 := by
  have hone : ∀ {p : Nat → Prop}, p 0 → ∀ j < 1, p j := fun h0 j hj => by
    obtain rfl : j = 0 := by omega
    exact h0
  rw [fits_iff, fits_iff, fits_iff]
  refine ⟨fun h => ?_, fun h => ?_, fun h => ?_⟩
  · have hdropped := (h.dropped (hone ⟨by decide +kernel, by decide +kernel, by decide +kernel⟩)
      (fun hover => absurd hover.2.2 (by decide +kernel)) (by decide +kernel)).1
    exact absurd (hdropped { role := .user, content := some (.text "Untrusted history summary 1") } (by decide +kernel))
      (by decide +kernel)
  · exact absurd (h.refused (hone ⟨by decide +kernel, by decide +kernel, by decide +kernel⟩)
      (fun hover => absurd hover.2.1 (by decide +kernel)) (by decide +kernel)) (by decide)
  · have hpairs := (h.dropped (hone ⟨by decide +kernel, by decide +kernel, by decide +kernel⟩)
      (fun hover => absurd hover.2.2 (by decide +kernel)) (by decide +kernel)).2
    refine absurd (hpairs 1 3 ⟨by decide, _, _, "c", rfl, rfl, rfl, rfl, by decide, fun l hl hl' m hm => ?_⟩
      (.inr (by decide +kernel))) (fun hkept => hkept.elim (by decide +kernel) (by decide +kernel))
    obtain rfl : l = 2 := by omega
    cases hm
    rfl

end RequestFit
end Execlaw
