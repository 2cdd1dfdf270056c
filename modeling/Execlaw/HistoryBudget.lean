import Mathlib.Algebra.GroupWithZero.Nat
import Mathlib.Data.List.Infix
/-!
# HistoryBudget — the window of the chat history (`core/src/history_budget.rs`)

The walk from the newest message back stops at the longest suffix that fits: of at most `MIN_KEPT_MESSAGES` messages, or
of estimated tokens within the budget.  The repair then drops the oldest message of that suffix if it is a reply, once,
and whatever comes next.
-/
namespace Execlaw

inductive HistoryRole | user | assistant
deriving DecidableEq

structure HistoryMessage where
  role : HistoryRole
  text : String

structure TruncationOutput where
  kept : List HistoryMessage
  droppedCount : Nat
  keptTokensEstimate : Nat

def minKeptMessages : Nat := 4

def charsPerToken : Nat := 4

def estimateTokens (text : String) : Nat := max ((text.length + (charsPerToken - 1)) / charsPerToken) 1

def walkBack (budget : Nat) : List HistoryMessage → Nat → Nat → Nat × Nat
  | [], tokens, kept => (tokens, kept)
  | msg :: older, tokens, kept =>
    if tokens + estimateTokens msg.text > budget ∧ kept + 1 > minKeptMessages then (tokens, kept)
    else walkBack budget older (tokens + estimateTokens msg.text) (kept + 1)

def truncateToBudget (messages : List HistoryMessage) (maxHistoryTokens : UInt32) : TruncationOutput :=
  if messages.isEmpty then ⟨[], 0, 0⟩
  else
    let walked := walkBack maxHistoryTokens.toNat messages.reverse 0 0
    let cutoffIndex := messages.length - walked.2
    match messages[cutoffIndex]? with
    | some ⟨.assistant, text⟩ =>
      ⟨messages.drop (cutoffIndex + 1), cutoffIndex + 1, walked.1 - estimateTokens text⟩
    | _ => ⟨messages.drop cutoffIndex, cutoffIndex, walked.1⟩

/-! ## The window -/

def tokensOf (messages : List HistoryMessage) : Nat := (messages.map (fun m => estimateTokens m.text)).sum

@[simp] theorem tokensOf_nil : tokensOf [] = 0 := rfl

@[simp] theorem tokensOf_cons (m : HistoryMessage) (messages : List HistoryMessage) :
    tokensOf (m :: messages) = estimateTokens m.text + tokensOf messages := by
  simp [tokensOf]

/-- The suffix from `i` is kept whatever is older. -/
def Fits (budget : Nat) (messages : List HistoryMessage) (i : Nat) : Prop :=
  messages.length - i ≤ minKeptMessages ∨ tokensOf (messages.drop i) ≤ budget

instance (budget : Nat) (messages : List HistoryMessage) (i : Nat) : Decidable (Fits budget messages i) :=
  inferInstanceAs (Decidable (_ ∨ _))

/-- `c` starts the longest suffix that fits. -/
structure Window (budget : Nat) (messages : List HistoryMessage) (c : Nat) : Prop where
  le : c ≤ messages.length
  fits : ∀ i, c ≤ i → Fits budget messages i
  stop : ∀ i, i < c → ¬Fits budget messages i

theorem tokensOf_drop_le : ∀ (k : Nat) (messages : List HistoryMessage), tokensOf (messages.drop k) ≤ tokensOf messages
  | 0, _ => Nat.le_refl _
  | _ + 1, [] => Nat.le_refl _
  | k + 1, m :: messages => by
    have hrest := tokensOf_drop_le k messages
    rw [List.drop_succ_cons, tokensOf_cons]
    omega

theorem Fits.later {budget : Nat} {messages : List HistoryMessage} {i j : Nat} (h : Fits budget messages i)
    (hij : i ≤ j) : Fits budget messages j := by
  rcases h with hfew | htokens
  · left
    omega
  · right
    have hle := tokensOf_drop_le (j - i) (messages.drop i)
    rw [List.drop_drop, Nat.add_sub_cancel' hij] at hle
    omega

theorem Fits.budget_le {b b' : Nat} {messages : List HistoryMessage} {i : Nat} (h : Fits b messages i) (hb : b ≤ b') :
    Fits b' messages i :=
  h.imp_right fun htokens => Nat.le_trans htokens hb

theorem walkBack_window (budget : Nat) : ∀ (older newer : List HistoryMessage),
    (∀ i, older.length ≤ i → Fits budget (older.reverse ++ newer) i) →
    ∃ c, Window budget (older.reverse ++ newer) c ∧ walkBack budget older (tokensOf newer) newer.length =
      (tokensOf ((older.reverse ++ newer).drop c), (older.reverse ++ newer).length - c)
  | [], newer, h => by
    refine ⟨0, ⟨Nat.zero_le _, fun i _ => h i (Nat.zero_le i), nofun⟩, ?_⟩
    simp [walkBack]
  | msg :: older, newer, h => by
    have hsplit : (msg :: older).reverse ++ newer = older.reverse ++ msg :: newer := by simp
    rw [hsplit] at h ⊢
    -- the suffix with this message
    have hdrop : (older.reverse ++ msg :: newer).drop older.length = msg :: newer := by simp
    have hfits : Fits budget (older.reverse ++ msg :: newer) older.length ↔
        newer.length + 1 ≤ minKeptMessages ∨ tokensOf newer + estimateTokens msg.text ≤ budget := by
      rw [Fits, hdrop, tokensOf_cons, Nat.add_comm (estimateTokens msg.text)]
      simp
    rw [walkBack]
    split
    · next hbreak =>
      have hnot : ¬Fits budget (older.reverse ++ msg :: newer) older.length := by
        rw [hfits]
        omega
      refine ⟨older.length + 1, ⟨by simp, fun i hi => h i (by simpa using hi), fun i hi hfit => ?_⟩, ?_⟩
      · exact hnot (hfit.later (by omega))
      · rw [← List.drop_drop, hdrop]
        simp
        omega
    · next hgoes =>
      have hhere : Fits budget (older.reverse ++ msg :: newer) older.length := by
        rw [hfits]
        omega
      obtain ⟨c, hwindow, hwalk⟩ := walkBack_window budget older (msg :: newer) fun i hi => hhere.later hi
      refine ⟨c, hwindow, ?_⟩
      rw [← hwalk, tokensOf_cons, List.length_cons, Nat.add_comm (estimateTokens msg.text)]

def repaired (messages : List HistoryMessage) (c : Nat) : Nat :=
  if messages[c]?.any (fun m => m.role == .assistant) then c + 1 else c

theorem repaired_le (messages : List HistoryMessage) (c : Nat) :
    c ≤ repaired messages c ∧ repaired messages c ≤ c + 1 := by
  unfold repaired
  split <;> omega

theorem truncateToBudget_eq (messages : List HistoryMessage) (budget : UInt32) :
    ∃ c, Window budget.toNat messages c ∧ truncateToBudget messages budget =
      ⟨messages.drop (repaired messages c), repaired messages c, tokensOf (messages.drop (repaired messages c))⟩ := by
  obtain ⟨c, hwindow, hwalk⟩ := walkBack_window budget.toNat messages.reverse [] fun i hi => by
    left
    simp at hi ⊢
    omega
  rw [List.reverse_reverse, List.append_nil] at hwindow hwalk
  refine ⟨c, hwindow, ?_⟩
  unfold truncateToBudget
  split
  · next hempty =>
    obtain rfl := List.isEmpty_iff.1 hempty
    obtain rfl : c = 0 := Nat.le_zero.1 hwindow.le
    rfl
  simp only [tokensOf_nil, List.length_nil] at hwalk
  have hcut : messages.length - (messages.length - c) = c := Nat.sub_sub_self hwindow.le
  simp only [hwalk, hcut, repaired]
  cases hmsg : messages[c]? with
  | none => simp
  | some m =>
    obtain ⟨role, text⟩ := m
    have hdrop : messages.drop c = ⟨role, text⟩ :: messages.drop (c + 1) := by
      obtain ⟨hlt, hget⟩ := List.getElem?_eq_some_iff.1 hmsg
      rw [List.drop_eq_getElem_cons hlt, hget]
    cases role with
    | user => simp
    | assistant => simp [hdrop]

/-! ## The window and the budget -/

/-- **A larger budget keeps what a smaller one kept.** -/
theorem truncate_monotone (messages : List HistoryMessage) {b₁ b₂ : UInt32} (h : b₁ ≤ b₂) :
    (truncateToBudget messages b₁).kept <:+ (truncateToBudget messages b₂).kept := by
  obtain ⟨c₁, h₁, heq₁⟩ := truncateToBudget_eq messages b₁
  obtain ⟨c₂, h₂, heq₂⟩ := truncateToBudget_eq messages b₂
  have hc : c₂ ≤ c₁ := by
    by_contra hlt
    exact h₂.stop c₁ (by omega) ((h₁.fits c₁ (Nat.le_refl c₁)).budget_le h)
  -- the repair moves the start by one at most, and equal starts alike
  have hd : repaired messages c₂ ≤ repaired messages c₁ := by
    by_cases hsame : c₂ = c₁
    · rw [hsame]
    · have hle := (repaired_le messages c₂).2
      have hge := (repaired_le messages c₁).1
      omega
  rw [heq₁, heq₂]
  have hdrop : messages.drop (repaired messages c₁) =
      (messages.drop (repaired messages c₂)).drop (repaired messages c₁ - repaired messages c₂) := by
    rw [List.drop_drop, Nat.add_sub_cancel' hd]
  rw [hdrop]
  exact List.drop_suffix _ _

theorem truncate_monotone_sample :
    (truncateToBudget [⟨.user, "one"⟩, ⟨.assistant, "two"⟩, ⟨.user, "three"⟩, ⟨.assistant, "four"⟩, ⟨.user, "five"⟩] 4).kept <:+
      (truncateToBudget [⟨.user, "one"⟩, ⟨.assistant, "two"⟩, ⟨.user, "three"⟩, ⟨.assistant, "four"⟩, ⟨.user, "five"⟩] 9).kept :=
  truncate_monotone _ (by decide)

/-! ## Recent messages -/

def roleAt (messages : List HistoryMessage) (i : Nat) : Option HistoryRole := messages[i]?.map HistoryMessage.role

theorem repaired_eq (messages : List HistoryMessage) (c : Nat) :
    repaired messages c = if roleAt messages c = some .assistant then c + 1 else c := by
  unfold repaired roleAt
  cases messages[c]? <;> simp

structure RecentKept (messages : List HistoryMessage) (budget : UInt32) (out : TruncationOutput) : Prop where
  suffix : out.kept <:+ messages
  recent : min minKeptMessages messages.length ≤ out.kept.length
  counted : out.kept.length + out.droppedCount = messages.length
  tokens : out.keptTokensEstimate = tokensOf out.kept
  within : minKeptMessages < out.kept.length → tokensOf out.kept ≤ budget.toNat

/-- **The recent messages survive** unless the oldest of them is a reply and the message before it does not fit. -/
theorem recentKept_iff (messages : List HistoryMessage) (budget : UInt32) :
    RecentKept messages budget (truncateToBudget messages budget) ↔
      (roleAt messages (messages.length - minKeptMessages) = some .assistant → minKeptMessages < messages.length ∧
        tokensOf (messages.drop (messages.length - (minKeptMessages + 1))) ≤ budget.toNat) := by
  obtain ⟨c, hwindow, heq⟩ := truncateToBudget_eq messages budget
  rw [heq]
  have hmin : minKeptMessages = 4 := rfl
  have hc : c ≤ messages.length - minKeptMessages := by
    by_contra hlt
    refine hwindow.stop (messages.length - minKeptMessages) (by omega) (.inl ?_)
    omega
  obtain ⟨hge, hle⟩ := repaired_le messages c
  have hlen : repaired messages c ≤ messages.length := by
    rw [repaired_eq] at hle ⊢
    split
    · next hrole =>
      obtain ⟨m, hm, -⟩ := Option.map_eq_some_iff.1 hrole
      exact (List.getElem?_eq_some_iff.1 hm).1
    · exact hwindow.le
  constructor
  · intro h hrole
    have hrecent := h.recent
    simp only [List.length_drop] at hrecent
    -- the window starts before the recent messages
    have hlt : c < messages.length - minKeptMessages := by
      refine lt_of_le_of_ne hc fun hsame => ?_
      rw [repaired_eq, hsame, if_pos hrole] at hrecent
      obtain ⟨m, hm, -⟩ := Option.map_eq_some_iff.1 hrole
      have hlt := (List.getElem?_eq_some_iff.1 hm).1
      omega
    refine ⟨by omega, ?_⟩
    rcases hwindow.fits (messages.length - (minKeptMessages + 1)) (by omega) with hfew | htokens
    · omega
    · exact htokens
  · intro h
    have hd : repaired messages c ≤ messages.length - minKeptMessages := by
      rw [repaired_eq]
      split
      · next hrole =>
        by_contra hgt
        obtain rfl : c = messages.length - minKeptMessages := by omega
        obtain ⟨hmore, htokens⟩ := h hrole
        exact hwindow.stop (messages.length - (minKeptMessages + 1)) (by omega) (.inr htokens)
      · exact hc
    refine ⟨List.drop_suffix _ _, ?_, ?_, rfl, fun hmore => ?_⟩
    · simp only [List.length_drop]
      omega
    · simp only [List.length_drop]
      omega
    · simp only [List.length_drop] at hmore
      rcases hwindow.fits (repaired messages c) hge with hfew | htokens
      · omega
      · exact htokens

/-- Of an alternating history only three messages are kept, where the fourth is a reply. -/
theorem fourth_reply_dropped :
    ¬RecentKept [⟨.user, "a"⟩, ⟨.assistant, "b"⟩, ⟨.user, "c"⟩, ⟨.assistant, "d"⟩, ⟨.user, "e"⟩] 0
      (truncateToBudget [⟨.user, "a"⟩, ⟨.assistant, "b"⟩, ⟨.user, "c"⟩, ⟨.assistant, "d"⟩, ⟨.user, "e"⟩] 0) := by
  intro h
  have hrecent := h.recent
  revert hrecent
  decide

/-! ## Pairs -/

/-- `u` is the nearest user message before `j`. -/
structure Asked (messages : List HistoryMessage) (u j : Nat) : Prop where
  before : u < j
  user : roleAt messages u = some .user
  nearest : ∀ v, u < v → v < j → roleAt messages v ≠ some .user

def PairCoherent (messages : List HistoryMessage) (out : TruncationOutput) : Prop :=
  out.kept = messages.drop out.droppedCount ∧ ∀ j u, out.droppedCount ≤ j → roleAt messages j = some .assistant →
    Asked messages u j → out.droppedCount ≤ u

structure SplitReplies (messages : List HistoryMessage) (budget : UInt32) (i : Nat) : Prop where
  reply : roleAt messages i = some .assistant
  again : roleAt messages (i + 1) = some .assistant
  asked : ∃ u, u < i ∧ roleAt messages u = some .user
  fits : Fits budget.toNat messages i
  stop : ¬Fits budget.toNat messages (i - 1)

theorem asked_of_user {messages : List HistoryMessage} {u j : Nat} (huser : roleAt messages u = some .user) :
    u < j → ∃ u', Asked messages u' j := by
  induction j with
  | zero => exact fun h => absurd h (Nat.not_lt_zero u)
  | succ j ih =>
    intro h
    by_cases hj : roleAt messages j = some .user
    · exact ⟨j, Nat.lt_succ_self j, hj, fun v hv hv' => by omega⟩
    · have hne : u ≠ j := fun heq => hj (heq ▸ huser)
      obtain ⟨u', hasked⟩ := ih (by omega)
      refine ⟨u', Nat.lt_succ_of_lt hasked.before, hasked.user, fun v hv hv' => ?_⟩
      by_cases hvj : v = j
      · rwa [hvj]
      · exact hasked.nearest v hv (by omega)

theorem roleAt_assistant {messages : List HistoryMessage} {i j : Nat} (hij : i ≤ j) (hj : roleAt messages j ≠ none)
    (hi : roleAt messages i ≠ some .user) : roleAt messages i = some .assistant := by
  have hlt : j < messages.length := by
    by_contra hge
    exact hj (by rw [roleAt, List.getElem?_eq_none (by omega), Option.map_none])
  have hsome : messages[i]? = some messages[i] := List.getElem?_eq_getElem _
  rw [roleAt, hsome, Option.map_some] at hi ⊢
  cases hrole : messages[i].role with
  | user => simp [hrole] at hi
  | assistant => rfl

/-- **Pairs stay together** unless the window would start inside a run of replies. -/
theorem pairCoherent_iff (messages : List HistoryMessage) (budget : UInt32) :
    PairCoherent messages (truncateToBudget messages budget) ↔ ¬∃ i, SplitReplies messages budget i := by
  obtain ⟨c, hwindow, heq⟩ := truncateToBudget_eq messages budget
  rw [heq]
  constructor
  · rintro ⟨-, h⟩ ⟨i, hi⟩
    have hpos : 0 < i := by
      obtain ⟨u, hu, -⟩ := hi.asked
      omega
    obtain rfl : c = i := by
      by_contra hne
      rcases Nat.lt_or_gt_of_ne hne with hlt | hgt
      · exact hi.stop (hwindow.fits (i - 1) (by omega))
      · exact hwindow.stop i hgt hi.fits
    obtain ⟨u, hu, huser⟩ := hi.asked
    obtain ⟨u', hasked⟩ := asked_of_user (j := c + 1) huser (by omega)
    have hd : repaired messages c = c + 1 := by rw [repaired_eq, if_pos hi.reply]
    have hkept := h (c + 1) u' (Nat.le_of_eq hd) hi.again hasked
    have hbefore := hasked.before
    dsimp only at hkept
    omega
  · intro h
    refine ⟨rfl, fun j u hj hreply hasked => ?_⟩
    dsimp only at hj ⊢
    by_contra hdropped
    have hsome : roleAt messages j ≠ none := by simp [hreply]
    rw [repaired_eq] at hj hdropped
    split at hdropped
    · next hrole =>
      rw [if_pos hrole] at hj
      have hne : u ≠ c := by
        rintro rfl
        rw [hasked.user] at hrole
        cases hrole
      -- the message after the dropped reply is another
      have hagain : roleAt messages (c + 1) = some .assistant := by
        by_cases hlast : c + 1 = j
        · rwa [hlast]
        · exact roleAt_assistant hj hsome (hasked.nearest (c + 1) (by omega) (by omega))
      exact h ⟨c, hrole, hagain, ⟨u, by omega, hasked.user⟩, hwindow.fits c (Nat.le_refl c),
        hwindow.stop (c - 1) (by omega)⟩
    · next hrole =>
      rw [if_neg hrole] at hj
      by_cases hlast : c = j
      · exact hrole (hlast ▸ hreply)
      · exact hrole (roleAt_assistant hj hsome (hasked.nearest c (by omega) (by omega)))

/-- The second of two replies is kept, and not the message they answer. -/
theorem reply_orphaned :
    ¬PairCoherent [⟨.user, "a"⟩, ⟨.assistant, "b"⟩, ⟨.assistant, "c"⟩, ⟨.user, "d"⟩, ⟨.assistant, "e"⟩]
      (truncateToBudget [⟨.user, "a"⟩, ⟨.assistant, "b"⟩, ⟨.assistant, "c"⟩, ⟨.user, "d"⟩, ⟨.assistant, "e"⟩] 0) := by
  rintro ⟨-, h⟩
  have hkept := h 2 0 (by decide) (by decide) ⟨by decide, by decide, fun v hv hv' => by
    obtain rfl : v = 1 := by omega
    decide⟩
  revert hkept
  decide

end Execlaw
