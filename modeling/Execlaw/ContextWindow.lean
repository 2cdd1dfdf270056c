import Execlaw.ChatMessages
import Mathlib.Data.List.TakeWhile
/-!
# ContextWindow — trimming the history sent to the model (`context-window/src/lib.rs`)

A policy trims a list of messages.  Past the system messages in front it drops a prefix of the conversation, never adds
and never reorders, and trimming twice is trimming once (`apply_trims_iff`): but no turns at all drop every system
message past the first, and a turn boundary may part a tool message from the call it answers.
-/
namespace Execlaw
namespace ContextWindow

inductive ContextWindowPolicy
  | fullReplay
  | slidingTurns (maxTurns : Nat)
  | tokenBudget (maxTokens reserveForReply : Nat)

def estimateTokens (messages : List ChatMessage) : Nat :=
  (messages.map fun m =>
    let contentChars := match m.content with
      | some (.text t) => t.utf8ByteSize
      | some (.parts parts) => (parts.map fun
        | .text text => text.utf8ByteSize
        | .imageUrl _ => 256).sum
      | none => 0
    4 + contentChars / 4).sum

def countTurns (maxTurns : Nat) : List (ChatMessage × Nat) → Nat → Nat → Nat × Nat
  | [], turnsCounted, keepFrom => (turnsCounted, keepFrom)
  | (msg, i) :: rest, turnsCounted, keepFrom =>
    let turnsCounted := if msg.role = .user then turnsCounted + 1 else turnsCounted
    if turnsCounted = maxTurns then (turnsCounted, i) else countTurns maxTurns rest turnsCounted keepFrom

def slideFrom (maxTurns conversationStart : Nat) (messages : List ChatMessage) : List ChatMessage :=
  let counted := countTurns maxTurns (messages.zipIdx.drop conversationStart).reverse 0 messages.length
  if conversationStart < counted.2 ∧ maxTurns ≤ counted.1 then
    -- `messages.drain(conversation_start..keep_from)`
    messages.take conversationStart ++ messages.drop counted.2
  else messages

def slideTurns (maxTurns : Nat) (messages : List ChatMessage) : List ChatMessage :=
  slideFrom maxTurns ((messages.findIdx? (·.role ≠ .system)).getD 0) messages

def trimLoop (budget trimUpTo : Nat) (messages : List ChatMessage) : List ChatMessage :=
  if estimateTokens messages ≤ budget then messages
  else if _h : messages.length - 1 ≤ trimUpTo then messages
  else trimLoop budget trimUpTo (messages.eraseIdx trimUpTo)
termination_by messages.length
decreasing_by
  rw [List.length_eraseIdx]
  split <;> omega

def apply (policy : ContextWindowPolicy) (messages : List ChatMessage) : List ChatMessage :=
  if messages.length ≤ 1 then messages
  else
    match policy with
    | .fullReplay => messages
    | .slidingTurns 0 => messages.take 1
    | .slidingTurns maxTurns => slideTurns maxTurns messages
    | .tokenBudget maxTokens reserveForReply =>
      trimLoop (maxTokens - reserveForReply) ((messages.findIdx? (·.role ≠ .system)).getD messages.length) messages

/-! ## What trimming is to be -/

def lead (messages : List ChatMessage) : List ChatMessage := messages.takeWhile (·.isSystem)

def conversation (messages : List ChatMessage) : List ChatMessage := messages.dropWhile (·.isSystem)

/-- **Trimming only trims old conversation**: a prefix of the conversation goes, a tool message with its call when turns
are counted, and trimming again does nothing. -/
def Trims (policy : ContextWindowPolicy) (messages : List ChatMessage) : Prop :=
  (∃ k ≤ (conversation messages).length, apply policy messages = lead messages ++ (conversation messages).drop k ∧
    ∀ n, policy = .slidingTurns n → ∀ i j, Answers (conversation messages) i j → (k ≤ i ↔ k ≤ j)) ∧
  apply policy (apply policy messages) = apply policy messages

/-- The `n`-th user message from the end is at `k`. -/
def TurnAt (n : Nat) (messages : List ChatMessage) (k : Nat) : Prop :=
  (∃ m, messages[k]? = some m ∧ m.isUser) ∧ (messages.drop k).countP (·.isUser) = n

def Trimmable (messages : List ChatMessage) : ContextWindowPolicy → Prop
  | .slidingTurns 0 => (lead messages).length = 1
  | .slidingTurns n => ∀ k, TurnAt n (conversation messages) k →
      ∀ i j, Answers (conversation messages) i j → k ≤ j → k ≤ i
  | _ => True

/-! ## Parts of a list -/

variable {messages ms : List ChatMessage} {m : ChatMessage} {n k start budget : Nat}

theorem lead_append_conversation (messages : List ChatMessage) : lead messages ++ conversation messages = messages :=
  List.takeWhile_append_dropWhile

theorem isSystem_of_mem_lead (h : m ∈ lead messages) : m.isSystem = true := List.mem_takeWhile_imp h

theorem lead_append {pre : List ChatMessage} (hpre : ∀ m ∈ pre, m.isSystem = true)
    (hms : ∀ m, ms.head? = some m → m.isSystem = false) :
    lead (pre ++ ms) = pre ∧ conversation (pre ++ ms) = ms := by
  have hstop : ms.takeWhile (·.isSystem) = [] ∧ ms.dropWhile (·.isSystem) = ms := by
    cases ms with
    | nil => exact ⟨rfl, rfl⟩
    | cons m ms => simp [hms m rfl]
  constructor
  · rw [lead, List.takeWhile_append_of_pos hpre, hstop.1, List.append_nil]
  · rw [conversation, List.dropWhile_append_of_pos hpre, hstop.2]

theorem length_le_lead {pre : List ChatMessage} (hpre : ∀ m ∈ pre, m.isSystem = true) :
    pre.length ≤ (lead (pre ++ ms)).length := by
  rw [lead, List.takeWhile_append_of_pos hpre, List.length_append]
  exact Nat.le_add_right _ _

theorem findIdx?_conversation (messages : List ChatMessage) : messages.findIdx? (·.role ≠ .system) =
    if conversation messages = [] then none else some (lead messages).length := by
  induction messages with
  | nil => rfl
  | cons m ms ih =>
    rw [List.findIdx?_cons, ih]
    by_cases hm : m.role = .system
    · have hlead : lead (m :: ms) = m :: lead ms := by simp [lead, ChatMessage.isSystem, hm]
      have hconv : conversation (m :: ms) = conversation ms := by simp [conversation, ChatMessage.isSystem, hm]
      rw [hlead, hconv]
      by_cases hnil : conversation ms = [] <;> simp [hm, hnil]
    · simp [hm, conversation, lead, ChatMessage.isSystem]

/-! ## Turns -/

theorem TurnAt.lt (h : TurnAt n ms k) : k < ms.length := by
  obtain ⟨⟨m, hm, -⟩, -⟩ := h
  exact (List.getElem?_eq_some_iff.1 hm).1

theorem TurnAt.unique {l : Nat} (hk : TurnAt n ms k) (hl : TurnAt n ms l) : k = l := by
  have key : ∀ {k l : Nat}, TurnAt n ms k → TurnAt n ms l → ¬ k < l := by
    intro k l hk hl hlt
    obtain ⟨⟨m, hm, huser⟩, hcount⟩ := hk
    obtain ⟨hlen, hget⟩ := List.getElem?_eq_some_iff.1 hm
    have hsub : (ms.drop l).countP (·.isUser) ≤ (ms.drop (k + 1)).countP (·.isUser) := by
      refine List.Sublist.countP_le ?_
      have hsplit : l = k + 1 + (l - (k + 1)) := by omega
      rw [hsplit, ← List.drop_drop]
      exact List.drop_sublist _ _
    rw [List.drop_eq_getElem_cons hlen, hget] at hcount
    have hfirst : (ms.drop (k + 1)).countP (·.isUser) + 1 = n := by
      rw [← hcount, List.countP_cons_of_pos huser]
    have hlater : (ms.drop l).countP (·.isUser) = n := hl.2
    omega
  have h1 := key hk hl
  have h2 := key hl hk
  omega

theorem TurnAt.snoc (h : TurnAt n ms k) (m : ChatMessage) :
    TurnAt (n + if m.isUser then 1 else 0) (ms ++ [m]) k := by
  have hlt := h.lt
  obtain ⟨⟨u, hu, huser⟩, hcount⟩ := h
  refine ⟨⟨u, by rw [List.getElem?_append_left hlt, hu], huser⟩, ?_⟩
  rw [List.drop_append_of_le_length hlt.le, List.countP_append, hcount, List.countP_singleton]

theorem countTurns_eq (ms : List ChatMessage) : ∀ {turns keepFrom : Nat}, turns < n →
    (countTurns n (ms.zipIdx start).reverse turns keepFrom = (turns + ms.countP (·.isUser), keepFrom) ∧
      turns + ms.countP (·.isUser) < n) ∨
    ∃ k, TurnAt (n - turns) ms k ∧ countTurns n (ms.zipIdx start).reverse turns keepFrom = (n, start + k) := by
  induction ms using List.reverseRecOn with
  | nil => exact fun h => .inl ⟨rfl, h⟩
  | append_singleton ms m ih =>
    intro turns keepFrom h
    rw [List.zipIdx_append, List.reverse_append, List.countP_append, List.countP_singleton]
    show (countTurns n ((m, start + ms.length) :: (ms.zipIdx start).reverse) turns keepFrom = _ ∧ _) ∨
      ∃ k, _ ∧ countTurns n ((m, start + ms.length) :: (ms.zipIdx start).reverse) turns keepFrom = _
    rw [countTurns]
    by_cases hm : m.role = .user
    · have huser : m.isUser = true := by simp [ChatMessage.isUser, hm]
      rw [if_pos hm]
      by_cases hn : turns + 1 = n
      · refine .inr ⟨ms.length, ⟨⟨m, by simp, huser⟩, ?_⟩, by simp [hn]⟩
        simp [huser]; omega
      · rw [if_neg hn]
        rcases @ih (turns + 1) keepFrom (by omega) with ⟨heq, hlt⟩ | ⟨k, hk, heq⟩
        · refine .inl ⟨?_, ?_⟩
          · rw [heq, huser, if_pos rfl]
            congr 1; omega
          · rw [huser, if_pos rfl]; omega
        · refine .inr ⟨k, ?_, heq⟩
          have hsnoc := hk.snoc m
          rw [huser, if_pos rfl] at hsnoc
          have hturns : n - (turns + 1) + 1 = n - turns := by omega
          rwa [hturns] at hsnoc
    · have huser : m.isUser = false := by simp [ChatMessage.isUser, hm]
      rw [if_neg hm, if_neg (by omega)]
      rcases @ih turns keepFrom h with ⟨heq, hlt⟩ | ⟨k, hk, heq⟩
      · exact .inl ⟨by simp [heq, huser], by simpa [huser] using hlt⟩
      · have hsnoc := hk.snoc m
        exact .inr ⟨k, by simpa [huser] using hsnoc, heq⟩

theorem TurnAt.le_countP (h : TurnAt n ms k) : n ≤ ms.countP (·.isUser) :=
  h.2 ▸ (List.drop_sublist k ms).countP_le

theorem slideFrom_eq (pre ms : List ChatMessage) (hn : 0 < n) :
    (slideFrom n pre.length (pre ++ ms) = pre ++ ms ∧ ∀ k, ¬ TurnAt n ms k) ∨
    ∃ k, TurnAt n ms k ∧ slideFrom n pre.length (pre ++ ms) = pre ++ ms.drop k := by
  have hdrop : (pre ++ ms).zipIdx.drop pre.length = ms.zipIdx pre.length := by
    rw [List.zipIdx_append, Nat.zero_add]
    exact List.drop_left' (by simp)
  unfold slideFrom
  rw [hdrop]
  rcases @countTurns_eq n pre.length ms 0 (pre ++ ms).length hn with ⟨heq, hlt⟩ | ⟨k, hk, heq⟩
  · rw [Nat.zero_add] at hlt
    refine .inl ⟨?_, fun k hk => Nat.not_le.2 hlt hk.le_countP⟩
    simp only [heq, Nat.zero_add]
    rw [if_neg fun h => Nat.not_le.2 hlt h.2]
  · refine .inr ⟨k, hk, ?_⟩
    simp only [heq]
    by_cases hpos : 0 < k
    · rw [if_pos ⟨by omega, le_rfl⟩, List.take_left, ← List.drop_drop, List.drop_left]
    · obtain rfl : k = 0 := by omega
      rw [if_neg (by omega), List.drop_zero]

theorem slideTurns_eq (hn : 0 < n) (messages : List ChatMessage) :
    (slideTurns n messages = messages ∧ ∀ k, ¬ TurnAt n (conversation messages) k) ∨ ∃ k,
      TurnAt n (conversation messages) k ∧ slideTurns n messages = lead messages ++ (conversation messages).drop k := by
  have hsplit := lead_append_conversation messages
  unfold slideTurns
  rw [findIdx?_conversation]
  by_cases hconv : conversation messages = []
  · -- Only system messages: the walk meets no user.
    have hnone : ∀ k, ¬ TurnAt n messages k := by
      rintro k ⟨⟨m, hm, huser⟩, -⟩
      have hmem : m ∈ lead messages := by
        rw [hconv, List.append_nil] at hsplit
        rw [hsplit]
        exact List.mem_of_getElem? hm
      have hsys := isSystem_of_mem_lead hmem
      simp_all [ChatMessage.isUser, ChatMessage.isSystem]
    rw [if_pos hconv, hconv]
    rcases slideFrom_eq [] messages hn with ⟨heq, -⟩ | ⟨k, hk, -⟩
    · exact .inl ⟨heq, fun k hk => absurd hk.lt (by simp)⟩
    · exact absurd hk (hnone k)
  · rw [if_neg hconv, Option.getD_some]
    have h := slideFrom_eq (lead messages) (conversation messages) hn
    rw [hsplit] at h
    exact h

/-! ## The budget -/

theorem trimLoop_eq (pre : List ChatMessage) : ∀ ms : List ChatMessage, ∃ k ≤ ms.length,
    trimLoop budget pre.length (pre ++ ms) = pre ++ ms.drop k ∧
    (estimateTokens (pre ++ ms.drop k) ≤ budget ∨ (pre ++ ms.drop k).length - 1 ≤ pre.length)
  | [] => by
    refine ⟨0, le_rfl, ?_, .inr (by simp)⟩
    rw [trimLoop]
    split_ifs <;> simp_all
  | m :: ms => by
    rw [trimLoop]
    by_cases hfit : estimateTokens (pre ++ m :: ms) ≤ budget
    · exact ⟨0, Nat.zero_le _, if_pos hfit, .inl hfit⟩
    · rw [if_neg hfit]
      by_cases hlast : (pre ++ m :: ms).length - 1 ≤ pre.length
      · exact ⟨0, Nat.zero_le _, dif_pos hlast, .inr hlast⟩
      · have herase : (pre ++ m :: ms).eraseIdx pre.length = pre ++ ms := by
          rw [List.eraseIdx_append_of_length_le le_rfl]
          simp
        rw [dif_neg hlast, herase]
        obtain ⟨k, hk, heq, hstop⟩ := trimLoop_eq pre ms
        exact ⟨k + 1, Nat.succ_le_succ hk, heq, hstop⟩

variable {policy : ContextWindowPolicy}

theorem apply_of_length_le (h : messages.length ≤ 1) : apply policy messages = messages := if_pos h

theorem getD_conversationStart (messages : List ChatMessage) :
    (messages.findIdx? (·.role ≠ .system)).getD messages.length = (lead messages).length := by
  rw [findIdx?_conversation]
  by_cases hconv : conversation messages = []
  · have hsplit := lead_append_conversation messages
    rw [hconv, List.append_nil] at hsplit
    simp [hconv, hsplit]
  · simp [hconv]

theorem apply_tokenBudget {maxTokens reserve : Nat} (h : ¬ messages.length ≤ 1) :
    apply (.tokenBudget maxTokens reserve) messages =
      trimLoop (maxTokens - reserve) (lead messages).length messages := by
  rw [apply, if_neg h, ← getD_conversationStart]

theorem apply_slidingTurns (h : ¬ messages.length ≤ 1) (hn : 0 < n) :
    apply (.slidingTurns n) messages = slideTurns n messages := by
  obtain ⟨n, rfl⟩ : ∃ l, n = l + 1 := ⟨n - 1, by omega⟩
  exact if_neg h

theorem apply_slidingTurns_zero (h : ¬ messages.length ≤ 1) : apply (.slidingTurns 0) messages = messages.take 1 := if_neg h

theorem trimLoop_of_stop (h : estimateTokens messages ≤ budget ∨ messages.length - 1 ≤ start) :
    trimLoop budget start messages = messages := by
  rw [trimLoop]
  split_ifs with hfit hlast
  · rfl
  · rfl
  · rcases h with h | h
    · exact absurd h hfit
    · exact absurd h hlast

theorem slideTurns_slideTurns (hn : 0 < n) (messages : List ChatMessage) :
    slideTurns n (slideTurns n messages) = slideTurns n messages := by
  rcases slideTurns_eq hn messages with ⟨heq, -⟩ | ⟨k, hk, heq⟩
  · rw [heq, heq]
  · -- What is kept begins with the boundary, which is again the boundary.
    obtain ⟨u, hu, huser⟩ := hk.1
    have hhead : ∀ m, ((conversation messages).drop k).head? = some m → m.isSystem = false := by
      intro m hm
      rw [List.head?_drop, hu, Option.some.injEq] at hm
      subst hm
      simp_all [ChatMessage.isUser, ChatMessage.isSystem]
    obtain ⟨hlead, hconv⟩ := lead_append (fun m => isSystem_of_mem_lead) hhead
    have hzero : TurnAt n ((conversation messages).drop k) 0 := ⟨⟨u, by simpa using hu, huser⟩, hk.2⟩
    rw [heq]
    rcases slideTurns_eq hn (lead messages ++ (conversation messages).drop k) with ⟨hsame, -⟩ | ⟨l, hl, hsame⟩
    · exact hsame
    · rw [hconv] at hl
      rw [hsame, hlead, hconv, hl.unique hzero, List.drop_zero]

theorem apply_apply (policy : ContextWindowPolicy) (messages : List ChatMessage) :
    apply policy (apply policy messages) = apply policy messages := by
  by_cases hlen : messages.length ≤ 1
  · rw [apply_of_length_le hlen, apply_of_length_le hlen]
  by_cases hlen' : (apply policy messages).length ≤ 1
  · exact apply_of_length_le hlen'
  cases policy with
  | fullReplay => rw [apply, if_neg hlen']
  | slidingTurns n =>
    rcases Nat.eq_zero_or_pos n with rfl | hn
    · refine absurd ?_ hlen'
      rw [apply_slidingTurns_zero hlen]
      exact List.length_take_le _ _
    · rw [apply_slidingTurns hlen' hn, apply_slidingTurns hlen hn, slideTurns_slideTurns hn]
  | tokenBudget maxTokens reserve =>
    rw [apply_tokenBudget hlen', apply_tokenBudget hlen]
    obtain ⟨k, -, heq, hstop⟩ := @trimLoop_eq (maxTokens - reserve) (lead messages) (conversation messages)
    rw [lead_append_conversation] at heq
    rw [heq]
    refine trimLoop_of_stop (hstop.imp_right fun hlast => hlast.trans ?_)
    exact length_le_lead fun m => isSystem_of_mem_lead

theorem trims_iff_of_cut (hk : k ≤ (conversation messages).length)
    (hcut : apply policy messages = lead messages ++ (conversation messages).drop k) :
    Trims policy messages ↔
      ∀ n, policy = .slidingTurns n → ∀ i j, Answers (conversation messages) i j → (k ≤ i ↔ k ≤ j) := by
  constructor
  · rintro ⟨⟨l, hl, hcut', hpairs⟩, -⟩
    have hlen := congrArg List.length (List.append_cancel_left (hcut.symm.trans hcut'))
    rw [List.length_drop, List.length_drop] at hlen
    obtain rfl : k = l := by omega
    exact hpairs
  · exact fun hpairs => ⟨⟨k, hk, hcut, hpairs⟩, apply_apply policy messages⟩

theorem trims_slidingTurns_iff (hn : 0 < n) (hlead : lead messages ≠ []) :
    Trims (.slidingTurns n) messages ↔ ∀ k, TurnAt n (conversation messages) k →
      ∀ i j, Answers (conversation messages) i j → k ≤ j → k ≤ i := by
  have hwhole : apply (.slidingTurns n) messages = messages → (∀ k, ¬ TurnAt n (conversation messages) k) →
      (Trims (.slidingTurns n) messages ↔ ∀ k, TurnAt n (conversation messages) k →
        ∀ i j, Answers (conversation messages) i j → k ≤ j → k ≤ i) := by
    intro heq hnone
    have hcut : apply (.slidingTurns n) messages = lead messages ++ (conversation messages).drop 0 := by
      rw [heq, List.drop_zero, lead_append_conversation]
    rw [trims_iff_of_cut (Nat.zero_le _) hcut]
    exact ⟨fun _ k hk => absurd hk (hnone k), fun _ _ _ _ _ _ => by simp⟩
  by_cases hlen : messages.length ≤ 1
  · refine hwhole (apply_of_length_le hlen) fun k hk => ?_
    have hsplit := congrArg List.length (lead_append_conversation messages)
    have hpos := List.length_pos_iff.2 hlead
    have hlt := hk.lt
    rw [List.length_append] at hsplit
    omega
  · rcases slideTurns_eq hn messages with ⟨heq, hnone⟩ | ⟨k, hk, heq⟩
    · exact hwhole ((apply_slidingTurns hlen hn).trans heq) hnone
    · rw [trims_iff_of_cut hk.lt.le ((apply_slidingTurns hlen hn).trans heq)]
      constructor
      · intro h l hl i j hij hj
        obtain rfl := hk.unique hl
        exact (h n rfl i j hij).2 hj
      · rintro h _ - i j hij
        exact ⟨fun hi => hi.trans hij.1.le, h k hk i j hij⟩

theorem trims_slidingTurns_zero_iff (hlead : lead messages ≠ []) :
    Trims (.slidingTurns 0) messages ↔ (lead messages).length = 1 := by
  have hpos := List.length_pos_iff.2 hlead
  have hsplit := congrArg List.length (lead_append_conversation messages)
  rw [List.length_append] at hsplit
  by_cases hlen : messages.length ≤ 1
  · have hcut : apply (.slidingTurns 0) messages = lead messages ++ (conversation messages).drop 0 := by
      rw [apply_of_length_le hlen, List.drop_zero, lead_append_conversation]
    rw [trims_iff_of_cut (Nat.zero_le _) hcut]
    exact ⟨fun _ => by omega, fun _ _ _ _ _ _ => by simp⟩
  · constructor
    · rintro ⟨⟨k, -, hcut, -⟩, -⟩
      have hone := congrArg List.length hcut
      rw [apply_slidingTurns_zero hlen, List.length_take, List.length_append] at hone
      omega
    · intro hone
      have htake : messages.take 1 = lead messages := by
        conv => lhs; rw [← lead_append_conversation messages, ← hone]
        exact List.take_left
      have hcut : apply (.slidingTurns 0) messages =
          lead messages ++ (conversation messages).drop (conversation messages).length := by
        rw [apply_slidingTurns_zero hlen, htake, List.drop_length, List.append_nil]
      rw [trims_iff_of_cut le_rfl hcut]
      intro n _ i j hij
      have hj := hij.lt
      have hi := hij.1
      omega

/-- **A policy trims only old conversation** just when no turns are kept behind one system message, and the turns kept
answer no call of the others. -/
theorem apply_trims_iff (policy : ContextWindowPolicy) (messages : List ChatMessage)
    (hsystem : ∃ m rest, messages = m :: rest ∧ m.role = .system) :
    Trims policy messages ↔ Trimmable messages policy := by
  have hlead : lead messages ≠ [] := by
    obtain ⟨m, rest, rfl, hm⟩ := hsystem
    simp [lead, ChatMessage.isSystem, hm]
  cases policy with
  | fullReplay =>
    have hcut : apply .fullReplay messages = lead messages ++ (conversation messages).drop 0 := by
      rw [List.drop_zero, lead_append_conversation]
      unfold apply
      split <;> rfl
    rw [trims_iff_of_cut (Nat.zero_le _) hcut]
    exact ⟨fun _ => trivial, fun _ _ h => by cases h⟩
  | slidingTurns n =>
    cases n with
    | zero => exact trims_slidingTurns_zero_iff hlead
    | succ n => exact trims_slidingTurns_iff n.succ_pos hlead
  | tokenBudget maxTokens reserve =>
    obtain ⟨k, hk, hcut⟩ : ∃ k ≤ (conversation messages).length, apply (.tokenBudget maxTokens reserve) messages =
        lead messages ++ (conversation messages).drop k := by
      by_cases hlen : messages.length ≤ 1
      · exact ⟨0, Nat.zero_le _, by rw [apply_of_length_le hlen, List.drop_zero, lead_append_conversation]⟩
      · obtain ⟨k, hk, heq, -⟩ := @trimLoop_eq (maxTokens - reserve) (lead messages) (conversation messages)
        rw [lead_append_conversation] at heq
        exact ⟨k, hk, (apply_tokenBudget hlen).trans heq⟩
    rw [trims_iff_of_cut hk hcut]
    exact ⟨fun _ => trivial, fun _ _ h => by cases h⟩

def toolTurn (id : String) : List ChatMessage :=
  [{ role := .user }, { role := .assistant, toolCalls := [⟨id, "function", "search", "{}"⟩] },
    { role := .tool, toolCallId := some id }]

def twoTurns : List ChatMessage := { role := .system } :: (toolTurn "c0" ++ toolTurn "c1")

/-- Of two turns the older goes, and the tool message of the newer stays with its call. -/
theorem apply_trims_iff_turns : Trims (.slidingTurns 1) twoTurns ∧
    apply (.slidingTurns 1) twoTurns = { role := .system } :: toolTurn "c1" ∧ Answers (toolTurn "c1") 1 2 := by
  refine ⟨(apply_trims_iff _ _ ⟨_, _, rfl, rfl⟩).2 fun k hk i j hij hkj => ?_, by decide, ?_⟩
  · obtain rfl : k = 3 := hk.unique ⟨⟨{ role := .user }, rfl, rfl⟩, rfl⟩
    have hlt : j < 6 := hij.lt
    obtain ⟨-, a, t, id, ha, ht, htool, hid, hcalls, -⟩ := hij
    -- the one tool message from there on is the last, and the calls before there are of another id
    obtain rfl : j = 5 := by
      obtain rfl | rfl | rfl : j = 3 ∨ j = 4 ∨ j = 5 := by omega
      · cases ht
        cases htool
      · cases ht
        cases htool
      · rfl
    cases ht
    cases hid
    by_contra hi
    obtain rfl | rfl | rfl : i = 0 ∨ i = 1 ∨ i = 2 := by omega
    all_goals
      cases ha
      exact absurd hcalls (by decide)
  · refine ⟨by decide, _, _, "c1", rfl, rfl, rfl, rfl, by decide, fun l h1 h2 => ?_⟩
    omega

/-- Two system messages do not survive no turns, and a result behind a steering message loses its call. -/
theorem apply_parts_call : ¬ Trims (.slidingTurns 0) [{ role := .system }, { role := .system }, { role := .user }] ∧
    ¬ Trims (.slidingTurns 1) [{ role := .system }, { role := .user },
      { role := .assistant, toolCalls := [⟨"c1", "function", "search", "\x7b\x7d"⟩] }, { role := .user },
      { role := .tool, toolCallId := some "c1" }] := by
  constructor
  · rw [trims_slidingTurns_zero_iff (by decide)]
    decide
  · rw [trims_slidingTurns_iff (by decide) (by decide)]
    intro h
    refine absurd (h 2 ⟨⟨{ role := .user }, rfl, rfl⟩, rfl⟩ 1 3 ?_ (by decide)) (by decide)
    refine ⟨by decide, { role := .assistant, toolCalls := [⟨"c1", "function", "search", "\x7b\x7d"⟩] },
      { role := .tool, toolCallId := some "c1" }, "c1", rfl, rfl, rfl, rfl, by decide, fun l h1 h3 m hm => ?_⟩
    obtain rfl : l = 2 := by omega
    obtain rfl : { role := .user } = m := Option.some.inj hm
    rfl

end ContextWindow
end Execlaw
