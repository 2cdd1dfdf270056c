import Execlaw.Calls
import Execlaw.JsonText
import Execlaw.Keyed
import Execlaw.Outbox
import Mathlib.Data.Fintype.EquivFin
/-!
# ReplyDrafts — reviewed replies (`core/src/reply_drafts.rs`)

A draft answers one inbound event of a conversation, channel and recipient.  A later inbound of that scope marks the
drafts of earlier events stale, once, as it arrives; an approval takes a pending draft that is not stale.  `ReplyDrafts`
runs the store beside the inbound events recorded so far.
-/
namespace Execlaw

open Table

/-! ## The store -/

inductive DraftStatus | pending | approved | rejected | sent | failed
deriving DecidableEq

structure DraftScope where
  conversationId : String
  channel : String
  recipient : String
deriving DecidableEq

structure ReplyDraftRow where
  id : String
  agentId : String
  scope : DraftScope
  runId : String
  sourceEventId : Option String
  sourceEventSeq : Option Int
  sourceLastSeq : Option Int
  modelSeq : Option Int
  revision : Nat
  audienceJson : String
  inboundText : String
  draftText : String
  status : DraftStatus
  staleAt : Option Int
  reviewedAt : Option Int
  reviewerId : Option String
  approvedText : Option String
  sentAt : Option Int
  createdAt : Int
deriving DecidableEq

structure ReplyDraft (V : Type) where
  id : String
  agentId : String
  scope : DraftScope
  sourceEventId : Option String
  sourceEventSeq : Option Int
  modelSeq : Option Int
  revision : Nat
  audience : V
  inboundText : String
  draftText : String
  status : DraftStatus
  staleAt : Option Int
  reviewedAt : Option Int
  reviewerId : Option String
  approvedText : Option String
  createdAt : Int

structure NewReplyDraft (V : Type) where
  id : String
  agentId : String
  runId : String
  scope : DraftScope
  sourceEventId : Option String
  sourceEventSeq : Option Int
  audience : V
  inboundText : String
  draftText : String
  now : Int

abbrev DraftTable := Keyed ReplyDraftRow.id (fun _ => True)

namespace ReplyDraftStore

abbrev DraftChange := Change ReplyDraftRow.id (fun _ => True)

variable {V : Type} (json : JsonText V)

def mapDraft (r : ReplyDraftRow) : ReplyDraft V where
  id := r.id
  agentId := r.agentId
  scope := r.scope
  sourceEventId := r.sourceEventId
  sourceEventSeq := r.sourceEventSeq
  modelSeq := r.modelSeq
  revision := r.revision
  audience := (json.fromStr r.audienceJson).getD json.null
  inboundText := r.inboundText
  draftText := r.draftText
  status := r.status
  staleAt := r.staleAt
  reviewedAt := r.reviewedAt
  reviewerId := r.reviewerId
  approvedText := r.approvedText
  createdAt := r.createdAt

def newDraft (input : NewReplyDraft V) (audienceJson : String) : ReplyDraftRow where
  id := input.id
  agentId := input.agentId
  scope := input.scope
  runId := input.runId
  sourceEventId := input.sourceEventId
  sourceEventSeq := input.sourceEventSeq
  sourceLastSeq := input.sourceEventSeq
  modelSeq := none
  revision := 1
  audienceJson := audienceJson
  inboundText := input.inboundText
  draftText := input.draftText
  status := .pending
  staleAt := none
  reviewedAt := none
  reviewerId := none
  approvedText := none
  sentAt := none
  createdAt := input.now

def complete (input : NewReplyDraft V) : Bool :=
  !(input.id.isEmpty || (trim input.draftText).isEmpty || input.scope.recipient.isEmpty)

def sameIdentity (input : NewReplyDraft V) (r : ReplyDraftRow) : Bool :=
  r.agentId == input.agentId && r.scope == input.scope && r.sourceEventId == input.sourceEventId &&
    r.draftText == input.draftText

def get (id : String) (t : DraftTable) : Option (ReplyDraft V) := (t.row id).map (mapDraft json)

def readBack (id written : String) (t : DraftTable) : Except DbError (ReplyDraft V) :=
  match get json id t with
  | some draft => .ok draft
  | none => .error (.invariant s!"draft disappeared after {written}")

def stored (input : NewReplyDraft V) (t : DraftTable) : Except DbError (ReplyDraft V) :=
  match t.row input.id with
  | none => .error (.invariant "draft disappeared after insert")
  | some r =>
    if sameIdentity input r then .ok (mapDraft json r) else .error (.invariant "draft identity collision")

def create (input : NewReplyDraft V) (t : DraftTable) : Except DbError (ReplyDraft V) × DraftTable :=
  if !complete input then (.error (.invariant "draft ID, text, and recipient are required"), t)
  else
    match json.toString input.audience with
    | .error e => (.error (.invariant e), t)
    | .ok audienceJson =>
      let t := t.insertOrIgnore (newDraft input audienceJson) trivial
      (stored json input t, t)

def attachChange (modelSeq : Int) : DraftChange where
  takes := fun r => r.modelSeq.all (fun seq => decide (seq = modelSeq))
  set := fun r => { r with modelSeq := some modelSeq }
  key_set := fun _ => rfl
  keeps_ok := fun _ h _ => h

/-- The unique index on `(conversation_id, model_seq)`. -/
def modelSeqTaken (id : String) (modelSeq : Int) (t : DraftTable) : Bool :=
  (t.row id).any fun r =>
    t.rows.any fun q => q.id != id && q.scope.conversationId == r.scope.conversationId && q.modelSeq == some modelSeq

def attachModelSeq (id : String) (modelSeq : Int) (t : DraftTable) : Except DbError Unit × DraftTable :=
  if t.changed id (attachChange modelSeq) then
    if modelSeqTaken id modelSeq t then
      (.error (.sqlite ("UNIQUE constraint failed: state_reply_drafts.conversation_id, " ++
        "state_reply_drafts.model_seq")), t)
    else (.ok (), t.update id (attachChange modelSeq))
  else (.error (.invariant "draft model event changed"), t)

def staleChange (scope : DraftScope) (sourceSeq now : Int) : DraftChange where
  takes := fun r =>
    r.scope == scope && r.status == .pending && r.staleAt.isNone && r.sourceEventSeq.any (fun seq => decide (seq < sourceSeq))
  set := fun r => { r with staleAt := some now }
  key_set := fun _ => rfl
  keeps_ok := fun _ h _ => h

def staleAfterInbound (scope : DraftScope) (sourceSeq now : Int) (t : DraftTable) : Nat × DraftTable :=
  (t.rows.countP (staleChange scope sourceSeq now).takes, t.updateAll (staleChange scope sourceSeq now))

def editChange (expectedRevision : Nat) (text : String) : DraftChange where
  takes := fun r => r.revision == expectedRevision && r.status == .pending
  set := fun r => { r with draftText := text, revision := r.revision + 1 }
  key_set := fun _ => rfl
  keeps_ok := fun _ h _ => h

def edit (id : String) (expectedRevision : Nat) (text : String) (t : DraftTable) :
    Except DbError (ReplyDraft V) × DraftTable :=
  if (trim text).isEmpty then (.error (.invariant "draft text is empty"), t)
  else if t.changed id (editChange expectedRevision (trim text)) then
    let t := t.update id (editChange expectedRevision (trim text))
    (readBack json id "edit" t, t)
  else (.error (.invariant "draft revision or status changed"), t)

def approveChange (expectedRevision : Nat) (reviewerId : String) (now : Int) : DraftChange where
  takes := fun r =>
    r.revision == expectedRevision && r.status == .pending && r.staleAt.isNone && r.modelSeq.isSome
  set := fun r =>
    { r with
      status := .approved, reviewedAt := some now, reviewerId := some reviewerId, approvedText := some r.draftText }
  key_set := fun _ => rfl
  keeps_ok := fun _ h _ => h

def approve (id : String) (expectedRevision : Nat) (reviewerId : String) (now : Int) (t : DraftTable) :
    Except DbError (ReplyDraft V) × DraftTable :=
  if t.changed id (approveChange expectedRevision reviewerId now) then
    let t := t.update id (approveChange expectedRevision reviewerId now)
    (readBack json id "approval" t, t)
  else (.error (.invariant "draft is stale, changed, or already reviewed"), t)

def rejectChange (expectedRevision : Nat) (reviewerId : String) (now : Int) : DraftChange where
  takes := fun r => r.revision == expectedRevision && r.status == .pending
  set := fun r => { r with status := .rejected, reviewedAt := some now, reviewerId := some reviewerId }
  key_set := fun _ => rfl
  keeps_ok := fun _ h _ => h

def reject (id : String) (expectedRevision : Nat) (reviewerId : String) (now : Int) (t : DraftTable) :
    Except DbError Unit × DraftTable :=
  if t.changed id (rejectChange expectedRevision reviewerId now) then
    (.ok (), t.update id (rejectChange expectedRevision reviewerId now))
  else (.error (.invariant "draft revision or status changed"), t)

def deliveryStatus (status : String) : Option DraftStatus :=
  if status = "sent" then some .sent else if status = "failed" then some .failed else none

def deliveryChange (status : DraftStatus) (now : Int) : DraftChange where
  takes := fun r => r.status == .approved
  set := fun r => { r with status := status, sentAt := if status = .sent then some now else r.sentAt }
  key_set := fun _ => rfl
  keeps_ok := fun _ h _ => h

def markDelivery (id status : String) (now : Int) (t : DraftTable) : Except DbError Unit × DraftTable :=
  match deliveryStatus status with
  | none => (.error (.invariant "invalid draft delivery status"), t)
  | some status => (.ok (), t.update id (deliveryChange status now))

end ReplyDraftStore

/-! ## Its callers -/

inductive DraftCall (V : Type)
  | inbound (scope : DraftScope) (sourceSeq now : Int)
  | create (input : NewReplyDraft V)
  | attachModelSeq (id : String) (modelSeq : Int)
  | edit (id : String) (expectedRevision : Nat) (text : String)
  | approve (id : String) (expectedRevision : Nat) (reviewerId : String) (now : Int)
  | reject (id : String) (expectedRevision : Nat) (reviewerId : String) (now : Int)
  | markDelivery (id status : String) (now : Int)

inductive DraftReply (V : Type)
  | draft (draft : ReplyDraft V)
  | staled (count : Nat)
  | done

structure ReplyDrafts where
  drafts : DraftTable
  inbound : List (DraftScope × Int)

namespace ReplyDrafts

open ReplyDraftStore

variable {V : Type} (json : JsonText V)

def empty : ReplyDrafts := ⟨.empty, []⟩

/-- **One call**; an inbound event is recorded as it marks the earlier drafts stale. -/
def exec (s : ReplyDrafts) : DraftCall V → Except DbError (DraftReply V) × ReplyDrafts
  | .inbound scope sourceSeq now =>
    let (count, t) := staleAfterInbound scope sourceSeq now s.drafts
    (.ok (.staled count), ⟨t, s.inbound ++ [(scope, sourceSeq)]⟩)
  | .create input =>
    let (reply, t) := create json input s.drafts
    (reply.map .draft, { s with drafts := t })
  | .attachModelSeq id modelSeq =>
    let (reply, t) := attachModelSeq id modelSeq s.drafts
    (reply.map fun _ => .done, { s with drafts := t })
  | .edit id expectedRevision text =>
    let (reply, t) := edit json id expectedRevision text s.drafts
    (reply.map .draft, { s with drafts := t })
  | .approve id expectedRevision reviewerId now =>
    let (reply, t) := approve json id expectedRevision reviewerId now s.drafts
    (reply.map .draft, { s with drafts := t })
  | .reject id expectedRevision reviewerId now =>
    let (reply, t) := reject id expectedRevision reviewerId now s.drafts
    (reply.map fun _ => .done, { s with drafts := t })
  | .markDelivery id status now =>
    let (reply, t) := markDelivery id status now s.drafts
    (reply.map fun _ => .done, { s with drafts := t })

def run (calls : List (DraftCall V)) : ReplyDrafts := Calls.after (exec json) .empty calls

def newer (s : ReplyDrafts) (scope : DraftScope) (seq : Int) : Bool :=
  s.inbound.any (fun a => decide (a.1 = scope) && decide (seq < a.2))

structure BecomesApproved (s : ReplyDrafts) (c : DraftCall V) (r : ReplyDraftRow) : Prop where
  before : ∀ q, s.drafts.row r.id = some q → q.status ≠ .approved
  after : (exec json s c).2.drafts.row r.id = some r
  approved : r.status = .approved

/-- **A draft becomes approved only while its source is the newest event of its scope.** -/
def Fresh (calls : List (DraftCall V)) : Prop :=
  ∀ pre c post, calls = pre ++ c :: post → ∀ r, BecomesApproved json (run json pre) c r →
    ∀ seq, r.sourceEventSeq = some seq → (run json pre).newer r.scope seq = false

def stores (s : ReplyDrafts) (input : NewReplyDraft V) : Bool :=
  complete input && (json.toString input.audience).isOk && (s.drafts.row input.id).isNone

/-- **A draft is stored before any event newer than its source.** -/
def Timely (s : ReplyDrafts) : DraftCall V → Prop
  | .create input =>
    s.stores json input = true → ∀ seq, input.sourceEventSeq = some seq → s.newer input.scope seq = false
  | _ => True

/-! ## What a call does -/

structure Reviewed (r r' : ReplyDraftRow) : Prop where
  scope : r'.scope = r.scope
  seq : r'.sourceEventSeq = r.sourceEventSeq
  stale : r'.staleAt = r.staleAt
  status : r'.status = r.status ∨ (r'.status = .approved ∧ r.status = .pending ∧ r.staleAt = none) ∨
    (r'.status ≠ .pending ∧ r'.status ≠ .approved)

/-- **What a call does** to the drafts and the events recorded. -/
inductive Effect (s : ReplyDrafts) (c : DraftCall V) : ReplyDrafts → Prop
  | same : Effect s c s
  | created {input : NewReplyDraft V} {audienceJson : String} {t : DraftTable} (call : c = .create input)
      (stores : s.stores json input = true) (rows : ∀ j, t.row j =
        (s.drafts.row j).or (if input.id = j then some (newDraft input audienceJson) else none)) :
      Effect s c { s with drafts := t }
  | recorded (scope : DraftScope) (sourceSeq now : Int) :
      Effect s c ⟨s.drafts.updateAll (staleChange scope sourceSeq now), s.inbound ++ [(scope, sourceSeq)]⟩
  | changed {id : String} {r r' : ReplyDraftRow} {t : DraftTable} (before : s.drafts.row id = some r)
      (after : t.row id = some r') (frame : ∀ j, j ≠ id → t.row j = s.drafts.row j) (reviewed : Reviewed r r') :
      Effect s c { s with drafts := t }

section Effects

variable {json} {s : ReplyDrafts}

theorem update_effect {c : DraftCall V} (id : String) (change : DraftChange)
    (h : ∀ r, change.takes r = true → Reviewed r (change.set r)) :
    Effect json s c { s with drafts := s.drafts.update id change } := by
  rcases Keyed.update_cases s.drafts id change with ⟨-, hsame⟩ | ⟨r, hr, htakes, -, hrow, hframe⟩
  · rw [hsame]
    exact .same
  · exact .changed hr hrow hframe (h r htakes)

theorem create_effect (input : NewReplyDraft V) :
    Effect json s (.create input) { s with drafts := (create json input s.drafts).2 } := by
  unfold create
  split
  · exact .same
  next hcomplete =>
  rw [Bool.not_eq_true', Bool.not_eq_false] at hcomplete
  split
  · exact .same
  next audienceJson hjson =>
  cases hrow : s.drafts.row input.id with
  | some r =>
    rw [Keyed.insertOrIgnore_of_isSome _ (by simp [newDraft, hrow])]
    exact .same
  | none =>
    refine .created rfl ?_ (Keyed.row_insertOrIgnore (r := newDraft input audienceJson) trivial)
    rw [stores, hcomplete, hjson, hrow]
    rfl

theorem exec_effect (c : DraftCall V) : Effect json s c (exec json s c).2 := by
  cases c with
  | inbound scope sourceSeq now => exact .recorded scope sourceSeq now
  | create input => exact create_effect input
  | attachModelSeq id modelSeq =>
    simp only [exec, attachModelSeq]
    split
    · split
      · exact .same
      · exact update_effect id _ fun r _ => ⟨rfl, rfl, rfl, .inl rfl⟩
    · exact .same
  | edit id expectedRevision text =>
    simp only [exec, edit]
    split
    · exact .same
    split
    · exact update_effect id _ fun r _ => ⟨rfl, rfl, rfl, .inl rfl⟩
    · exact .same
  | approve id expectedRevision reviewerId now =>
    simp only [exec, approve]
    split
    · refine update_effect id _ fun r htakes => ⟨rfl, rfl, rfl, .inr (.inl ⟨rfl, ?_⟩)⟩
      simp only [approveChange, Bool.and_eq_true, beq_iff_eq, Option.isNone_iff_eq_none] at htakes
      exact ⟨htakes.1.1.2, htakes.1.2⟩
    · exact .same
  | reject id expectedRevision reviewerId now =>
    simp only [exec, reject]
    split
    · exact update_effect id _ fun r _ => ⟨rfl, rfl, rfl, .inr (.inr ⟨nofun, nofun⟩)⟩
    · exact .same
  | markDelivery id status now =>
    simp only [exec, markDelivery]
    split
    · exact .same
    · next final hfinal =>
      refine update_effect id _ fun r _ => ⟨rfl, rfl, rfl, .inr (.inr ?_)⟩
      unfold deliveryStatus at hfinal
      split at hfinal
      · cases hfinal
        exact ⟨nofun, nofun⟩
      · split at hfinal <;> cases hfinal
        exact ⟨nofun, nofun⟩

end Effects

/-! ## Freshness -/

section Freshness

variable {json} {s : ReplyDrafts}

theorem newer_append (scope : DraftScope) (seq : Int) (a : DraftScope × Int) (t : DraftTable) :
    newer ⟨t, s.inbound ++ [a]⟩ scope seq = (s.newer scope seq || (decide (a.1 = scope) && decide (seq < a.2))) := by
  simp [newer]

/-- **A draft that could be approved** answers the newest event of its scope. -/
def Current (s : ReplyDrafts) : Prop :=
  ∀ id r seq, s.drafts.row id = some r → r.status = .pending → r.staleAt = none → r.sourceEventSeq = some seq →
    s.newer r.scope seq = false

theorem current_empty : Current empty := by
  intro id r seq hr
  rw [empty, Keyed.row_empty] at hr
  cases hr

theorem current_step {c : DraftCall V} {s' : ReplyDrafts} (h : Current s) (htimely : s.Timely json c)
    (heffect : Effect json s c s') : Current s' := by
  cases heffect with
  | same => exact h
  | @created input audienceJson t hcall hstores hrows =>
    subst hcall
    intro id r seq hr hpending hstale hseq
    rw [hrows] at hr
    cases hrow : s.drafts.row id with
    | some q =>
      rw [hrow, Option.some_or] at hr
      obtain rfl := Option.some.inj hr
      exact h id q seq hrow hpending hstale hseq
    | none =>
      rw [hrow, Option.none_or] at hr
      split at hr
      · cases hr
        exact htimely hstores seq hseq
      · cases hr
  | recorded scope sourceSeq now =>
    intro id r seq hr hpending hstale hseq
    rw [newer_append]
    rw [Keyed.row_updateAll, Option.map_eq_some_iff] at hr
    obtain ⟨q, hq, rfl⟩ := hr
    unfold Change.apply at hpending hstale hseq ⊢
    -- A draft the event marked is stale; the others are of another scope, or not of an earlier event.
    split at hstale
    · cases hstale
    next hnot =>
    rw [if_neg hnot] at hpending hseq ⊢
    rw [h id q seq hq hpending hstale hseq, Bool.false_or]
    by_contra hnewer
    rw [Bool.not_eq_false, Bool.and_eq_true, decide_eq_true_iff, decide_eq_true_iff] at hnewer
    refine hnot ?_
    simp [staleChange, hpending, hstale, hseq, hnewer.1.symm, hnewer.2]
  | @changed id r r' t hbefore hafter hframe hreviewed =>
    intro j q seq hq hpending hstale hseq
    by_cases hj : j = id
    · subst hj
      cases hafter.symm.trans hq
      rw [hreviewed.scope]
      have hstatus : r.status = .pending := by
        rcases hreviewed.status with hsame | ⟨happroved, -, -⟩ | ⟨hnot, -⟩
        · rw [← hsame, hpending]
        · rw [hpending] at happroved
          cases happroved
        · exact absurd hpending hnot
      exact h j r seq hbefore hstatus (hreviewed.stale ▸ hstale) (hreviewed.seq ▸ hseq)
    · rw [hframe j hj] at hq
      exact h j q seq hq hpending hstale hseq

theorem becomes_approved {c : DraftCall V} {r : ReplyDraftRow} (h : BecomesApproved json s c r) :
    ∃ q, s.drafts.row r.id = some q ∧ q.status = .pending ∧ q.staleAt = none ∧ q.scope = r.scope ∧
      q.sourceEventSeq = r.sourceEventSeq := by
  have heffect : Effect json s c (exec json s c).2 := exec_effect c
  have hafter := h.after
  revert heffect hafter
  generalize (exec json s c).2 = s'
  intro heffect hafter
  cases heffect with
  | same => exact absurd h.approved (h.before r hafter)
  | @created input audienceJson t hcall hstores hrows =>
    rw [hrows] at hafter
    cases hrow : s.drafts.row r.id with
    | some q =>
      rw [hrow, Option.some_or] at hafter
      obtain rfl := Option.some.inj hafter
      exact absurd h.approved (h.before q hrow)
    | none =>
      rw [hrow, Option.none_or] at hafter
      split at hafter
      · cases hafter
        cases h.approved
      · cases hafter
  | recorded scope sourceSeq now =>
    rw [Keyed.row_updateAll, Option.map_eq_some_iff] at hafter
    obtain ⟨q, hq, heq⟩ := hafter
    have hstatus : r.status = q.status := by
      rw [← heq, Change.apply]
      split <;> rfl
    exact absurd (hstatus ▸ h.approved) (h.before q hq)
  | @changed id q q' t hbefore hafter' hframe hreviewed =>
    by_cases hj : r.id = id
    · cases hafter'.symm.trans (hj ▸ hafter)
      rcases hreviewed.status with hsame | ⟨-, hpending, hstale⟩ | ⟨-, hnot⟩
      · exact absurd (hsame ▸ h.approved) (h.before q (hj ▸ hbefore))
      · exact ⟨q, hj ▸ hbefore, hpending, hstale, hreviewed.scope.symm, hreviewed.seq.symm⟩
      · exact absurd h.approved hnot
    · rw [hframe r.id hj] at hafter
      exact absurd h.approved (h.before r hafter)

theorem fresh_of_timely {calls : List (DraftCall V)} (h : Calls.Guarded (exec json) (Timely json) .empty calls) :
    Fresh json calls := by
  rintro pre c post rfl r happroves seq hseq
  have hcurrent : Current (run json pre) :=
    h.of_append.invariant (fun s c hs hc => current_step hs hc (exec_effect c)) current_empty
  obtain ⟨q, hq, hpending, hstale, hscope, hsame⟩ := becomes_approved happroves
  rw [← hscope]
  exact hcurrent r.id q seq hq hpending hstale (hsame.trans hseq)

end Freshness

/-! ## The draft that comes late -/

section Late

variable {json} {s : ReplyDrafts}

theorem exists_model_seq (t : DraftTable) : ∃ seq : Int, ∀ r ∈ t.rows, r.modelSeq ≠ some seq := by
  obtain ⟨seq, hseq⟩ := Infinite.exists_notMem_finset (t.rows.filterMap ReplyDraftRow.modelSeq).toFinset
  refine ⟨seq, fun r hr hsome => hseq ?_⟩
  rw [List.mem_toFinset, List.mem_filterMap]
  exact ⟨r, hr, hsome⟩

theorem create_new {input : NewReplyDraft V} (h : s.stores json input = true) :
    ∃ audienceJson, (exec json s (.create input)).2.drafts.row input.id = some (newDraft input audienceJson) ∧
      (exec json s (.create input)).2.inbound = s.inbound := by
  unfold stores at h
  rw [Bool.and_eq_true, Bool.and_eq_true, Option.isNone_iff_eq_none] at h
  obtain ⟨⟨hcomplete, hjson⟩, hrow⟩ := h
  cases htext : json.toString input.audience with
  | error e =>
    rw [htext] at hjson
    cases hjson
  | ok audienceJson =>
    refine ⟨audienceJson, ?_, rfl⟩
    simp only [exec, create, hcomplete, htext, Bool.not_true, Bool.false_eq_true, if_false]
    rw [Keyed.row_insertOrIgnore, hrow]
    exact if_pos rfl

variable (json) in
theorem attach_free {id : String} {modelSeq : Int} {r : ReplyDraftRow} (hr : s.drafts.row id = some r)
    (hnone : r.modelSeq = none) (hfree : ∀ q ∈ s.drafts.rows, q.modelSeq ≠ some modelSeq) :
    (exec json s (.attachModelSeq id modelSeq)).2 =
      { s with drafts := s.drafts.update id (attachChange modelSeq) } := by
  have hchanged : s.drafts.changed id (attachChange modelSeq) = true := by
    simp [Keyed.changed, hr, attachChange, hnone]
  have htaken : modelSeqTaken id modelSeq s.drafts = false := by
    rw [modelSeqTaken, hr, Option.any_some, List.any_eq_false]
    intro q hq
    simp [hfree q hq]
  simp [exec, attachModelSeq, hchanged, htaken]

variable (json) in
theorem approve_taken {id : String} (expectedRevision : Nat) (reviewerId : String) (now : Int) {r : ReplyDraftRow}
    (hr : s.drafts.row id = some r) (htakes : (approveChange expectedRevision reviewerId now).takes r = true) :
    (exec json s (.approve id expectedRevision reviewerId now)).2.drafts.row id =
      some ((approveChange expectedRevision reviewerId now).set r) := by
  have hchanged := Keyed.changed_iff.2 ⟨r, hr, htakes⟩
  simp only [exec, approve, hchanged, if_true]
  exact Keyed.row_update_of_changed hr htakes

theorem new_draft_approved {input : NewReplyDraft V} (hstores : s.stores json input = true) :
    ∃ later c r, BecomesApproved json (Calls.after (exec json) s (.create input :: later)) c r ∧
      r.scope = input.scope ∧ r.sourceEventSeq = input.sourceEventSeq ∧
      (Calls.after (exec json) s (.create input :: later)).inbound = s.inbound := by
  obtain ⟨audienceJson, hrow, hinbound⟩ := create_new hstores
  obtain ⟨modelSeq, hfree⟩ := exists_model_seq (exec json s (.create input)).2.drafts
  have hattach := attach_free json hrow rfl hfree
  have hrow' : (exec json (exec json s (.create input)).2 (.attachModelSeq input.id modelSeq)).2.drafts.row input.id =
      some { newDraft input audienceJson with modelSeq := some modelSeq } := by
    rw [hattach]
    exact Keyed.row_update_of_changed hrow rfl
  have happrove := approve_taken json 1 "automatic-policy" input.now hrow' rfl
  refine ⟨[.attachModelSeq input.id modelSeq], .approve input.id 1 "automatic-policy" input.now,
    (approveChange 1 "automatic-policy" input.now).set { newDraft input audienceJson with modelSeq := some modelSeq },
    ⟨fun q hq => ?_, happrove, rfl⟩, rfl, rfl, ?_⟩
  · cases hrow'.symm.trans hq
    nofun
  · rw [Calls.after_cons, Calls.after_cons, Calls.after_nil, hattach]
    exact hinbound

end Late

/-- **Approvals are fresh** in every run whose drafts are stored before any event newer than their source; and a draft
stored after one can be approved. -/
theorem approvals_fresh :
    (∀ calls, Calls.Guarded (exec json) (Timely json) .empty calls → Fresh json calls) ∧
      ∀ pre input, ¬ Timely json (run json pre) (.create input) →
        ∃ later, ¬ Fresh json (pre ++ .create input :: later) := by
  refine ⟨fun calls h => fresh_of_timely h, fun pre input hlate => ?_⟩
  have hlate' : (run json pre).stores json input = true ∧
      ∃ seq, input.sourceEventSeq = some seq ∧ (run json pre).newer input.scope seq = true := by
    by_contra hno
    refine hlate fun hstores seq hseq => ?_
    rw [← Bool.not_eq_true]
    exact fun hnewer => hno ⟨hstores, seq, hseq, hnewer⟩
  obtain ⟨hstores, seq, hseq, hnewer⟩ := hlate'
  obtain ⟨later, c, r, happroves, hscope, hsame, hinbound⟩ := new_draft_approved hstores
  refine ⟨later ++ [c], fun hfresh => ?_⟩
  have hrun : run json (pre ++ .create input :: later) =
      Calls.after (exec json) (run json pre) (.create input :: later) := Calls.after_append _ _ _ _
  have hold := hfresh (pre ++ .create input :: later) c [] (by simp) r (hrun ▸ happroves) seq (hsame.trans hseq)
  rw [hrun, newer, hinbound, hscope] at hold
  exact Bool.false_ne_true (hold.symm.trans hnewer)

/-! ## The model call that takes too long -/

def sampleDraftJson : JsonText Unit where
  toString := fun _ => .ok "null"
  fromStr := fun _ => some ()
  null := ()
  reads := fun _ _ _ => rfl

def sampleScope : DraftScope := ⟨"chat", "whatsapp", "group@g.us"⟩

def sampleDraft : NewReplyDraft Unit :=
  ⟨"draft", "agent", "run", sampleScope, some "msg", some 7, (), "Camper?", "Please send dates.", 12⟩

def slowDraftCalls : List (DraftCall Unit) :=
  [.inbound sampleScope 7 10, .inbound sampleScope 9 11, .create sampleDraft, .attachModelSeq "draft" 10,
    .approve "draft" 1 "automatic-policy" 12]

theorem slow_draft_approved : ¬ Fresh sampleDraftJson slowDraftCalls := by
  intro hfresh
  have happroves : BecomesApproved sampleDraftJson (run sampleDraftJson (slowDraftCalls.take 4))
      (.approve "draft" 1 "automatic-policy" 12)
      ((approveChange 1 "automatic-policy" 12).set { newDraft sampleDraft "null" with modelSeq := some 10 }) := by
    refine ⟨fun q hq => ?_, by decide, rfl⟩
    have hrow : (run sampleDraftJson (slowDraftCalls.take 4)).drafts.row "draft" =
        some { newDraft sampleDraft "null" with modelSeq := some 10 } := by decide
    cases hrow.symm.trans hq
    nofun
  have hold := hfresh (slowDraftCalls.take 4) _ [] rfl _ happroves 7 rfl
  exact absurd hold (by decide)

end ReplyDrafts

end Execlaw
