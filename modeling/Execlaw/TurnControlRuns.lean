import Execlaw.TurnControls
import Mathlib.Data.List.Pairwise
/-!
# TurnControlRuns — the life of a turn control

Over every sequence of calls: a control moves forward only, its history is numbered without gaps and ends at its status,
it is claimed once and applied once, and a call that fails changes nothing.  A client's request key answers with the
control it created as long as the kind and the payload are the same.
-/
namespace Execlaw

open Table Calls

def TurnControlStatus.rank : TurnControlStatus → Nat
  | .accepted => 0
  | .delivered => 1
  | .applied => 2
  | .acknowledged | .cancelled | .failed => 3

theorem TurnControlStatus.allows_iff (s s' : TurnControlStatus) : s.allows s' = true ↔ s.rank < s'.rank := by
  cases s <;> cases s' <;> decide

theorem TurnControlStatus.terminal_iff (s : TurnControlStatus) : s.terminal = true ↔ s.rank = 3 := by
  cases s <;> decide

theorem TurnControlStatus.rank_le (s : TurnControlStatus) : s.rank ≤ 3 := by
  cases s <;> decide

namespace TurnControlStore

variable {V : Type} {json : JsonColumn V}

/-! ## One control -/

def view (t : TurnControls) (controlId : String) : Option (TurnControlRow) × List ControlTransition :=
  (t.controls.row controlId, history t controlId)

structure SameRequest (r r' : TurnControlRow) : Prop where
  controlId : r'.controlId = r.controlId
  conversationId : r'.conversationId = r.conversationId
  turnId : r'.turnId = r.turnId
  kind : r'.kind = r.kind
  payloadJson : r'.payloadJson = r.payloadJson
  clientRequestId : r'.clientRequestId = r.clientRequestId
  requestBodySha256 : r'.requestBodySha256 = r.requestBodySha256

theorem SameRequest.refl (r : TurnControlRow) : SameRequest r r := ⟨rfl, rfl, rfl, rfl, rfl, rfl, rfl⟩

theorem SameRequest.trans {r r' r'' : TurnControlRow} (h : SameRequest r r') (h' : SameRequest r' r'') :
    SameRequest r r'' :=
  ⟨h'.1.trans h.1, h'.2.trans h.2, h'.3.trans h.3, h'.4.trans h.4, h'.5.trans h.5, h'.6.trans h.6, h'.7.trans h.7⟩

/-- **What a call makes of a control**: nothing, the control itself, or one transition forward. -/
inductive ControlMove (controlId : String) : Option (TurnControlRow) × List ControlTransition →
    Option (TurnControlRow) × List ControlTransition → Prop
  | same (v : Option (TurnControlRow) × List ControlTransition) : ControlMove controlId v v
  | created {r : TurnControlRow} {h : List ControlTransition} {now : Int} (id : r.controlId = controlId)
      (status : r.status = .accepted) :
      ControlMove controlId (none, h) (some r, h ++ [⟨controlId, 0, .accepted, none, now⟩])
  | moved {r r' : TurnControlRow} {h : List ControlTransition} {detail : Option String} {now : Int}
      (allowed : r.status.allows r'.status = true) (same : SameRequest r r') :
      ControlMove controlId (some r, h) (some r', h ++ [⟨controlId, nextOrdinal h, r'.status, detail, now⟩])

def Hashed (sha256 : String → String) (r : TurnControlRow) : Prop :=
  ∀ key, r.clientRequestId = some key → r.requestBodySha256 = some (sha256 (requestText r.kind r.payloadJson))

/-- **What a call makes of the rows**: each keeps its request, or one is added under a free request key. -/
inductive RowsMove (sha256 : String → String) (t t' : TurnControls) : Prop
  | kept (f : TurnControlRow → TurnControlRow) (same : ∀ r, SameRequest r (f r))
      (rows : t'.controls.rows = t.controls.rows.map f)
  | added (row : TurnControlRow) (hashed : Hashed sha256 row)
      (free : ∀ key, row.clientRequestId = some key → requested t row.conversationId key = none)
      (rows : t'.controls.rows = t.controls.rows ++ [row])

structure TableMove (sha256 : String → String) (t t' : TurnControls) : Prop where
  moves : ∀ id, ControlMove id (view t id) (view t' id)
  rows : RowsMove sha256 t t'

theorem TableMove.refl (sha256 : String → String) (t : TurnControls) : TableMove sha256 t t :=
  ⟨fun _ => .same _, .kept id SameRequest.refl (List.map_id _).symm⟩

section Moves

variable (sha256 : String → String) {t t' : TurnControls} {controlId : String}

theorem insertTransition_ok {g : ControlTransition} (h : insertTransition g t = .ok t') :
    t' = { t with transitions := t.transitions ++ [g] } := by
  unfold insertTransition at h
  split at h
  · cases h
  · exact (Except.ok.inj h).symm

theorem history_append (controls : Keyed TurnControlRow.controlId (fun _ => True))
    (transcript : List (String × Int)) (transitions : List ControlTransition) (g : ControlTransition) (id : String) :
    history ⟨controls, transitions ++ [g], transcript⟩ id =
      history ⟨controls, transitions, transcript⟩ id ++ if g.controlId = id then [g] else [] := by
  unfold history
  rw [List.filter_append]
  by_cases hid : g.controlId = id <;> simp [hid]

theorem insertControl_move {row : TurnControlRow} (hrow : row.status = .accepted) (hhashed : Hashed sha256 row)
    (h : insertControl row t = .ok t') :
    t'.controls.row row.controlId = some row ∧ t'.controls.rows = t.controls.rows ++ [row] ∧
      TableMove sha256 t t' ∧ t'.transcript = t.transcript := by
  unfold insertControl at h
  split at h
  · cases h
  next hfree =>
  split at h
  · cases h
  next controls hins =>
  obtain ⟨hfresh, hrows⟩ := Keyed.insert?_eq_some hins
  obtain rfl := insertTransition_ok h
  have hself : controls.row row.controlId = some row := by
    rw [hrows, hfresh, if_pos rfl]
    rfl
  have hlist : controls.rows = t.controls.rows ++ [row] := Keyed.rows_insert? hins
  have hfree' : ∀ key, row.clientRequestId = some key → requested t row.conversationId key = none := by
    intro key hkey
    rw [hkey, Option.any_some, Bool.not_eq_true, Option.isSome_eq_false_iff, Option.isNone_iff_eq_none] at hfree
    exact hfree
  refine ⟨hself, hlist, ⟨?_, .added row hhashed hfree' hlist⟩, rfl⟩
  intro id
  by_cases hid : row.controlId = id
  · subst hid
    have hview : view t row.controlId = (none, history t row.controlId) := Prod.ext hfresh rfl
    rw [hview, view, hself, history_append, if_pos rfl]
    exact .created rfl hrow
  · have hview : view ⟨controls, t.transitions ++ [⟨row.controlId, 0, .accepted, none, row.createdAt⟩], t.transcript⟩ id =
        view t id := by
      rw [view, view, hrows, if_neg hid, Option.or_none, history_append, if_neg hid, List.append_nil]
      rfl
    exact hview ▸ .same _

variable (t) in
theorem insertControl_fresh (row : TurnControlRow) (hrow : t.controls.row row.controlId = none)
    (hhist : history t row.controlId = [])
    (hfree : ∀ key, row.clientRequestId = some key → requested t row.conversationId key = none) :
    ∃ t', insertControl row t = .ok t' := by
  unfold insertControl
  have hkey : row.clientRequestId.any (fun key => (requested t row.conversationId key).isSome) = false := by
    cases hk : row.clientRequestId with
    | none => rfl
    | some key => rw [Option.any_some, hfree key hk]; rfl
  have hins : t.controls.insert? row trivial = some (t.controls.insertOrIgnore row trivial) := by
    rw [Keyed.insert?, hrow]
    rfl
  rw [hkey, hins]
  have hnew : t.transitions.any (fun g => g.controlId == row.controlId && g.ordinal == 0) = false := by
    rw [List.any_eq_false]
    intro g hg hclash
    rw [Bool.and_eq_true] at hclash
    have hmem : g ∈ history t row.controlId := List.mem_filter.2 ⟨hg, hclash.1⟩
    rw [hhist] at hmem
    cases hmem
  simp only [insertTransition, hnew, Bool.false_eq_true, if_false]
  exact ⟨_, rfl⟩

theorem recorded_move {c : ControlChange} {r : TurnControlRow} {status : TurnControlStatus}
    {detail : Option String} {now : Int} (hr : t.controls.row controlId = some r) (htakes : c.takes r = true)
    (hsame : ∀ r, SameRequest r (c.set r)) (hstatus : (c.set r).status = status) (hallows : r.status.allows status = true)
    (h : insertTransition ⟨controlId, nextOrdinal (history t controlId), status, detail, now⟩
      { t with controls := t.controls.update controlId c } = .ok t') :
    t'.controls.row controlId = some (c.set r) ∧ TableMove sha256 t t' ∧ t'.transcript = t.transcript := by
  obtain rfl := insertTransition_ok h
  have hself := Keyed.row_update_of_changed hr htakes
  have hrows : RowsMove sha256 t ⟨t.controls.update controlId c,
      t.transitions ++ [⟨controlId, nextOrdinal (history t controlId), status, detail, now⟩], t.transcript⟩ := by
    refine .kept (fun q => if q.controlId = controlId then c.apply q else q) (fun q => ?_) rfl
    dsimp only [Change.apply]
    split
    · split
      · exact hsame q
      · exact .refl q
    · exact .refl q
  refine ⟨hself, ⟨?_, hrows⟩, rfl⟩
  intro id
  subst hstatus
  by_cases hid : controlId = id
  · subst hid
    have hview : view t controlId = (some r, history t controlId) := Prod.ext hr rfl
    rw [hview, view, hself, history_append, if_pos rfl]
    exact .moved hallows (hsame r)
  · have hview : view ⟨t.controls.update controlId c, t.transitions ++
        [⟨controlId, nextOrdinal (history t controlId), (c.set r).status, detail, now⟩], t.transcript⟩ id =
        view t id := by
      rw [view, view, Keyed.row_update_of_ne _ (Ne.symm hid), history_append, if_neg hid, List.append_nil]
      rfl
    exact hview ▸ .same _

end Moves

/-! ## What each writer does -/

section Writers

variable (sha256 : String → String) {t t' : TurnControls} {controlId : String}

theorem transitionInTransaction_ok {next : TurnControlStatus} {acknowledgement : Option V} {now : Int}
    (h : transitionInTransaction json controlId next acknowledgement now t = .ok t') :
    ∃ r, t.controls.row controlId = some r ∧ ((r.status = next ∧ t' = t) ∨
      (r.status.allows next = true ∧ (∃ r', t'.controls.row controlId = some r' ∧ r'.status = next) ∧
        TableMove sha256 t t' ∧ t'.transcript = t.transcript)) := by
  unfold transitionInTransaction at h
  split at h
  · cases h
  next ackJson _ =>
  split at h
  · cases h
  split at h
  · cases h
  next r hr =>
  refine ⟨r, hr, ?_⟩
  split at h
  · next hst =>
    exact .inl ⟨hst, (Except.ok.inj h).symm⟩
  split at h
  · cases h
  split at h
  · cases h
  next hallows =>
  rw [Bool.not_eq_true', Bool.not_eq_false] at hallows
  obtain ⟨hrow, hmove, htranscript⟩ := recorded_move sha256 (c := moveChange next ackJson now) hr rfl
    (fun _ => ⟨rfl, rfl, rfl, rfl, rfl, rfl, rfl⟩) rfl hallows h
  exact .inr ⟨hallows, ⟨_, hrow, rfl⟩, hmove, htranscript⟩

theorem claimDeliveryTx_ok {now : Int} {claimed : Bool} (h : claimDeliveryTx controlId now t = .ok (claimed, t')) :
    (claimed = false ∧ t' = t) ∨ (claimed = true ∧ ∃ r r', t.controls.row controlId = some r ∧
      r.status = .accepted ∧ t'.controls.row controlId = some r' ∧ r'.status = .delivered ∧
      TableMove sha256 t t' ∧ t'.transcript = t.transcript) := by
  unfold claimDeliveryTx at h
  split at h
  · next hchanged =>
    obtain ⟨r, hr, htakes⟩ := Keyed.changed_iff.1 hchanged
    have hst : r.status = .accepted := by simpa [deliverChange] using htakes
    cases hins : insertTransition ⟨controlId, nextOrdinal (history t controlId), .delivered,
        some "\x7b\"dispatch_claimed\":true\x7d", now⟩
        { t with controls := t.controls.update controlId (deliverChange now) } with
    | error e =>
      rw [hins] at h
      cases h
    | ok t'' =>
      rw [hins] at h
      cases h
      obtain ⟨hrow, hmove, htranscript⟩ := recorded_move sha256 hr htakes
        (fun _ => ⟨rfl, rfl, rfl, rfl, rfl, rfl, rfl⟩) rfl
        (by rw [hst]; rfl) hins
      exact .inr ⟨rfl, r, _, hr, hst, hrow, rfl, hmove, htranscript⟩
  · cases h
    exact .inl ⟨rfl, rfl⟩

/-- What a call answers that reads the row `r` back. -/
def answerOf (json : JsonColumn V) (r : TurnControlRow) : Except TurnControlError (TurnControlRecord V) :=
  match r.record json with
  | none => .error (.db unreadable)
  | some record => .ok record

variable {r : TurnControlRow}

theorem readBack_row {written : String} (hr : t.controls.row controlId = some r) :
    readBack json controlId written t = answerOf json r := by
  unfold readBack get answerOf
  rw [hr]
  dsimp only
  cases r.record json <;> rfl

theorem answerOf_error {e : TurnControlError} (h : answerOf json r = .error e) : json.fromStr r.payloadJson = none := by
  unfold answerOf TurnControlRow.record at h
  cases hread : json.fromStr r.payloadJson with
  | none => rfl
  | some payload =>
    rw [hread] at h
    cases h

theorem requested_row {conversationId key : String} (h : requested t conversationId key = some r) :
    t.controls.row r.controlId = some r ∧ r.conversationId = conversationId ∧ r.clientRequestId = some key := by
  have hmem := List.mem_of_find?_eq_some h
  have hkey := List.find?_some h
  simp only [Bool.and_eq_true, beq_iff_eq] at hkey
  exact ⟨Keyed.row_iff.2 ⟨hmem, rfl⟩, hkey⟩

end Writers

/-- The control a call reads back behind its commit. -/
def Call.readsBack : Call V → Option String
  | .enqueue _ _ _ _ _ controlId => some controlId
  | .enqueueIdempotent _ _ _ _ _ _ controlId => some controlId
  | .transition controlId _ _ _ => some controlId
  | .claimDelivery _ _ | .appendQueuedTurnMessage _ _ _ _ _ => none

/-- **What a call does**, by what it answers. -/
inductive CallEffect (json : JsonColumn V) (sha256 : String → String) (t : TurnControls) (c : Call V) :
    Except TurnControlError (Reply V) × TurnControls → Prop
  | failed (e : TurnControlError) : CallEffect json sha256 t c (.error e, t)
  | unread {controlId : String} {e : TurnControlError} {r : TurnControlRow} {t' : TurnControls}
      (call : c.readsBack = some controlId) (row : t'.controls.row controlId = some r)
      (payload : json.fromStr r.payloadJson = none) (moves : TableMove sha256 t t')
      (transcript : t'.transcript = t.transcript) : CallEffect json sha256 t c (.error e, t')
  | done {reply : Reply V} {t' : TurnControls} (claimed : reply ≠ .claimed true) (applied : reply ≠ .applied)
      (moves : TableMove sha256 t t') (transcript : t'.transcript = t.transcript) :
      CallEffect json sha256 t c (.ok reply, t')
  | claimed {controlId : String} {now : Int} {r r' : TurnControlRow} {t' : TurnControls}
      (call : c = .claimDelivery controlId now) (before : t.controls.row controlId = some r)
      (accepted : r.status = .accepted) (after : t'.controls.row controlId = some r') (delivered : r'.status = .delivered)
      (moves : TableMove sha256 t t') (transcript : t'.transcript = t.transcript) :
      CallEffect json sha256 t c (.ok (.claimed true), t')
  | applied {controlId conversationId : String} {eventSeq now : Int} {event : V} {r r' : TurnControlRow}
      {t' : TurnControls} (call : c = .appendQueuedTurnMessage controlId conversationId eventSeq event now)
      (before : t.controls.row controlId = some r) (early : r.status.rank < 2)
      (after : t'.controls.row controlId = some r') (applied : r'.status = .applied)
      (moves : TableMove sha256 t t')
      (transcript : t'.transcript = t.transcript ++ [(controlId, eventSeq)]) : CallEffect json sha256 t c (.ok .applied, t')

section Effects

variable (json : JsonColumn V) (sha256 : String → String) (t : TurnControls)

/-- A call that committed and reads the control back answers, or fails with the commit standing. -/
theorem effect_of_answer {α : Type} {t' : TurnControls} {c : Call V} {controlId : String} {r : TurnControlRow}
    {f : α → Reply V} {x : Except TurnControlError α} (hcall : t' = t ∨ c.readsBack = some controlId)
    (hr : t'.controls.row controlId = some r) (herr : ∀ e, x = .error e → json.fromStr r.payloadJson = none)
    (hf : ∀ a, f a ≠ .claimed true ∧ f a ≠ .applied) (hmoves : TableMove sha256 t t')
    (htranscript : t'.transcript = t.transcript) : CallEffect json sha256 t c (answer f (x, t')) := by
  cases x with
  | error e =>
    rcases hcall with rfl | hcall
    · exact .failed e
    · exact .unread hcall hr (herr e rfl) hmoves htranscript
  | ok a => exact .done (hf a).1 (hf a).2 hmoves htranscript

theorem enqueue_effect (conversationId : String) (turnId : Option String) (kind : TurnControlKind) (payload : V)
    (now : Int) (controlId : String) : CallEffect json sha256 t (.enqueue conversationId turnId kind payload now controlId)
      (answer .control (enqueue json conversationId turnId kind payload now controlId t)) := by
  unfold enqueue
  split
  · exact .failed _
  split
  · exact .failed _
  split
  · exact .failed _
  split
  · exact .failed _
  next t' h =>
  obtain ⟨hrow, -, hmoves, htranscript⟩ := insertControl_move sha256 rfl (fun _ hkey => by cases hkey) h
  have hread : readBack json controlId "insertion" t' = answerOf json _ := readBack_row hrow
  rw [hread]
  exact effect_of_answer json sha256 t (.inr rfl) hrow (fun _ => answerOf_error) (by simp) hmoves htranscript

theorem enqueueIdempotent_effect (conversationId : String) (turnId : Option String) (kind : TurnControlKind)
    (payload : V) (clientRequestId : String) (now : Int) (controlId : String) :
    CallEffect json sha256 t (.enqueueIdempotent conversationId turnId kind payload clientRequestId now controlId)
      (answer (fun p => .enqueued p.1 p.2)
        (enqueueIdempotent json sha256 conversationId turnId kind payload clientRequestId now controlId t)) := by
  unfold enqueueIdempotent
  split
  · exact .failed _
  next payloadJson _ =>
  split
  · exact .failed _
  split
  · exact .failed _
  extract_lets requestHash row
  rcases transact_cases (enqueueIdempotentTx row clientRequestId requestHash) t with
    ⟨e, -, h⟩ | ⟨⟨id, isNew⟩, t', htx, h⟩
  · rw [h]
    cases e <;> exact .failed _
  rw [h]
  have hdone : (∃ r, t'.controls.row id = some r) ∧ (t' = t ∨ controlId = id) ∧ TableMove sha256 t t' ∧
      t'.transcript = t.transcript := by
    unfold enqueueIdempotentTx at htx
    split at htx
    · next stored hstored =>
      split at htx
      · cases htx
      · cases htx
        exact ⟨⟨stored, (requested_row hstored).1⟩, .inl rfl, .refl sha256 _, rfl⟩
    · cases hins : insertControl row t with
      | error e =>
        rw [hins] at htx
        cases htx
      | ok t'' =>
        rw [hins] at htx
        cases htx
        obtain ⟨hrow, -, hmoves, htranscript⟩ := insertControl_move sha256 rfl (fun _ _ => rfl) hins
        exact ⟨⟨_, hrow⟩, .inr rfl, hmoves, htranscript⟩
  obtain ⟨⟨r, hr⟩, hid, hmoves, htranscript⟩ := hdone
  dsimp only
  rw [readBack_row hr]
  refine effect_of_answer json sha256 t (hid.imp_right (congrArg some)) hr (fun e he => ?_) (by simp) hmoves htranscript
  cases hanswer : answerOf json r with
  | error e => exact answerOf_error hanswer
  | ok record =>
    rw [hanswer] at he
    cases he

theorem transition_effect (controlId : String) (next : TurnControlStatus) (acknowledgement : Option V) (now : Int) :
    CallEffect json sha256 t (.transition controlId next acknowledgement now)
      (answer .control (transition json controlId next acknowledgement now t)) := by
  unfold transition
  split
  · exact .failed _
  next t' h =>
  obtain ⟨r, hr, ⟨-, rfl⟩ | ⟨-, ⟨r', hr', -⟩, hmoves, htranscript⟩⟩ := transitionInTransaction_ok sha256 h
  · rw [readBack_row hr]
    exact effect_of_answer json sha256 _ (.inl rfl) hr (fun _ => answerOf_error) (by simp) (.refl sha256 _) rfl
  · rw [readBack_row hr']
    exact effect_of_answer json sha256 t (.inr rfl) hr' (fun _ => answerOf_error) (by simp) hmoves htranscript

theorem claimDelivery_effect (controlId : String) (now : Int) :
    CallEffect json sha256 t (.claimDelivery controlId now) (answer .claimed (claimDelivery controlId now t)) := by
  unfold claimDelivery
  rcases transact_cases (claimDeliveryTx controlId now) t with ⟨e, -, h⟩ | ⟨claimed, t', htx, h⟩
  · rw [h]
    exact .failed _
  rw [h]
  rcases claimDeliveryTx_ok sha256 htx with ⟨rfl, rfl⟩ | ⟨rfl, r, r', hr, hst, hr', hst', hmoves, htranscript⟩
  · exact .done (by simp) (by simp) (.refl sha256 _) rfl
  · exact .claimed rfl hr hst hr' hst' hmoves htranscript

theorem appendQueuedTurnMessage_effect (controlId conversationId : String) (eventSeq : Int) (event : V) (now : Int) :
    CallEffect json sha256 t (.appendQueuedTurnMessage controlId conversationId eventSeq event now)
      (exec json sha256 t (.appendQueuedTurnMessage controlId conversationId eventSeq event now)) := by
  dsimp only [exec, appendQueuedTurnMessage]
  rcases transact_cases (fun t => (applyQueuedMessageInTransaction json controlId conversationId event now
      { t with transcript := t.transcript ++ [(controlId, eventSeq)] }).map (fun t => ((), t))) t with
    ⟨e, -, h⟩ | ⟨_, t', htx, h⟩
  · rw [h]
    exact .failed _
  rw [h]
  cases happly : applyQueuedMessageInTransaction json controlId conversationId event now
      { t with transcript := t.transcript ++ [(controlId, eventSeq)] } with
  | error e =>
    rw [happly] at htx
    cases htx
  | ok t'' =>
    rw [happly] at htx
    cases htx
    unfold applyQueuedMessageInTransaction at happly
    split at happly
    · cases happly
    next r hr =>
    split at happly
    · cases happly
    split at happly
    · cases happly
    next hopen =>
    obtain ⟨q, hq, hcase⟩ := transitionInTransaction_ok sha256 happly
    cases hr.symm.trans hq
    have hearly : r.status.rank < 2 := by
      rcases Decidable.not_and_iff_not_or_not.1 hopen with hst | hst <;> rw [not_not] at hst <;> rw [hst] <;> decide
    rcases hcase with ⟨hst, -⟩ | ⟨-, ⟨r', hr', hst'⟩, hmove, htranscript⟩
    · rw [hst] at hearly
      exact absurd hearly (by decide)
    · have hmoves : TableMove sha256 t t' := by
        refine ⟨hmove.moves, ?_⟩
        cases hmove.rows with
        | kept f hsame hrows => exact .kept f hsame hrows
        | added row hhashed hfree hrows => exact .added row hhashed hfree hrows
      exact .applied rfl hr hearly hr' hst' hmoves htranscript

theorem exec_effect (c : Call V) : CallEffect json sha256 t c (exec json sha256 t c) := by
  cases c with
  | enqueue conversationId turnId kind payload now controlId => exact enqueue_effect json sha256 t _ _ _ _ _ _
  | enqueueIdempotent conversationId turnId kind payload clientRequestId now controlId =>
    exact enqueueIdempotent_effect json sha256 t _ _ _ _ _ _ _
  | transition controlId next acknowledgement now => exact transition_effect json sha256 t _ _ _ _
  | claimDelivery controlId now => exact claimDelivery_effect json sha256 t _ _
  | appendQueuedTurnMessage controlId conversationId eventSeq event now =>
    exact appendQueuedTurnMessage_effect json sha256 t _ _ _ _ _

theorem exec_moves (c : Call V) : TableMove sha256 t (exec json sha256 t c).2 := by
  have heffect := exec_effect json sha256 t c
  generalize exec json sha256 t c = result at heffect
  cases heffect with
  | failed => exact .refl sha256 t
  | unread _ _ _ hmoves _ | done _ _ hmoves _ | claimed _ _ _ _ _ hmoves _ | applied _ _ _ _ _ hmoves _ => exact hmoves

end Effects

/-! ## What every call keeps -/

structure Recorded (r : TurnControlRow) (h : List ControlTransition) : Prop where
  ordinals : h.map ControlTransition.ordinal = (List.range h.length).map Int.ofNat
  last : h.getLast?.map ControlTransition.status = some r.status

def ViewOk : Option (TurnControlRow) × List ControlTransition → Prop
  | (none, h) => h = []
  | (some r, h) => Recorded r h

theorem foldl_max_range (n : Nat) : ((List.range n).map Int.ofNat).foldl max (-1) + 1 = n := by
  induction n with
  | zero => rfl
  | succ n ih =>
    rw [List.range_succ, List.map_append, List.foldl_append]
    have hlast : [n].map Int.ofNat = [(n : Int)] := rfl
    rw [hlast, List.foldl_cons, List.foldl_nil]
    omega

variable {h : List ControlTransition}

theorem nextOrdinal_eq (hord : h.map ControlTransition.ordinal = (List.range h.length).map Int.ofNat) :
    nextOrdinal h = h.length := by
  rw [nextOrdinal, hord]
  exact foldl_max_range h.length

theorem ordinals_snoc {g : ControlTransition}
    (hord : h.map ControlTransition.ordinal = (List.range h.length).map Int.ofNat) (hg : g.ordinal = h.length) :
    (h ++ [g]).map ControlTransition.ordinal = (List.range (h ++ [g]).length).map Int.ofNat := by
  rw [List.map_append, hord, List.length_append, List.length_singleton, List.range_succ, List.map_append,
    List.map_singleton, List.map_singleton, hg]
  rfl

theorem ControlMove.ok {id : String} {v v' : Option (TurnControlRow) × List ControlTransition}
    (h : ControlMove id v v') (hv : ViewOk v) : ViewOk v' := by
  cases h with
  | same => exact hv
  | @created r h now hid hst =>
    obtain rfl : h = [] := hv
    exact ⟨rfl, by rw [hst]; rfl⟩
  | moved hallows hsame =>
    refine ⟨ordinals_snoc hv.ordinals (nextOrdinal_eq hv.ordinals), ?_⟩
    rw [List.getLast?_append]
    rfl

theorem ControlMove.forward {id : String} {r : TurnControlRow} {v : Option (TurnControlRow) × List ControlTransition}
    (hmove : ControlMove id (some r, h) v) :
    v = (some r, h) ∨ ∃ r' h', v = (some r', h') ∧ SameRequest r r' ∧ r.status.rank < r'.status.rank := by
  cases hmove with
  | same => exact .inl rfl
  | moved hallows hsame => exact .inr ⟨_, _, rfl, hsame, (TurnControlStatus.allows_iff _ _).1 hallows⟩

section Runs

variable (json : JsonColumn V) (sha256 : String → String) {t : TurnControls}

theorem after_forward {id : String} {r : TurnControlRow} (hr : t.controls.row id = some r) (later : List (Call V)) :
    ∃ r', (Calls.after (exec json sha256) t later).controls.row id = some r' ∧ SameRequest r r' ∧
      (r' = r ∧ history (Calls.after (exec json sha256) t later) id = history t id ∨ r.status.rank < r'.status.rank) :=
      by
  refine after_invariant (I := fun t' : TurnControls => ∃ r', t'.controls.row id = some r' ∧ SameRequest r r' ∧
    (r' = r ∧ history t' id = history t id ∨ r.status.rank < r'.status.rank)) ?_ ⟨r, hr, .refl r, .inl ⟨rfl, rfl⟩⟩ later
  rintro t' c ⟨q, hq, hsame, hle⟩
  have hmove := (exec_moves json sha256 t' c).moves id
  rw [view, hq] at hmove
  rcases hmove.forward with hv | ⟨q', h', hv, hsame', hlt⟩
  · obtain ⟨hrow, hhist⟩ := Prod.mk.inj hv
    exact ⟨q, hrow, hsame, hle.imp_left fun h => ⟨h.1, hhist.trans h.2⟩⟩
  · obtain ⟨hrow, -⟩ := Prod.mk.inj hv
    refine ⟨q', hrow, hsame.trans hsame', .inr ?_⟩
    rcases hle with ⟨rfl, -⟩ | hlt'
    · exact hlt
    · exact hlt'.trans hlt

def claims (id : String) (t : TurnControls) (c : Call V) : Bool :=
  match c with
  | .claimDelivery controlId now => controlId == id && (match (claimDelivery controlId now t).1 with
    | .ok claimed => claimed
    | .error _ => false)
  | _ => false

def appliedCount (id : String) (t : TurnControls) : Nat := t.transcript.countP (fun entry => entry.1 == id)

theorem claims_spent {id : String} {c : Call V} (h : claims id t c = true) :
    (∃ r, t.controls.row id = some r ∧ r.status = .accepted) ∧
      ∃ r, (exec json sha256 t c).2.controls.row id = some r ∧ 1 ≤ r.status.rank := by
  cases c with
  | claimDelivery controlId now =>
    simp only [claims, Bool.and_eq_true, beq_iff_eq] at h
    obtain ⟨rfl, hclaimed⟩ := h
    have heffect := exec_effect json sha256 t (.claimDelivery controlId now)
    dsimp only [exec] at heffect ⊢
    generalize claimDelivery controlId now t = result at hclaimed heffect
    obtain ⟨answer, t'⟩ := result
    cases answer with
    | error e => cases hclaimed
    | ok claimed =>
      obtain rfl : claimed = true := hclaimed
      cases heffect with
      | done hne _ _ _ => exact absurd rfl hne
      | claimed hcall hr hst hr' hst' _ _ =>
        cases hcall
        exact ⟨⟨_, hr, hst⟩, _, hr', by rw [hst']; exact Nat.le_refl 1⟩
  | _ => cases h

/-- **Turn-control lifecycle**: what holds after any calls. -/
structure Lifecycle (calls : List (Call V)) (t : TurnControls) : Prop where
  final : ∀ id r, t.controls.row id = some r → r.status.terminal = true → ∀ later,
    (Calls.after (exec json sha256) t later).controls.row id = some r ∧
      history (Calls.after (exec json sha256) t later) id = history t id
  forward : ∀ id r, t.controls.row id = some r → ∀ later, ∃ r',
    (Calls.after (exec json sha256) t later).controls.row id = some r' ∧ r.status.rank ≤ r'.status.rank ∧
      (r'.status ≠ r.status → r.status.rank < r'.status.rank)
  history : ∀ id r, t.controls.row id = some r →
    (history t id).map ControlTransition.ordinal = (List.range (history t id).length).map Int.ofNat ∧
      (history t id).getLast?.map ControlTransition.status = some r.status
  claimed : ∀ id, count (exec json sha256) (claims id) noControls calls ≤ 1
  applied : ∀ id, appliedCount id t ≤ 1
  failed : ∀ c e, (exec json sha256 t c).1 = .error e → (exec json sha256 t c).2 = t ∨
    ∃ id r, c.readsBack = some id ∧ (exec json sha256 t c).2.controls.row id = some r ∧
      json.fromStr r.payloadJson = none

def AppliedOnce (t : TurnControls) : Prop :=
  ∀ id, appliedCount id t = 0 ∨ appliedCount id t = 1 ∧ ∃ r, t.controls.row id = some r ∧ 2 ≤ r.status.rank

theorem appliedOnce_exec (c : Call V) (h : AppliedOnce t) : AppliedOnce (exec json sha256 t c).2 := by
  intro id
  have hkeep : ∀ t' : TurnControls, ControlMove id (view t id) (view t' id) →
      appliedCount id t' = appliedCount id t →
      appliedCount id t' = 0 ∨ appliedCount id t' = 1 ∧ ∃ r, t'.controls.row id = some r ∧ 2 ≤ r.status.rank := by
    intro t' hmove hcount
    rw [hcount]
    refine (h id).imp_right fun ⟨hone, r, hr, hrank⟩ => ⟨hone, ?_⟩
    rw [view, hr] at hmove
    rcases hmove.forward with hv | ⟨r', h', hv, -, hlt⟩
    · exact ⟨r, (Prod.mk.inj hv).1, hrank⟩
    · exact ⟨r', (Prod.mk.inj hv).1, by omega⟩
  have heffect := exec_effect json sha256 t c
  generalize exec json sha256 t c = result at heffect
  cases heffect with
  | failed => exact h id
  | unread _ _ _ hmoves htranscript | done _ _ hmoves htranscript | claimed _ _ _ _ _ hmoves htranscript =>
    refine hkeep _ (hmoves.moves id) ?_
    simp [appliedCount, htranscript]
  | @applied controlId _ eventSeq _ _ r r' t' _ hr hearly hr' hst' hmoves htranscript =>
    have hcount : appliedCount id t' = appliedCount id t + if controlId = id then 1 else 0 := by
      rw [appliedCount, htranscript, List.countP_append, List.countP_singleton]
      by_cases hid : controlId = id <;> simp [hid, appliedCount]
    by_cases hid : controlId = id
    · subst hid
      rw [if_pos rfl] at hcount
      rcases h controlId with hnone | ⟨-, q, hq, hrank⟩
      · exact .inr ⟨by rw [hcount, hnone], r', hr', by rw [hst']; exact Nat.le_refl 2⟩
      · -- an applied control is past the states a message is applied from
        cases hr.symm.trans hq
        omega
    · rw [if_neg hid, Nat.add_zero] at hcount
      exact hkeep _ (hmoves.moves id) hcount

theorem viewOk_after (calls : List (Call V)) (id : String) :
    ViewOk (view (Calls.after (exec json sha256) noControls calls) id) := by
  have hempty : ViewOk (view noControls id) := rfl
  exact after_invariant (fun t c h => ((exec_moves json sha256 t c).moves id).ok h) hempty calls

/-- **Turn controls keep their lifecycle**, whatever is called in whatever order. -/
theorem turn_control_lifecycle (calls : List (Call V)) :
    Lifecycle json sha256 calls (Calls.after (exec json sha256) noControls calls) := by
  have happlied : AppliedOnce (Calls.after (exec json sha256) noControls calls) :=
    after_invariant (fun t c => appliedOnce_exec json sha256 c) (fun _ => .inl rfl) calls
  constructor
  · intro id r hr hterminal later
    obtain ⟨r', hr', -, ⟨rfl, hhist⟩ | hlt⟩ := after_forward json sha256 hr later
    · exact ⟨hr', hhist⟩
    · rw [TurnControlStatus.terminal_iff] at hterminal
      have := r'.status.rank_le
      omega
  · intro id r hr later
    obtain ⟨r', hr', -, ⟨rfl, -⟩ | hlt⟩ := after_forward json sha256 hr later
    · exact ⟨_, hr', Nat.le_refl _, fun h => absurd rfl h⟩
    · exact ⟨r', hr', Nat.le_of_lt hlt, fun _ => hlt⟩
  · intro id r hr
    have hok := viewOk_after json sha256 calls id
    rw [view, hr] at hok
    exact ⟨hok.ordinals, hok.last⟩
  · intro id
    refine count_le_one (I := fun _ => True) (p := claims id)
      (S := fun t => ∃ r, t.controls.row id = some r ∧ 1 ≤ r.status.rank) (fun _ _ _ => trivial) ?_ ?_ ?_ trivial
      calls
    · rintro t c - ⟨r, hr, hrank⟩
      obtain ⟨r', hr', -, ⟨rfl, -⟩ | hlt⟩ := after_forward json sha256 hr [c]
      · exact ⟨_, hr', hrank⟩
      · exact ⟨r', hr', by omega⟩
    · rintro t c - ⟨r, hr, hrank⟩
      by_contra hclaims
      obtain ⟨⟨q, hq, hst⟩, -⟩ := claims_spent json sha256 (Bool.not_eq_false _ ▸ hclaims)
      cases hr.symm.trans hq
      rw [hst] at hrank
      exact absurd hrank (by decide)
    · intro t c _ hclaims
      exact (claims_spent json sha256 hclaims).2
  · intro id
    rcases happlied id with h | ⟨h, -⟩ <;> omega
  · intro c e he
    have heffect := exec_effect json sha256 (Calls.after (exec json sha256) noControls calls) c
    generalize exec json sha256 (Calls.after (exec json sha256) noControls calls) c = result at heffect he
    cases heffect with
    | failed => exact .inl rfl
    | unread hcall hr hpayload => exact .inr ⟨_, _, hcall, hr, hpayload⟩
    | done | claimed | applied => cases he

end Runs

/-! ## Request keys -/

section Keys

variable (sha256 : String → String)

/-- A call of `enqueue_idempotent`. -/
structure KeyRequest (V : Type) where
  conversationId : String
  turnId : Option String
  kind : TurnControlKind
  payload : V
  key : String
  now : Int
  controlId : String

def KeyRequest.exec (json : JsonColumn V) (q : KeyRequest V) (t : TurnControls) :
    Except TurnControlError (TurnControlRecord V × Bool) × TurnControls :=
  enqueueIdempotent json sha256 q.conversationId q.turnId q.kind q.payload q.key q.now q.controlId t

/-- The request is inside its bounds; `payloadJson` is the text of its payload. -/
structure KeyRequest.Accepted (json : JsonColumn V) (q : KeyRequest V) (payloadJson : String) : Prop where
  encoded : json.toString q.payload = .ok payloadJson
  sized : oversized q.conversationId payloadJson = false
  keyed : malformedRequestId q.key = false
  turn : malformedTurnId q.turnId = false

def KeyRequest.control (q : KeyRequest V) (payloadJson : String) : TurnControlRow :=
  newControl q.controlId q.conversationId q.turnId q.kind payloadJson q.now
    (some (q.key, sha256 (requestText q.kind payloadJson)))

theorem TurnControlKind.asStr_toList (kind : TurnControlKind) : ∀ c ∈ kind.asStr.toList, c ≠ '\x00' := by
  have hall : kind.asStr.toList.all (fun c => c != '\x00') = true := by cases kind <;> rfl
  exact fun c hc => bne_iff_ne.1 (List.all_eq_true.1 hall c hc)

theorem requestText_inj {kind kind' : TurnControlKind} {p p' : String}
    (h : requestText kind p = requestText kind' p') : kind = kind' ∧ p = p' := by
  have hlist := congrArg String.toList h
  simp only [requestText, String.toList_append] at hlist
  have hsplit : ∀ (l l' m m' : List Char), (∀ c ∈ l, c ≠ '\x00') → (∀ c ∈ l', c ≠ '\x00') →
      l ++ ['\x00'] ++ m = l' ++ ['\x00'] ++ m' → l = l' ∧ m = m' := by
    intro l
    induction l with
    | nil =>
      intro l' m m' _ hl' heq
      cases l' with
      | nil => exact ⟨rfl, (List.cons.inj heq).2⟩
      | cons c l' => exact absurd (List.cons.inj heq).1.symm (hl' c List.mem_cons_self)
    | cons c l ih =>
      intro l' m m' hl hl' heq
      cases l' with
      | nil => exact absurd (List.cons.inj heq).1 (hl c List.mem_cons_self)
      | cons c' l' =>
        obtain ⟨rfl, htail⟩ := List.cons.inj heq
        obtain ⟨rfl, hm⟩ := ih l' m m' (fun d hd => hl d (List.mem_cons_of_mem _ hd))
          (fun d hd => hl' d (List.mem_cons_of_mem _ hd)) htail
        exact ⟨rfl, hm⟩
  obtain ⟨hkind, htext⟩ := hsplit _ _ _ _ (TurnControlKind.asStr_toList kind) (TurnControlKind.asStr_toList kind') hlist
  refine ⟨?_, String.toList_inj.1 htext⟩
  have hstr := String.toList_inj.1 hkind
  cases kind <;> cases kind' <;> first | rfl | exact absurd hstr (by decide)

variable {payloadJson : String} {q : KeyRequest V}

theorem KeyRequest.exec_eq (h : q.Accepted json payloadJson) (t : TurnControls) : q.exec sha256 json t =
      match transact (enqueueIdempotentTx (q.control sha256 payloadJson) q.key
          (sha256 (requestText q.kind payloadJson))) t with
      | (.error (.invariant msg), t) =>
        (.error (if msg = reusedMessage then .idempotencyConflict else .db (.invariant msg)), t)
      | (.error e, t) => (.error (.db e), t)
      | (.ok (controlId, isNew), t) =>
        ((readBack json controlId "insertion" t).map (fun control => (control, isNew)), t) := by
  unfold KeyRequest.exec enqueueIdempotent
  rw [h.encoded]
  dsimp only
  rw [h.sized, h.keyed, h.turn]
  rfl

def SharesKey (r r' : TurnControlRow) : Prop :=
  r.conversationId = r'.conversationId ∧ r.clientRequestId = r'.clientRequestId ∧ r.clientRequestId.isSome = true

/-- **Each request key has one control**, with the digest of its request. -/
structure KeysOk (t : TurnControls) : Prop where
  hashed : ∀ r ∈ t.controls.rows, Hashed sha256 r
  unique : t.controls.rows.Pairwise (fun r r' => ¬ SharesKey r r')

theorem SameRequest.hashed {r r' : TurnControlRow} (h : SameRequest r r') (hr : Hashed sha256 r) :
    Hashed sha256 r' := by
  unfold Hashed at hr ⊢
  rw [h.clientRequestId, h.requestBodySha256, h.kind, h.payloadJson]
  exact hr

theorem RowsMove.ok {t t' : TurnControls} (h : RowsMove sha256 t t') (hok : KeysOk sha256 t) : KeysOk sha256 t' := by
  cases h with
  | kept f hsame hrows =>
    constructor
    · rw [hrows]
      intro r' hr'
      obtain ⟨r, hr, rfl⟩ := List.mem_map.1 hr'
      exact (hsame r).hashed sha256 (hok.hashed r hr)
    · rw [hrows, List.pairwise_map]
      refine hok.unique.imp fun hne hshares => hne ?_
      unfold SharesKey at hshares
      rw [(hsame _).conversationId, (hsame _).conversationId, (hsame _).clientRequestId,
        (hsame _).clientRequestId] at hshares
      exact hshares
  | added row hhashed hfree hrows =>
    constructor
    · rw [hrows]
      intro r hr
      rcases List.mem_append.1 hr with hr | hr
      · exact hok.hashed r hr
      · rw [List.mem_singleton.1 hr]
        exact hhashed
    · rw [hrows, List.pairwise_append]
      refine ⟨hok.unique, List.pairwise_singleton _ _, fun r hr r' hr' => ?_⟩
      rw [List.mem_singleton.1 hr']
      rintro ⟨hconv, hkey, hsome⟩
      obtain ⟨key, hk⟩ := Option.isSome_iff_exists.1 hsome
      have hnone := List.find?_eq_none.1 (hfree key (hkey.symm.trans hk)) r hr
      simp [hconv, hk] at hnone

theorem RowsMove.requested {t t' : TurnControls} (h : RowsMove sha256 t t') {conversationId key : String}
    {r : TurnControlRow} (hr : requested t conversationId key = some r) :
    ∃ r', TurnControlStore.requested t' conversationId key = some r' ∧ SameRequest r r' := by
  cases h with
  | kept f hsame hrows =>
    refine ⟨f r, ?_, hsame r⟩
    have hpred : (fun r : TurnControlRow => r.conversationId == conversationId && r.clientRequestId == some key) ∘ f =
        fun r => r.conversationId == conversationId && r.clientRequestId == some key := by
      funext r
      simp [(hsame r).conversationId, (hsame r).clientRequestId]
    rw [TurnControlStore.requested, hrows, List.find?_map, hpred]
    exact congrArg (Option.map f) hr
  | added row _ _ hrows =>
    refine ⟨r, ?_, .refl r⟩
    rw [TurnControlStore.requested, hrows, List.find?_append]
    exact congrArg (fun o : Option (TurnControlRow) => o.or _) hr

/-- **A key binds the whole intent**, in one call: the first creates a control, one of the same kind, payload and turn
gets that control, any other a conflict. -/
structure KeyRequest.Binds (json : JsonColumn V) (q : KeyRequest V) (payloadJson : String) (t : TurnControls) : Prop where
  first : requested t q.conversationId q.key = none →
    (q.exec sha256 json t).2.controls.rows = t.controls.rows ++ [q.control sha256 payloadJson]
  again : ∀ r, requested t q.conversationId q.key = some r → r.kind = q.kind → r.payloadJson = payloadJson →
    r.turnId = q.turnId → ∃ record, r.record json = some record ∧ q.exec sha256 json t = (.ok (record, false), t)
  differs : ∀ r, requested t q.conversationId q.key = some r →
    r.kind ≠ q.kind ∨ r.payloadJson ≠ payloadJson ∨ r.turnId ≠ q.turnId →
    q.exec sha256 json t = (.error .idempotencyConflict, t)

variable {t : TurnControls}

theorem exec_stored (hok : KeysOk sha256 t) (hacc : q.Accepted json payloadJson) {r : TurnControlRow}
    (hr : requested t q.conversationId q.key = some r) :
    q.exec sha256 json t =
      if sha256 (requestText r.kind r.payloadJson) = sha256 (requestText q.kind payloadJson) then
        ((answerOf json r).map (fun control => (control, false)), t)
      else (.error .idempotencyConflict, t) := by
  obtain ⟨hrow, hconv, hkey⟩ := requested_row hr
  have hhash := hok.hashed r (Keyed.row_iff.1 hrow).1 q.key hkey
  have hreq : requested t (q.control sha256 payloadJson).conversationId q.key = some r := hr
  rw [q.exec_eq sha256 hacc]
  by_cases hsame : sha256 (requestText r.kind r.payloadJson) = sha256 (requestText q.kind payloadJson)
  · have htx : transact (enqueueIdempotentTx (q.control sha256 payloadJson) q.key
        (sha256 (requestText q.kind payloadJson))) t = (.ok (r.controlId, false), t) := by
      refine transact_of_ok ?_
      unfold enqueueIdempotentTx
      rw [hreq]
      simp [hhash, hsame, not_true_eq_false]
    rw [htx, if_pos hsame]
    exact congrArg (fun x => (Except.map (fun control => (control, false)) x, t)) (readBack_row hrow)
  · have htx : transact (enqueueIdempotentTx (q.control sha256 payloadJson) q.key
        (sha256 (requestText q.kind payloadJson))) t = (.error (.invariant reusedMessage), t) := by
      refine transact_of_error ?_
      unfold enqueueIdempotentTx
      rw [hreq]
      exact if_pos (by rw [hhash]; exact fun heq => hsame (Option.some.inj heq))
    rw [htx, if_neg hsame]
    rfl

theorem exec_first (hhist : history t q.controlId = []) (hacc : q.Accepted json payloadJson)
    (hfresh : t.controls.row q.controlId = none) (hnone : requested t q.conversationId q.key = none) :
    (q.exec sha256 json t).2.controls.rows = t.controls.rows ++ [q.control sha256 payloadJson] := by
  obtain ⟨t', hins⟩ := insertControl_fresh t (q.control sha256 payloadJson) hfresh hhist
    (fun k hk => Option.some.inj hk ▸ hnone)
  obtain ⟨hrow, hrows, -, -⟩ := insertControl_move sha256 rfl (fun _ _ => rfl) hins
  have htx : transact (enqueueIdempotentTx (q.control sha256 payloadJson) q.key
      (sha256 (requestText q.kind payloadJson))) t = (.ok (q.controlId, true), t') := by
    refine transact_of_ok ?_
    unfold enqueueIdempotentTx
    have hreq : requested t (q.control sha256 payloadJson).conversationId q.key = none := hnone
    rw [hreq, hins]
    rfl
  rw [q.exec_eq sha256 hacc, htx]
  exact hrows

/-- The calls whose answer is not the claimed one: the same kind and payload for another turn, or a stored payload that
cannot be read. -/
def KeyRequest.KeepsTurn (json : JsonColumn V) (q : KeyRequest V) (payloadJson : String) (t : TurnControls) : Prop :=
  ∀ r, requested t q.conversationId q.key = some r → r.kind = q.kind → r.payloadJson = payloadJson →
    r.turnId = q.turnId ∧ (json.fromStr payloadJson).isSome

theorem binds_iff (hok : KeysOk sha256 t) (hhist : history t q.controlId = []) (hacc : q.Accepted json payloadJson)
    (hfresh : t.controls.row q.controlId = none) (hsha : ∀ r, requested t q.conversationId q.key = some r →
    sha256 (requestText r.kind r.payloadJson) = sha256 (requestText q.kind payloadJson) →
    requestText r.kind r.payloadJson = requestText q.kind payloadJson) :
    q.Binds sha256 json payloadJson t ↔ q.KeepsTurn json payloadJson t := by
  have hsame : ∀ r : TurnControlRow, r.kind = q.kind → r.payloadJson = payloadJson →
      sha256 (requestText r.kind r.payloadJson) = sha256 (requestText q.kind payloadJson) := by
    rintro r hk hp
    rw [hk, hp]
  constructor
  · intro hbinds r hr hkind hpayload
    have hturn : r.turnId = q.turnId := by
      by_contra hne
      have hconflict := hbinds.differs r hr (.inr (.inr hne))
      rw [exec_stored sha256 hok hacc hr, if_pos (hsame r hkind hpayload), answerOf] at hconflict
      cases hrecord : r.record json <;> rw [hrecord] at hconflict <;> cases hconflict
    obtain ⟨record, hrecord, -⟩ := hbinds.again r hr hkind hpayload hturn
    unfold TurnControlRow.record at hrecord
    obtain ⟨payload, hread, -⟩ := Option.map_eq_some_iff.1 hrecord
    exact ⟨hturn, by rw [← hpayload, hread]; rfl⟩
  · intro hkeeps
    refine ⟨exec_first sha256 hhist hacc hfresh, fun r hr hkind hpayload _ => ?_, fun r hr hdiffers => ?_⟩
    · obtain ⟨payload, hread⟩ := Option.isSome_iff_exists.1 (hkeeps r hr hkind hpayload).2
      obtain ⟨record, hrecord⟩ : ∃ record, r.record json = some record := by
        rw [TurnControlRow.record, hpayload, hread]
        exact ⟨_, rfl⟩
      refine ⟨record, hrecord, ?_⟩
      rw [exec_stored sha256 hok hacc hr, if_pos (hsame r hkind hpayload), answerOf, hrecord]
      rfl
    · rw [exec_stored sha256 hok hacc hr, if_neg]
      intro heq
      obtain ⟨hkind, hpayload⟩ := requestText_inj (hsha r hr heq)
      rcases hdiffers with h | h | h
      · exact h hkind
      · exact h hpayload
      · exact h (hkeeps r hr hkind hpayload).1

/-- **Request keys**, in a state of the tables: a key has one control, which keeps its request over any later calls, and
a call under it does what its intent asks for exactly when it keeps the turn. -/
structure KeysBind (json : JsonColumn V) (t : TurnControls) : Prop where
  one : ∀ r ∈ t.controls.rows, ∀ r' ∈ t.controls.rows, SharesKey r r' → r = r'
  bound : ∀ conversationId key r, requested t conversationId key = some r → ∀ later : List (Call V), ∃ r',
    requested (Calls.after (TurnControlStore.exec json sha256) t later) conversationId key = some r' ∧ SameRequest r r'
  law : ∀ (q : KeyRequest V) payloadJson, q.Accepted json payloadJson → t.controls.row q.controlId = none →
    (∀ r, requested t q.conversationId q.key = some r →
      sha256 (requestText r.kind r.payloadJson) = sha256 (requestText q.kind payloadJson) →
      requestText r.kind r.payloadJson = requestText q.kind payloadJson) →
    (q.Binds sha256 json payloadJson t ↔ q.KeepsTurn json payloadJson t)

/-- **Request keys bind the whole intent, where a call keeps the turn**, after any calls. -/
theorem request_keys_bind_iff (json : JsonColumn V) (calls : List (Call V)) :
    KeysBind sha256 json (Calls.after (exec json sha256) noControls calls) := by
  have hok : KeysOk sha256 (Calls.after (exec json sha256) noControls calls) := by
    have hempty : KeysOk sha256 noControls := ⟨fun _ hr => (by cases hr), List.Pairwise.nil⟩
    exact after_invariant (fun t c h => (exec_moves json sha256 t c).rows.ok sha256 h) hempty calls
  have hviews := viewOk_after json sha256 calls
  generalize Calls.after (exec json sha256) noControls calls = t at hok hviews
  constructor
  · intro r hr r' hr' hshares
    by_contra hne
    have hsymm : Std.Symm (fun r r' : TurnControlRow => ¬ SharesKey r r') :=
      ⟨fun a b h ⟨h1, h2, h3⟩ => h ⟨h1.symm, h2.symm, h2 ▸ h3⟩⟩
    exact hok.unique.forall hr hr' hne hshares
  · intro conversationId key r hr later
    refine after_invariant (I := fun t' : TurnControls => ∃ r', requested t' conversationId key = some r' ∧
      SameRequest r r') ?_ ⟨r, hr, .refl r⟩ later
    rintro t' c ⟨q, hq, hsame⟩
    obtain ⟨q', hq', hsame'⟩ := (exec_moves json sha256 t' c).rows.requested sha256 hq
    exact ⟨q', hq', hsame.trans hsame'⟩
  · intro q payloadJson hacc hfresh hsha
    have hview := hviews q.controlId
    rw [view, hfresh] at hview
    exact binds_iff sha256 hok hview hacc hfresh hsha

end Keys

/-- An array nested `n + 1` deep. -/
def nested : Nat → String
  | 0 => "[]"
  | n + 1 => "[" ++ nested n ++ "]"

theorem size_nested : ∀ n, (nested n).utf8ByteSize = 2 * n + 2
  | 0 => rfl
  | n + 1 => by
    rw [nested, String.utf8ByteSize_append, String.utf8ByteSize_append, size_nested n]
    have h : "[".utf8ByteSize = 1 ∧ "]".utf8ByteSize = 1 := ⟨rfl, rfl⟩
    omega

/-- `serde_json` on nested arrays: it prints them all, and reads back what is nested less than 128 deep. -/
def nestedJson : JsonColumn Nat where
  toString n := .ok (nested n)
  fromStr text :=
    let n := text.utf8ByteSize / 2 - 1
    if n < 127 ∧ text = nested n then some n else none
  null := 0

/-- A payload that cannot be read back fails its call, with the control stored. -/
theorem enqueue_unread {V : Type} {json : JsonColumn V} {conversationId controlId text : String}
    {turnId : Option String} {kind : TurnControlKind} {payload : V} {now : Int} {t t' : TurnControls}
    (hprint : json.toString payload = .ok text) (hread : json.fromStr text = none)
    (hsize : oversized conversationId text = false) (hturn : malformedTurnId turnId = false)
    (hins : insertControl (newControl controlId conversationId turnId kind text now none) t = .ok t') :
    enqueue json conversationId turnId kind payload now controlId t = (.error (.db unreadable), t') ∧
      (t'.controls.row controlId).isSome := by
  have hrow := (insertControl_move id rfl (fun _ hkey => by cases hkey) hins).1
  have hrecord : (newControl controlId conversationId turnId kind text now none).record json = none := by
    rw [TurnControlRow.record, newControl, hread]
    rfl
  have hanswer : readBack json controlId "insertion" t' = _ := readBack_row hrow
  rw [answerOf, hrecord] at hanswer
  refine ⟨?_, Option.isSome_of_eq_some hrow⟩
  simp [enqueue, hprint, hsize, hturn, hins, hanswer]

/-- **A control with a payload nested 128 deep is stored, and its call fails.** -/
theorem failed_enqueue_stores : ∃ t, exec nestedJson id noControls (.enqueue "c" none .steer 127 10 "id-1") =
    (.error (.db unreadable), t) ∧ (t.controls.row "id-1").isSome := by
  have hread : nestedJson.fromStr (nested 127) = none := by
    simp only [nestedJson, size_nested]
    rfl
  have hsize : oversized "c" (nested 127) = false := by
    rw [oversized, size_nested]
    rfl
  have hins : ∀ text, ∃ t, insertControl (newControl "id-1" "c" none .steer text 10 none) noControls = .ok t :=
    fun text => ⟨_, rfl⟩
  obtain ⟨t, ht⟩ := hins (nested 127)
  obtain ⟨hfails, hrow⟩ := enqueue_unread (rfl : nestedJson.toString 127 = _) hread hsize rfl ht
  exact ⟨t, by rw [exec, hfails]; rfl, hrow⟩

def sampleControls : TurnControls :=
  Calls.after (exec nestedJson id) noControls [.enqueueIdempotent "c" (some "turn-1") .cancel 0 "k" 10 "id-1"]

/-- The key of a cancel of the first turn answers a cancel of the second with the first one's control. -/
theorem key_reused_for_another_turn :
    (enqueueIdempotent nestedJson id "c" (some "turn-2") .cancel 0 "k" 11 "id-2" sampleControls).1.toOption.map
        (fun answer => (answer.1.controlId, answer.1.turnId, answer.2)) = some ("id-1", some "turn-1", false) ∧
      (enqueueIdempotent nestedJson id "c" (some "turn-2") .cancel 0 "k" 11 "id-2" sampleControls).1 ≠
        .error .idempotencyConflict := by
  refine (fun h => ⟨h, fun hconflict => ?_⟩ : _ → _) (by decide)
  rw [hconflict] at h
  cases h

end TurnControlStore

end Execlaw
