import Execlaw.MessageArchive
import Execlaw.Registers
import Mathlib.Data.List.Find
/-!
# MessageArchiveRuns — what deliveries in any order leave

A message is a register that the newest operation writes, and so is each of its reactions; a delivery is a write, made
once however often it comes (`Delivered.step`).  The registers give the outcome for every order.  Sender, sender's name
and reply target are the exception: an operation without one leaves what it finds.
-/
namespace Execlaw

open Table Calls Registers

structure MessageKey where
  archiveId : String
  sourceMessageId : String
  archiveMessageId : String

namespace ArchiveOperation

def On (k : MessageKey) (o : ArchiveOperation) : Prop :=
  o.archiveId = k.archiveId ∧ o.sourceMessageId = k.sourceMessageId ∧ o.archiveMessageId = k.archiveMessageId

def stamp (o : ArchiveOperation) : ℤ ×ₗ String := toLex (o.sourceVersion, o.eventId)

theorem newerThan_iff {o : ArchiveOperation} {version : Int} {eventId : String} :
    o.newerThan version eventId = true ↔ toLex (version, eventId) < o.stamp := by
  rw [stamp, Prod.Lex.toLex_lt_toLex]
  simp only [newerThan, Bool.or_eq_true, Bool.and_eq_true, decide_eq_true_eq, @eq_comm _ o.sourceVersion]

def Reacts (actorId value : String) (o : ArchiveOperation) : Prop :=
  o.kind.reacts = true ∧ o.actorId = some actorId ∧ o.reaction = some value

instance (actorId value : String) (o : ArchiveOperation) : Decidable (o.Reacts actorId value) :=
  inferInstanceAs (Decidable (_ ∧ _ ∧ _))

end ArchiveOperation

/-! ## Registers -/

def messageRegister (u : Unicode) : Register (Option ArchiveMessageRow) ArchiveOperation (ℤ ×ₗ String) :=
  .ofRows (fun r => toLex (r.sourceVersion, r.sourceRevision)) ArchiveOperation.stamp (fun o => o.inserted u)
    (fun o => o.merged u) (fun _ => rfl) (fun _ _ => rfl)

def reactionRegister (actorId value : String) : Register (Option ArchiveReactionRow) ArchiveOperation (ℤ ×ₗ String) :=
  .ofRows (fun r => toLex (r.sourceVersion, r.sourceEventId)) ArchiveOperation.stamp (fun o => o.reacted actorId value)
    ArchiveOperation.rereacted (fun _ => rfl) (fun _ _ => rfl)

theorem write_message_none (u : Unicode) (o : ArchiveOperation) :
    (messageRegister u).write none o = some (o.inserted u) :=
  Register.write_none o

theorem write_message_some (u : Unicode) (r : ArchiveMessageRow) (o : ArchiveOperation) :
    (messageRegister u).write (some r) o =
      some (if toLex (r.sourceVersion, r.sourceRevision) < o.stamp then o.merged u r else r) :=
  Register.write_some r o

theorem write_reaction_none (actorId value : String) (o : ArchiveOperation) :
    (reactionRegister actorId value).write none o = some (o.reacted actorId value) :=
  Register.write_none o

theorem write_reaction_some (actorId value : String) (r : ArchiveReactionRow) (o : ArchiveOperation) :
    (reactionRegister actorId value).write (some r) o =
      some (if toLex (r.sourceVersion, r.sourceEventId) < o.stamp then o.rereacted r else r) :=
  Register.write_some r o

namespace MessageArchive

def message (k : MessageKey) (s : MessageArchive) : Option ArchiveMessageRow := s.addressed k.archiveId k.sourceMessageId

def entries (k : MessageKey) (s : MessageArchive) : List ArchiveSearchRow :=
  s.search.filter fun e => e.archiveMessageId == k.archiveMessageId

def reaction (k : MessageKey) (actorId value : String) (s : MessageArchive) : Option ArchiveReactionRow :=
  s.reactions.row (k.archiveId, k.sourceMessageId, actorId, value)

/-- **The message is in its place**, or its place is free, and the index is as the triggers leave it. -/
structure Placed (k : MessageKey) (s : MessageArchive) : Prop where
  known : k.archiveId ∈ s.conversations
  stored : ∀ r, s.message k = some r → r.archiveMessageId = k.archiveMessageId ∧ r.sourceEventSeq = none
  free : s.message k = none → s.messages.row k.archiveMessageId = none
  search : s.entries k = (s.message k).elim [] indexed

variable {u : Unicode} {k : MessageKey} {s s' : MessageArchive} {o : ArchiveOperation} {r r' : ArchiveMessageRow}

theorem message_key (h : s.message k = some r) :
    r.archiveId = k.archiveId ∧ r.sourceMessageId = some k.sourceMessageId := by
  have hfound := List.find?_some h
  simpa [ArchiveMessageRow.isAt] using hfound

theorem not_eventTaken (h : r.sourceEventSeq = none) : s.eventTaken r = false := by
  simp only [eventTaken, List.any_eq_false, Bool.and_eq_true, not_and, Bool.not_eq_true, h]
  rintro other - ⟨⟨⟨-, -⟩, hsome⟩, heq⟩
  rw [beq_iff_eq] at heq
  rw [heq] at hsome
  cases hsome

theorem filter_indexed (h : r.archiveMessageId = k.archiveMessageId) :
    (indexed r).filter (fun e => e.archiveMessageId == k.archiveMessageId) = indexed r := by
  rw [List.filter_eq_self]
  intro e he
  unfold indexed at he
  split at he
  · rw [List.mem_singleton.1 he]
    exact beq_iff_eq.2 h
  · cases he

/-- A write that puts `r` in the message's place. -/
structure Put (k : MessageKey) (r : ArchiveMessageRow) (s s' : MessageArchive) : Prop where
  message : s'.message k = some r
  entries : s'.entries k = indexed r
  conversations : s'.conversations = s.conversations
  revisions : s'.revisions = s.revisions
  reactions : s'.reactions = s.reactions

theorem put_insertMessage (hplaced : s.Placed k) (hfree : s.message k = none) (hseq : r.sourceEventSeq = none)
    (harchive : r.archiveId = k.archiveId) (hsource : r.sourceMessageId = some k.sourceMessageId)
    (hmessage : r.archiveMessageId = k.archiveMessageId) : ∃ s', s.insertMessage r = .ok s' ∧ Put k r s s' := by
  cases hinsert : s.messages.insert? r trivial with
  | none =>
    rw [Keyed.insert?_eq_none, hmessage, hplaced.free hfree] at hinsert
    cases hinsert
  | some messages =>
    refine ⟨{ s with messages := messages, search := s.search ++ indexed r }, ?_, ⟨?_, ?_, rfl, rfl, rfl⟩⟩
    · rw [insertMessage, not_eventTaken hseq, hinsert]
      rfl
    · change messages.rows.find? _ = some r
      unfold message addressed at hfree
      rw [Keyed.rows_insert? hinsert, List.find?_append, hfree]
      simp [ArchiveMessageRow.isAt, harchive, hsource]
    · change (s.search ++ indexed r).filter _ = indexed r
      rw [List.filter_append, filter_indexed hmessage]
      change s.entries k ++ _ = _
      rw [hplaced.search, hfree]
      rfl

theorem put_updateMessage (hplaced : s.Placed k) (hrow : s.message k = some r) (hseq : r'.sourceEventSeq = none)
    (harchive : r'.archiveId = r.archiveId) (hsource : r'.sourceMessageId = r.sourceMessageId)
    (hmessage : r'.archiveMessageId = r.archiveMessageId) : ∃ s', s.updateMessage r' = .ok s' ∧ Put k r' s s' := by
  have hid := hmessage.trans (hplaced.stored r hrow).1
  have hmem : r ∈ s.messages.rows := List.mem_of_find?_eq_some hrow
  refine ⟨{ s with
    messages := s.replaced r'
    search := s.search.filter (fun e => e.archiveMessageId != r'.archiveMessageId) ++ indexed r' }, ?_,
    ⟨?_, ?_, rfl, rfl, rfl⟩⟩
  · rw [updateMessage, not_eventTaken hseq]
    rfl
  · change (updateKey _ _ _ s.messages.rows).find? _ = some r'
    unfold updateKey
    rw [List.find?_map]
    refine (congrArg (Option.map _) (List.find?_congr fun row hother => ?_)).trans
      ((congrArg (Option.map _) hrow).trans (by simp [Change.apply, hmessage]))
    by_cases hkey : row.archiveMessageId = r'.archiveMessageId
    · have heq : row = r := eq_of_key s.messages.unique hother hmem (hkey.trans hmessage)
      simp [ArchiveMessageRow.isAt, Change.apply, heq, hmessage, harchive, hsource]
    · simp [hkey]
  · change (s.search.filter _ ++ indexed r').filter _ = indexed r'
    rw [List.filter_append, filter_indexed hid, List.filter_filter]
    simp [hid]

theorem Put.placed (hput : Put k r s s') (hplaced : s.Placed k) (hid : r.archiveMessageId = k.archiveMessageId)
    (hseq : r.sourceEventSeq = none) : s'.Placed k where
  known := hput.conversations ▸ hplaced.known
  stored := by
    intro r' hr'
    cases hput.message.symm.trans hr'
    exact ⟨hid, hseq⟩
  free := by
    intro hnone
    rw [hput.message] at hnone
    cases hnone
  search := by
    rw [hput.entries, hput.message]
    rfl

theorem reaction_upsertReaction (hon : o.On k) (actorId value actorId' value' : String) :
    (s.upsertReaction o actorId value).reaction k actorId' value' =
      if actorId = actorId' ∧ value = value' then
        (reactionRegister actorId' value').write (s.reaction k actorId' value') o
      else s.reaction k actorId' value' := by
  obtain ⟨harchive, hsource, -⟩ := hon
  unfold reaction upsertReaction
  split
  · next heq =>
    obtain ⟨rfl, rfl⟩ := heq
    have hkey : (k.archiveId, k.sourceMessageId, actorId, value) = (o.reacted actorId value).key := by
      rw [← harchive, ← hsource]
      rfl
    rw [hkey]
    refine (s.reactions.row_upsert_self _ _).trans ?_
    cases s.reactions.row (o.reacted actorId value).key with
    | none => exact (write_reaction_none actorId value o).symm
    | some q =>
      rw [write_reaction_some]
      simp only [Option.elim_some, Change.apply, ArchiveOperation.newerThan_iff]
  · next hne =>
    refine s.reactions.row_upsert_of_ne (r := o.reacted actorId value) _ _ fun heq => hne ?_
    simp only [ArchiveReactionRow.key, ArchiveOperation.reacted, Prod.mk.injEq] at heq
    exact ⟨heq.2.2.1.symm, heq.2.2.2.symm⟩

structure Written (u : Unicode) (k : MessageKey) (o : ArchiveOperation) (s s' : MessageArchive) : Prop where
  placed : s'.Placed k
  recorded : s'.revisions.rows = s.revisions.rows ++ [o.revision]
  message : s'.message k = if o.kind.reacts then s.message k else (messageRegister u).write (s.message k) o
  reactions : ∀ actorId value, s'.reaction k actorId value =
    if o.Reacts actorId value then (reactionRegister actorId value).write (s.reaction k actorId value) o
    else s.reaction k actorId value

theorem written_message (hplaced : s.Placed k) (hon : o.On k) :
    ∃ s', upsertMessage u o s = .ok s' ∧ s'.message k = (messageRegister u).write (s.message k) o ∧ s'.Placed k ∧
      s'.revisions = s.revisions ∧ s'.reactions = s.reactions := by
  obtain ⟨harchive, hsource, hmessage⟩ := hon
  unfold upsertMessage
  have haddressed : s.addressed k.archiveId k.sourceMessageId = s.message k := rfl
  rw [harchive, hsource, haddressed]
  cases hrow : s.message k with
  | none =>
    obtain ⟨s', hs', hput⟩ := put_insertMessage (r := o.inserted u) hplaced hrow rfl harchive (congrArg some hsource) hmessage
    refine ⟨s', hs', ?_, hput.placed hplaced hmessage rfl, hput.revisions, hput.reactions⟩
    exact hput.message.trans (write_message_none u o).symm
  | some r =>
    obtain ⟨hid, hseq⟩ := hplaced.stored r hrow
    rw [write_message_some]
    by_cases hnewer : toLex (r.sourceVersion, r.sourceRevision) < o.stamp
    · obtain ⟨s', hs', hput⟩ : ∃ s', s.updateMessage (o.merged u r) = .ok s' ∧ Put k (o.merged u r) s s' :=
        put_updateMessage hplaced hrow hseq rfl rfl rfl
      refine ⟨s', ?_, ?_, hput.placed hplaced hid hseq, hput.revisions, hput.reactions⟩
      · exact (if_pos (ArchiveOperation.newerThan_iff.2 hnewer)).trans hs'
      · rw [if_pos hnewer]
        exact hput.message
    · refine ⟨s, if_neg (mt ArchiveOperation.newerThan_iff.1 hnewer), ?_, hplaced, rfl, rfl⟩
      rw [if_neg hnewer]
      exact hrow

theorem reaction_of_missing (hmissing : o.missing u = none) (hreacts : o.kind.reacts = true) :
    ∃ actorId value, o.actorId = some actorId ∧ o.reaction = some value := by
  unfold ArchiveOperation.missing at hmissing
  split at hmissing
  · cases hmissing
  split at hmissing
  · cases hmissing
  split at hmissing
  · cases hmissing
  next hvalue =>
  split at hmissing
  · cases hmissing
  next hactor =>
  obtain ⟨value, hvalue⟩ := Option.ne_none_iff_exists'.1 fun h => hvalue ⟨hreacts, Option.isNone_iff_eq_none.2 h⟩
  obtain ⟨actorId, hactor⟩ := Option.ne_none_iff_exists'.1 fun h => hactor ⟨hreacts, Option.isNone_iff_eq_none.2 h⟩
  exact ⟨actorId, value, hactor, hvalue⟩

theorem applyOperation_written (hplaced : s.Placed k) (hon : o.On k) (hmissing : o.missing u = none)
    (hfresh : s.revisions.row (k.archiveId, o.eventId) = none) : Written u k o s (applyOperation u o s).2 := by
  have hrecorded : (s.revisions.insertOrIgnore o.revision trivial).rows = s.revisions.rows ++ [o.revision] := by
    refine Keyed.rows_insertOrIgnore trivial ?_
    change (s.revisions.row (o.archiveId, o.eventId)).isSome = false
    rw [hon.1, hfresh]
    rfl
  have hplaced₁ : Placed k { s with revisions := s.revisions.insertOrIgnore o.revision trivial } :=
    ⟨hplaced.known, hplaced.stored, hplaced.free, hplaced.search⟩
  have hknown : s.conversations.contains o.archiveId = true := by
    rw [hon.1, List.contains_iff_mem]
    exact hplaced.known
  -- the transaction commits
  obtain ⟨result, s', htx, hwritten⟩ : ∃ result s', applyTx u o s = .ok (result, s') ∧ Written u k o s s' := by
    unfold applyTx
    rw [hon.1, hfresh, ← hon.1, hknown]
    cases hreacts : o.kind.reacts with
    | true =>
      obtain ⟨actorId, value, hactor, hvalue⟩ := reaction_of_missing hmissing hreacts
      rw [hactor, hvalue]
      refine ⟨_, _, rfl, ⟨?_, hrecorded, ?_, fun actorId' value' => ?_⟩⟩
      · exact ⟨hplaced.known, hplaced.stored, hplaced.free, hplaced.search⟩
      · rw [hreacts]
        rfl
      · rw [reaction_upsertReaction hon]
        simp [ArchiveOperation.Reacts, hreacts, hactor, hvalue]
        rfl
    | false =>
      obtain ⟨s', hs', hmessage, hplaced', hrevisions, hreactions⟩ := written_message (u := u) hplaced₁ hon
      have hwritten : Written u k o s s' := by
        refine ⟨hplaced', hrevisions ▸ hrecorded, ?_, fun actorId value => ?_⟩
        · rw [hreacts]
          exact hmessage
        · rw [if_neg fun h => Bool.false_ne_true (hreacts.symm.trans h.1)]
          unfold reaction
          rw [hreactions]
      cases hnewer : (s.addressed o.archiveId o.sourceMessageId).all
          (fun r => o.newerThan r.sourceVersion r.sourceRevision) with
      | true =>
        refine ⟨⟨true, true⟩, s', ?_, hwritten⟩
        change (if (!Option.all _ (s.addressed o.archiveId o.sourceMessageId)) = true then _ else _) = _
        rw [hnewer, hs']
        rfl
      | false =>
        have hsame : upsertMessage u o { s with revisions := s.revisions.insertOrIgnore o.revision trivial } =
            .ok { s with revisions := s.revisions.insertOrIgnore o.revision trivial } := by
          have haddressed : MessageArchive.addressed { s with
              revisions := s.revisions.insertOrIgnore o.revision trivial } o.archiveId o.sourceMessageId =
            s.addressed o.archiveId o.sourceMessageId := rfl
          rw [upsertMessage, haddressed]
          cases hrow : s.addressed o.archiveId o.sourceMessageId with
          | none =>
            rw [hrow] at hnewer
            cases hnewer
          | some r =>
            rw [hrow, Option.all_some] at hnewer
            exact if_neg (Bool.eq_false_iff.1 hnewer)
        cases hs'.symm.trans hsame
        refine ⟨⟨true, false⟩, _, ?_, hwritten⟩
        change (if (!Option.all _ (s.addressed o.archiveId o.sourceMessageId)) = true then _ else _) = _
        rw [hnewer]
        rfl
  rw [applyOperation, hmissing]
  exact (transact_of_ok htx).symm ▸ hwritten

theorem applyOperation_recorded (hmissing : o.missing u = none)
    (hrow : (s.revisions.row (o.archiveId, o.eventId)).isSome = true) : (applyOperation u o s).2 = s := by
  rw [applyOperation, hmissing]
  have htx : applyTx u o s = .ok (⟨false, false⟩, s) := if_pos hrow
  exact congrArg Prod.snd (transact_of_ok htx)

/-! ## Deliveries -/

structure Batch (u : Unicode) (k : MessageKey) (ops : List ArchiveOperation) : Prop where
  on : ∀ o ∈ ops, o.On k
  valid : ∀ o ∈ ops, o.missing u = none
  distinct : ∀ o ∈ ops, ∀ o' ∈ ops, o.eventId = o'.eventId → o = o'

def Unrecorded (k : MessageKey) (ops : List ArchiveOperation) (s : MessageArchive) : Prop :=
  ∀ o ∈ ops, s.revisions.row (k.archiveId, o.eventId) = none

def applyAll (u : Unicode) (s : MessageArchive) (l : List ArchiveOperation) : MessageArchive :=
  after (fun s o => applyOperation u o s) s l

def messageWrites (l : List ArchiveOperation) : List ArchiveOperation := l.filter fun o => !o.kind.reacts

def reactionWrites (actorId value : String) (l : List ArchiveOperation) : List ArchiveOperation :=
  l.filter fun o => o.Reacts actorId value

structure Delivered (u : Unicode) (k : MessageKey) (s : MessageArchive) (l : List ArchiveOperation) (s' : MessageArchive) :
    Prop where
  placed : s'.Placed k
  recorded : ∀ r, r ∈ s'.revisions.rows ↔ r ∈ s.revisions.rows ∨ ∃ o ∈ l, r = o.revision
  message : s'.message k = (messageRegister u).writeAll (messageWrites l) (s.message k)
  reactions : ∀ actorId value, s'.reaction k actorId value =
    (reactionRegister actorId value).writeAll (reactionWrites actorId value l) (s.reaction k actorId value)

theorem Delivered.nil (hplaced : s.Placed k) : Delivered u k s [] s := ⟨hplaced, by simp, rfl, fun _ _ => rfl⟩

variable {l : List ArchiveOperation}

theorem Delivered.write {s'' : MessageArchive} (h : Delivered u k s l s') (hwritten : Written u k o s' s'') :
    Delivered u k s (l ++ [o]) s'' where
  placed := hwritten.placed
  recorded := by
    intro r
    rw [hwritten.recorded, List.mem_append, List.mem_singleton, h.recorded]
    simp only [List.mem_append, List.mem_singleton, or_and_right, exists_or, exists_eq_left, or_assoc]
  message := by
    rw [hwritten.message, h.message, messageWrites, messageWrites, List.filter_append]
    cases hreacts : o.kind.reacts <;> simp [hreacts, Register.writeAll_snoc]
  reactions := by
    intro actorId value
    rw [hwritten.reactions, h.reactions, reactionWrites, reactionWrites, List.filter_append]
    by_cases hreacts : o.Reacts actorId value <;> simp [hreacts, Register.writeAll_snoc]

theorem Delivered.again (h : Delivered u k s l s') (ho : o ∈ l) : Delivered u k s (l ++ [o]) s' where
  placed := h.placed
  recorded := by
    intro r
    rw [h.recorded]
    simp only [List.mem_append, List.mem_singleton]
    constructor
    · rintro (hr | ⟨o', ho', rfl⟩)
      · exact .inl hr
      · exact .inr ⟨o', .inl ho', rfl⟩
    · rintro (hr | ⟨o', ho' | rfl, rfl⟩)
      · exact .inl hr
      · exact .inr ⟨o', ho', rfl⟩
      · exact .inr ⟨_, ho, rfl⟩
  message := by
    rw [h.message, messageWrites, messageWrites, List.filter_append]
    by_cases hreacts : o.kind.reacts = true
    · simp [hreacts]
    · have hmem : o ∈ l.filter (fun o => !o.kind.reacts) := List.mem_filter.2 ⟨ho, by simp [hreacts]⟩
      simp [hreacts, Register.writeAll_snoc, Register.write_of_mem hmem]
  reactions := by
    intro actorId value
    rw [h.reactions, reactionWrites, reactionWrites, List.filter_append]
    by_cases hreacts : o.Reacts actorId value
    · have hmem : o ∈ l.filter (fun o => decide (o.Reacts actorId value)) := List.mem_filter.2 ⟨ho, by simp [hreacts]⟩
      simp [hreacts, Register.writeAll_snoc, Register.write_of_mem hmem]
    · simp [hreacts]

theorem delivered {ops : List ArchiveOperation} (hbatch : Batch u k ops) (hplaced : s.Placed k)
    (hfresh : Unrecorded k ops s) (l : List ArchiveOperation) (hl : ∀ o ∈ l, o ∈ ops) :
    Delivered u k s l (applyAll u s l) := by
  induction l using List.reverseRecOn with
  | nil => exact .nil hplaced
  | append_singleton l o ih =>
    have h := ih fun o ho => hl o (by simp [ho])
    have ho : o ∈ ops := hl o (by simp)
    rw [applyAll, after_snoc]
    change Delivered u k s (l ++ [o]) (applyOperation u o (applyAll u s l)).2
    by_cases hmem : o ∈ l
    · have hrow : o.revision ∈ (applyAll u s l).revisions.rows := (h.recorded _).2 (.inr ⟨o, hmem, rfl⟩)
      have hkey : (applyAll u s l).revisions.row (o.archiveId, o.eventId) = some o.revision := Keyed.row_iff.2 ⟨hrow, rfl⟩
      rw [applyOperation_recorded (hbatch.valid o ho) (by rw [hkey]; rfl)]
      exact h.again hmem
    · refine h.write (applyOperation_written h.placed (hbatch.on o ho) (hbatch.valid o ho) ?_)
      by_contra hsome
      obtain ⟨r, hr⟩ := Option.ne_none_iff_exists'.1 hsome
      obtain ⟨hmem', hkey⟩ := Keyed.row_iff.1 hr
      rcases (h.recorded r).1 hmem' with hold | ⟨o', ho', rfl⟩
      · have hnone := hfresh o ho
        rw [Keyed.row_iff.2 ⟨hold, hkey⟩] at hnone
        cases hnone
      · have heq := hbatch.distinct o' (hl o' (by simp [ho'])) o ho (congrArg Prod.snd hkey)
        exact hmem (heq ▸ ho')

/-! ## Projections -/

structure View where
  body : String
  deleted : Bool
  sourceVersion : Int
  sourceRevision : String
  senderId : Option String
  senderName : Option String
  replyTo : Option String
  occurredAt : Int
  sourceEventKind : String

def view (r : ArchiveMessageRow) : View where
  body := r.body
  deleted := r.deletedAt.isSome
  sourceVersion := r.sourceVersion
  sourceRevision := r.sourceRevision
  senderId := r.senderId
  senderName := r.senderName
  replyTo := r.replyToMessageId
  occurredAt := r.occurredAt
  sourceEventKind := r.sourceEventKind

structure SameProjection (k : MessageKey) (s s' : MessageArchive) : Prop where
  message : (s.message k).map view = (s'.message k).map view
  search : s.entries k = s'.entries k
  reactions : ∀ p, p ∈ s.activeReactions k.archiveId k.sourceMessageId ↔
    p ∈ s'.activeReactions k.archiveId k.sourceMessageId

theorem mem_activeReactions {actorId value : String} :
    (actorId, value) ∈ s.activeReactions k.archiveId k.sourceMessageId ↔
      ∃ r, s.reaction k actorId value = some r ∧ r.active = true := by
  unfold activeReactions reaction
  rw [mem_orderBy, List.mem_map]
  constructor
  · rintro ⟨r, hr, heq⟩
    rw [List.mem_filter] at hr
    simp only [Bool.and_eq_true, beq_iff_eq] at hr
    obtain ⟨hmem, ⟨harchive, hsource⟩, hactive⟩ := hr
    cases heq
    exact ⟨r, Keyed.row_iff.2 ⟨hmem, by rw [ArchiveReactionRow.key, harchive, hsource]⟩, hactive⟩
  · rintro ⟨r, hr, hactive⟩
    obtain ⟨hmem, hkey⟩ := Keyed.row_iff.1 hr
    simp only [ArchiveReactionRow.key, Prod.mk.injEq] at hkey
    obtain ⟨harchive, hsource, rfl, rfl⟩ := hkey
    exact ⟨r, List.mem_filter.2 ⟨hmem, by simp [harchive, hsource, hactive]⟩, rfl⟩

inductive Inherited | senderId | senderName | replyTo

namespace Inherited

def ofOperation : Inherited → ArchiveOperation → Option String
  | senderId, o => o.senderId
  | senderName, o => o.senderName
  | replyTo, o => o.replyToMessageId

def ofRow : Inherited → ArchiveMessageRow → Option String
  | senderId, r => r.senderId
  | senderName, r => r.senderName
  | replyTo, r => r.replyToMessageId

theorem ofRow_put (f : Inherited) (o : ArchiveOperation) (c : Option ArchiveMessageRow) :
    ((messageRegister u).put o c).bind f.ofRow = (f.ofOperation o).or (c.bind f.ofRow) := by
  cases c <;> cases f <;> simp [messageRegister, Register.ofRows, ofRow, ofOperation, ArchiveOperation.inserted,
    ArchiveOperation.merged]

theorem ofRow_congr (f : Inherited) {c c' : Option ArchiveMessageRow} (h : c.map view = c'.map view) :
    c.bind f.ofRow = c'.bind f.ofRow := by
  have hview : ∀ c : Option ArchiveMessageRow, c.bind f.ofRow = (c.map view).bind fun v =>
      match f with
      | senderId => v.senderId
      | senderName => v.senderName
      | replyTo => v.replyTo := by
    rintro (_ | r) <;> cases f <;> rfl
  rw [hview, hview, h]

end Inherited

def Newer (k : MessageKey) (s : MessageArchive) (o : ArchiveOperation) : Prop :=
  ∀ r, s.message k = some r → o.newerThan r.sourceVersion r.sourceRevision = true

structure Latest (k : MessageKey) (s : MessageArchive) (ops : List ArchiveOperation) (g : ArchiveOperation) : Prop where
  mem : g ∈ ops
  message : g.kind.reacts = false
  newer : Newer k s g
  greatest : ∀ o ∈ ops, o.kind.reacts = false → o.stamp ≤ g.stamp

/-- **The condition**: the latest operation has a sender, a sender's name and a reply target of its own, each where any
newer operation has one that the archive does not show. -/
def Settled (k : MessageKey) (s : MessageArchive) (ops : List ArchiveOperation) : Prop :=
  ∀ g, Latest k s ops g → ∀ f : Inherited, (f.ofOperation g).isSome = true ∨
    ∀ o ∈ ops, o.kind.reacts = false → Newer k s o →
      f.ofOperation o = none ∨ f.ofOperation o = (s.message k).bind f.ofRow

theorem newer_iff : Newer k s o ↔ (messageRegister u).stamp (s.message k) < (messageRegister u).at_ o := by
  unfold Newer
  cases hrow : s.message k with
  | none => exact iff_of_true (fun r h => absurd h.symm (Option.some_ne_none r)) (WithBot.bot_lt_coe _)
  | some r =>
    simp only [Option.some.injEq, forall_eq', ArchiveOperation.newerThan_iff]
    exact WithBot.coe_lt_coe.symm

theorem mem_messageWrites : o ∈ messageWrites l ↔ o ∈ l ∧ o.kind.reacts = false := by
  simp [messageWrites]

theorem latest_iff {ops : List ArchiveOperation} {g : ArchiveOperation} :
    Latest k s ops g ↔ (messageRegister u).Newest (messageWrites ops) (s.message k) g := by
  constructor
  · intro h
    refine ⟨mem_messageWrites.2 ⟨h.mem, h.message⟩, newer_iff.1 h.newer, fun o ho => ?_⟩
    obtain ⟨ho, hkind⟩ := mem_messageWrites.1 ho
    exact h.greatest o ho hkind
  · intro h
    obtain ⟨hmem, hkind⟩ := mem_messageWrites.1 h.mem
    exact ⟨hmem, hkind, newer_iff.2 h.newer, fun o ho hkind => h.greatest o (mem_messageWrites.2 ⟨ho, hkind⟩)⟩

structure Shows (u : Unicode) (o : ArchiveOperation) (r : ArchiveMessageRow) : Prop where
  body : r.body = o.storedBody
  keywords : r.topicKeywords = extractTopicKeywords u o.storedBody 5
  deleted : r.deletedAt = o.deletedAt
  version : r.sourceVersion = o.sourceVersion
  revision : r.sourceRevision = o.eventId
  occurred : r.occurredAt = o.occurredAt
  kind : r.sourceEventKind = o.kind.asStr

theorem shows_put (o : ArchiveOperation) (c : Option ArchiveMessageRow) :
    ∃ r, (messageRegister u).put o c = some r ∧ Shows u o r := by
  cases c with
  | none => exact ⟨o.inserted u, rfl, rfl, rfl, rfl, rfl, rfl, rfl, rfl⟩
  | some r => exact ⟨o.merged u r, rfl, rfl, rfl, rfl, rfl, rfl, rfl, rfl⟩

theorem Shows.view_eq (h : Shows u o r) (h' : Shows u o r') (hinherited : ∀ f : Inherited, f.ofRow r = f.ofRow r') :
    view r = view r' := by
  have hsender := hinherited .senderId
  have hname := hinherited .senderName
  have hreply := hinherited .replyTo
  simp only [Inherited.ofRow] at hsender hname hreply
  simp only [view, h.body, h'.body, h.deleted, h'.deleted, h.version, h'.version, h.revision, h'.revision, h.occurred,
    h'.occurred, h.kind, h'.kind, hsender, hname, hreply]

theorem indexed_congr (hview : view r = view r') (hkeywords : r.topicKeywords = r'.topicKeywords)
    (hid : r.archiveMessageId = r'.archiveMessageId) (harchive : r.archiveId = r'.archiveId) :
    indexed r = indexed r' := by
  have hbody : r.body = r'.body := congrArg View.body hview
  have hname : r.senderName = r'.senderName := congrArg View.senderName hview
  have hdeleted : r.deletedAt.isSome = r'.deletedAt.isSome := congrArg View.deleted hview
  unfold indexed
  rw [← Option.not_isSome, ← Option.not_isSome, hdeleted, hbody, hname, hkeywords, hid, harchive]

def Delivers (ops l : List ArchiveOperation) : Prop := ∀ o, o ∈ l ↔ o ∈ ops

section Converges

variable {ops l l' : List ArchiveOperation}

theorem stamp_inj (hbatch : Batch u k ops) : ∀ o ∈ ops, ∀ o' ∈ ops, o.stamp = o'.stamp → o = o' := by
  intro o ho o' ho' hstamp
  exact hbatch.distinct o ho o' ho' (congrArg (fun p => (ofLex p).2) hstamp)

theorem messageWrites_congr (h : ∀ o, o ∈ l ↔ o ∈ l') (o : ArchiveOperation) :
    o ∈ messageWrites l ↔ o ∈ messageWrites l' := by
  rw [mem_messageWrites, mem_messageWrites, h]

theorem reactionWrites_congr (h : ∀ o, o ∈ l ↔ o ∈ l') (actorId value : String) (o : ArchiveOperation) :
    o ∈ reactionWrites actorId value l ↔ o ∈ reactionWrites actorId value l' := by
  rw [reactionWrites, reactionWrites, List.mem_filter, List.mem_filter, h]

theorem reactions_converge (hbatch : Batch u k ops) (hl : Delivers ops l) (hl' : Delivers ops l')
    {s₁ s₂ : MessageArchive} (h : Delivered u k s l s₁) (h' : Delivered u k s l' s₂) (p : String × String) :
    p ∈ s₁.activeReactions k.archiveId k.sourceMessageId ↔ p ∈ s₂.activeReactions k.archiveId k.sourceMessageId := by
  obtain ⟨actorId, value⟩ := p
  have hactive : ∀ s' : MessageArchive, (actorId, value) ∈ s'.activeReactions k.archiveId k.sourceMessageId ↔
      (s'.reaction k actorId value).map ArchiveReactionRow.active = some true := by
    intro s'
    rw [mem_activeReactions, Option.map_eq_some_iff]
  have hinj : ∀ o ∈ reactionWrites actorId value l, ∀ o' ∈ reactionWrites actorId value l,
      (reactionRegister actorId value).at_ o = (reactionRegister actorId value).at_ o' → o = o' := by
    intro o ho o' ho' hstamp
    exact stamp_inj hbatch o ((hl o).1 (List.mem_filter.1 ho).1) o' ((hl o').1 (List.mem_filter.1 ho').1) hstamp
  have hdetermined : ∀ (o : ArchiveOperation) (c c' : Option ArchiveReactionRow),
      ((reactionRegister actorId value).put o c).map ArchiveReactionRow.active =
        ((reactionRegister actorId value).put o c').map ArchiveReactionRow.active := by
    rintro o (_ | c) (_ | c') <;> rfl
  rw [hactive, hactive, h.reactions, h'.reactions]
  exact Eq.congr_left (Register.writeAll_congr (f := fun c => c.map ArchiveReactionRow.active) hdetermined hinj
    (reactionWrites_congr (fun o => (hl o).trans (hl' o).symm) actorId value))

theorem inherited_writeAll {f : Inherited} {c : Option ArchiveMessageRow}
    (h : ∀ o ∈ l, (messageRegister u).stamp c < (messageRegister u).at_ o →
      f.ofOperation o = none ∨ f.ofOperation o = c.bind f.ofRow) :
    ((messageRegister u).writeAll l c).bind f.ofRow = c.bind f.ofRow := by
  refine Register.writeAll_invariant (P := fun c' : Option ArchiveMessageRow => c'.bind f.ofRow = c.bind f.ofRow) rfl
    fun o ho c' hnewer hc' => ?_
  rw [Inherited.ofRow_put, hc']
  rcases h o ho hnewer with hnone | hsame
  · rw [hnone, Option.none_or]
  · rw [hsame, Option.or_self]

theorem messages_converge (hbatch : Batch u k ops) (hl : Delivers ops l) (hl' : Delivers ops l')
    (hsettled : Settled k s ops) {s₁ s₂ : MessageArchive} (h : Delivered u k s l s₁) (h' : Delivered u k s l' s₂) :
    s₁.message k = s₂.message k ∨
      ∃ o r r', s₁.message k = some r ∧ s₂.message k = some r' ∧ Shows u o r ∧ Shows u o r' ∧ view r = view r' := by
  have hinj : ∀ l, Delivers ops l → ∀ o ∈ messageWrites l, ∀ o' ∈ messageWrites l,
      (messageRegister u).at_ o = (messageRegister u).at_ o' → o = o' := by
    intro l hl o ho o' ho' hstamp
    exact stamp_inj hbatch o ((hl o).1 (mem_messageWrites.1 ho).1) o' ((hl o').1 (mem_messageWrites.1 ho').1) hstamp
  have hwrites := messageWrites_congr fun o => (hl o).trans (hl' o).symm
  rw [h.message, h'.message]
  rcases Register.writeAll_cases (R := messageRegister u) (messageWrites l) (s.message k) with
    ⟨hold, hsame⟩ | ⟨g, pre, suf, hpre, hg, hput⟩
  · rw [hsame, Register.writeAll_of_le fun o ho => hold o ((hwrites o).2 ho)]
    exact .inl rfl
  · obtain ⟨pre', suf', hpre', hput'⟩ := Register.writeAll_newest (hinj l' hl') (hg.congr hwrites)
    have hlatest : Latest k s ops g := latest_iff.2 (hg.congr (messageWrites_congr hl))
    obtain ⟨r, hr, hshows⟩ := shows_put (u := u) g ((messageRegister u).writeAll pre (s.message k))
    obtain ⟨r', hr', hshows'⟩ := shows_put (u := u) g ((messageRegister u).writeAll pre' (s.message k))
    refine .inr ⟨g, r, r', hput.trans hr, hput'.trans hr', hshows, hshows', hshows.view_eq hshows' fun f => ?_⟩
    have hof : ∀ (pre : List ArchiveOperation) (r : ArchiveMessageRow), (∀ o ∈ pre, o ∈ messageWrites ops) →
        (messageRegister u).put g ((messageRegister u).writeAll pre (s.message k)) = some r →
        f.ofRow r = (f.ofOperation g).or ((s.message k).bind f.ofRow) := by
      intro pre r hpre hr
      have hrow := f.ofRow_put (u := u) g ((messageRegister u).writeAll pre (s.message k))
      rw [hr, Option.bind_some] at hrow
      rw [hrow]
      rcases hsettled g hlatest f with hsome | hkept
      · rw [Option.or_of_isSome hsome, Option.or_of_isSome hsome]
      · rw [inherited_writeAll fun o ho hnewer => ?_]
        obtain ⟨hmem, hkind⟩ := mem_messageWrites.1 (hpre o ho)
        exact hkept o hmem hkind (newer_iff.2 hnewer)
    have hsub : ∀ l pre suf, Delivers ops l → messageWrites l = pre ++ g :: suf → ∀ o ∈ pre, o ∈ messageWrites ops := by
      intro l pre suf hl heq o ho
      exact (messageWrites_congr hl o).1 (heq ▸ List.mem_append_left _ ho)
    rw [hof pre r (hsub l pre suf hl hpre) hr, hof pre' r' (hsub l' pre' suf' hl' hpre') hr']

theorem settled_of_converges (hbatch : Batch u k ops) (hplaced : s.Placed k) (hfresh : Unrecorded k ops s)
    (hconverges : ∀ l l', Delivers ops l → Delivers ops l' → SameProjection k (applyAll u s l) (applyAll u s l')) :
    Settled k s ops := by
  intro g hg f
  by_contra hnot
  rw [not_or, Option.not_isSome_iff_eq_none] at hnot
  obtain ⟨hnone, hother⟩ := hnot
  push Not at hother
  obtain ⟨o, ho, hkind, hnewer, hsome, hshown⟩ := hother
  have hlt : o.stamp < g.stamp := by
    refine lt_of_le_of_ne (hg.greatest o ho hkind) fun hstamp => hsome ?_
    rw [stamp_inj hbatch o ho g hg.mem hstamp, hnone]
  have hdelivers : ∀ l, (∀ o ∈ l, o ∈ ops) → Delivers ops (l ++ ops) := by
    intro l hl o
    rw [List.mem_append, or_iff_right_of_imp (hl o)]
  -- once the latest is written, the others change nothing
  have hafter : ∀ l, (∀ o ∈ l, o ∈ ops) → g ∈ messageWrites l →
      (applyAll u s (l ++ ops)).message k = (messageRegister u).writeAll (messageWrites l) (s.message k) := by
    intro l hl hmem
    have hl' : ∀ o ∈ l ++ ops, o ∈ ops := fun o ho => ((hdelivers l hl) o).1 ho
    rw [(delivered hbatch hplaced hfresh (l ++ ops) hl').message, messageWrites, List.filter_append,
      Register.writeAll_append]
    refine Register.writeAll_of_le fun o' ho' => ?_
    refine le_trans ?_ (Register.le_stamp_writeAll hmem)
    obtain ⟨ho', hkind'⟩ := mem_messageWrites.1 ho'
    exact WithBot.coe_le_coe.2 (hg.greatest o' ho' hkind')
  have hstart := newer_iff (u := u).1 hg.newer
  have hg₁ : ∀ o ∈ [g], o ∈ ops := by simpa using hg.mem
  have hg₂ : ∀ o' ∈ [o, g], o' ∈ ops := by simpa using ⟨ho, hg.mem⟩
  have halone : (applyAll u s ([g] ++ ops)).message k = (messageRegister u).put g (s.message k) := by
    rw [hafter [g] hg₁ (mem_messageWrites.2 ⟨List.mem_cons_self, hg.message⟩)]
    simp only [messageWrites, hg.message, Bool.not_false, List.filter_cons_of_pos, List.filter_nil]
    exact Register.write_of_lt hstart
  have hboth : (applyAll u s ([o, g] ++ ops)).message k =
      (messageRegister u).put g ((messageRegister u).put o (s.message k)) := by
    rw [hafter [o, g] hg₂ (mem_messageWrites.2 ⟨List.mem_cons_of_mem _ List.mem_cons_self, hg.message⟩)]
    simp only [messageWrites, hkind, hg.message, Bool.not_false, List.filter_cons_of_pos, List.filter_nil]
    change (messageRegister u).write ((messageRegister u).write (s.message k) o) g = _
    rw [Register.write_of_lt (newer_iff.1 hnewer)]
    refine Register.write_of_lt ?_
    rw [Register.stamp_put]
    exact WithBot.coe_lt_coe.2 hlt
  have hview := (hconverges _ _ (hdelivers [g] hg₁) (hdelivers [o, g] hg₂)).message
  rw [halone, hboth] at hview
  have hfield := f.ofRow_congr hview
  rw [Inherited.ofRow_put, Inherited.ofRow_put, Inherited.ofRow_put, hnone, Option.none_or, Option.none_or,
    Option.or_of_isSome (Option.isSome_iff_ne_none.2 hsome)] at hfield
  exact hshown hfield.symm

theorem converges_of_settled (hbatch : Batch u k ops) (hplaced : s.Placed k) (hfresh : Unrecorded k ops s)
    (hsettled : Settled k s ops) (hl : Delivers ops l) (hl' : Delivers ops l') :
    SameProjection k (applyAll u s l) (applyAll u s l') := by
  have h := delivered hbatch hplaced hfresh l fun o => (hl o).1
  have h' := delivered hbatch hplaced hfresh l' fun o => (hl' o).1
  refine ⟨?_, ?_, reactions_converge hbatch hl hl' h h'⟩
  · rcases messages_converge hbatch hl hl' hsettled h h' with heq | ⟨o, r, r', hr, hr', -, -, hview⟩
    · rw [heq]
    · rw [hr, hr', Option.map_some, Option.map_some, hview]
  · rw [h.placed.search, h'.placed.search]
    rcases messages_converge hbatch hl hl' hsettled h h' with heq | ⟨o, r, r', hr, hr', hshows, hshows', hview⟩
    · rw [heq]
    · rw [hr, hr']
      refine indexed_congr hview (hshows.keywords.trans hshows'.keywords.symm) ?_ ?_
      · rw [(h.placed.stored r hr).1, (h'.placed.stored r' hr').1]
      · rw [(message_key hr).1, (message_key hr').1]

theorem latest_shown (hbatch : Batch u k ops) (hl : Delivers ops l) {s' : MessageArchive} (h : Delivered u k s l s')
    {g : ArchiveOperation} (hg : Latest k s ops g) : ∃ r, s'.message k = some r ∧ Shows u g r := by
  have hinj : ∀ o ∈ messageWrites l, ∀ o' ∈ messageWrites l,
      (messageRegister u).at_ o = (messageRegister u).at_ o' → o = o' := by
    intro o ho o' ho' hstamp
    exact stamp_inj hbatch o ((hl o).1 (mem_messageWrites.1 ho).1) o' ((hl o').1 (mem_messageWrites.1 ho').1) hstamp
  have hnewest := (latest_iff (u := u).1 hg).congr (messageWrites_congr fun o => (hl o).symm)
  obtain ⟨pre, suf, -, hput⟩ := Register.writeAll_newest hinj hnewest
  rw [h.message, hput]
  exact shows_put g _

theorem deleted_stays (hbatch : Batch u k ops) (hl : ∀ o ∈ l, o ∈ ops) {s' : MessageArchive} (h : Delivered u k s l s')
    {d : ArchiveOperation} (hd : d ∈ l) (hkind : d.kind = .delete) (hnewer : Newer k s d) :
    ∃ r, s'.message k = some r ∧ (r.deletedAt.isSome = true ∨ d.stamp < toLex (r.sourceVersion, r.sourceRevision)) := by
  have hreacts : d.kind.reacts = false := by rw [hkind]; rfl
  have hwrite : d ∈ messageWrites l := mem_messageWrites.2 ⟨hd, hreacts⟩
  rcases Register.writeAll_cases (R := messageRegister u) (messageWrites l) (s.message k) with
    ⟨hold, -⟩ | ⟨g, pre, suf, -, hg, hput⟩
  · exact absurd (newer_iff.1 hnewer) (not_lt.2 (hold d hwrite))
  · obtain ⟨r, hr, hshows⟩ := shows_put (u := u) g ((messageRegister u).writeAll pre (s.message k))
    refine ⟨r, by rw [h.message, hput, hr], ?_⟩
    rw [hshows.version, hshows.revision]
    rcases (hg.greatest d hwrite).lt_or_eq with hlt | heq
    · exact .inr hlt
    · obtain rfl := stamp_inj hbatch d (hl d hd) g (hl g (mem_messageWrites.1 hg.mem).1) heq
      left
      rw [hshows.deleted, ArchiveOperation.deletedAt, if_pos hkind]
      rfl

/-- **The archive converges exactly where the latest operation brings what an update would leave.**  The text, the
deletion and the revision of the latest are shown in every order, a delete is undone by nothing older, and the revisions
are those of before and one for each operation. -/
theorem archive_converges_iff (hbatch : Batch u k ops) (hplaced : s.Placed k) (hfresh : Unrecorded k ops s) :
    ((∀ l l', Delivers ops l → Delivers ops l' → SameProjection k (applyAll u s l) (applyAll u s l')) ↔
      Settled k s ops) ∧
    ∀ l, Delivers ops l →
      (∀ g, Latest k s ops g → ∃ r, (applyAll u s l).message k = some r ∧ r.body = g.storedBody ∧
        r.deletedAt = g.deletedAt ∧ r.sourceVersion = g.sourceVersion ∧ r.sourceRevision = g.eventId) ∧
      (∀ d ∈ ops, d.kind = .delete → Newer k s d → ∃ r, (applyAll u s l).message k = some r ∧
        (r.deletedAt.isSome = true ∨ d.stamp < toLex (r.sourceVersion, r.sourceRevision))) ∧
      ∀ r, r ∈ (applyAll u s l).revisions.rows ↔ r ∈ s.revisions.rows ∨ ∃ o ∈ ops, r = o.revision := by
  refine ⟨⟨settled_of_converges hbatch hplaced hfresh, fun hsettled l l' => converges_of_settled hbatch hplaced hfresh
    hsettled⟩, fun l hl => ?_⟩
  have h := delivered hbatch hplaced hfresh l fun o => (hl o).1
  refine ⟨fun g hg => ?_, fun d hd hkind hnewer => ?_, fun r => ?_⟩
  · obtain ⟨r, hr, hshows⟩ := latest_shown hbatch hl h hg
    exact ⟨r, hr, hshows.body, hshows.deleted, hshows.version, hshows.revision⟩
  · exact deleted_stays hbatch (fun o => (hl o).1) h ((hl d).2 hd) hkind hnewer
  · rw [h.recorded]
    exact or_congr_right (exists_congr fun o => and_congr_left fun _ => hl o)

end Converges

/-! ### One message, two operations -/

def sampleKey : MessageKey := ⟨"a", "r", "m"⟩

def sampleArchive : MessageArchive := ⟨["a"], .empty, [], .empty, .empty⟩

def sampleOperations (replyTo : Option String) : List ArchiveOperation :=
  [⟨"e", "a", "m", "r", .create, 1, 1, some "first", some "peer", none, some "question", none, some "peer", 1⟩,
    ⟨"f", "a", "m", "r", .edit, 2, 2, some "other", some "peer", none, replyTo, none, some "peer", 2⟩]

theorem batch_sample (replyTo : Option String) : Batch asciiUnicode sampleKey (sampleOperations replyTo) where
  on := by simp [sampleOperations, ArchiveOperation.On, sampleKey]
  valid := by
    simp only [sampleOperations, List.mem_cons, List.not_mem_nil, or_false, forall_eq_or_imp, forall_eq]
    constructor
    all_goals
      dsimp only [ArchiveOperation.missing]
      rw [if_neg (by decide), if_neg (by decide), if_neg (by decide), if_neg (by decide)]
  distinct := by
    simp [sampleOperations]

theorem placed_sample : sampleArchive.Placed sampleKey where
  known := List.mem_cons_self
  stored := fun r h => absurd h.symm (Option.some_ne_none r)
  free := fun _ => rfl
  search := rfl

theorem archive_converges_sample : SameProjection sampleKey
    (applyAll asciiUnicode sampleArchive (sampleOperations (some "question")))
    (applyAll asciiUnicode sampleArchive (sampleOperations (some "question")).reverse) := by
  have hiff := (archive_converges_iff (batch_sample (some "question")) placed_sample fun _ _ => rfl).1
  have hall : ∀ o ∈ sampleOperations (some "question"),
      o.senderId.isSome = true ∧ o.senderName = none ∧ o.replyToMessageId.isSome = true := by
    simp [sampleOperations]
  refine hiff.2 (fun g hg f => ?_) _ _ (fun _ => Iff.rfl) fun _ => List.mem_reverse
  cases f with
  | senderId => exact .inl (hall g hg.mem).1
  | senderName => exact .inr fun o ho _ _ => .inl (hall o ho).2.1
  | replyTo => exact .inl (hall g hg.mem).2.2

/-- **An edit that comes first loses the reply target** that the create has. -/
theorem reply_depends_on_order : ¬ ∀ (u : Unicode) (k : MessageKey) (ops : List ArchiveOperation) (s : MessageArchive),
    Batch u k ops → s.Placed k → Unrecorded k ops s → ∀ l l', Delivers ops l → Delivers ops l' →
      SameProjection k (applyAll u s l) (applyAll u s l') := by
  intro hclaim
  have hsame := hclaim asciiUnicode sampleKey (sampleOperations none) sampleArchive (batch_sample none) placed_sample
    (fun _ _ => rfl) _ _ (fun _ => Iff.rfl) fun _ => List.mem_reverse
  have hreply := Inherited.ofRow_congr .replyTo hsame.message
  -- the edit merges with the create, or stands alone
  have hin := (delivered (batch_sample none) placed_sample (fun _ _ => rfl) _ fun _ => id).message
  have hout := (delivered (batch_sample none) placed_sample (fun _ _ => rfl) _ fun _ => List.mem_reverse.1).message
  rw [hin, hout] at hreply
  have hnone : sampleArchive.message sampleKey = none := rfl
  have hmerged : (toLex (1, "e") : ℤ ×ₗ String) < toLex (2, "f") := Prod.Lex.toLex_lt_toLex.2 (.inl (by decide))
  have hkept : ¬ (toLex (2, "f") : ℤ ×ₗ String) < toLex (1, "e") := hmerged.not_gt
  simp [hnone, messageWrites, sampleOperations, ArchiveOperationKind.reacts, Register.writeAll, write_message_none,
    write_message_some, ArchiveOperation.inserted, ArchiveOperation.merged, ArchiveOperation.stamp, hmerged, hkept,
    Inherited.ofRow] at hreply

end MessageArchive

end Execlaw
