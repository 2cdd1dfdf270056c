import Execlaw.Calls
import Execlaw.Keyed
import Execlaw.UnicodeText
import Mathlib.Data.Int.ConditionallyCompleteOrder
import Mathlib.Data.List.Dedup
import Mathlib.Data.Prod.Lex
import Mathlib.Data.String.Basic
import Mathlib.Order.ConditionallyCompleteLattice.Basic
/-!
# MessageArchive — archived messages and their operations (`core/src/message_archive.rs`)

The archive keeps every operation of a transport in the revisions table and shows the newest of each message: a message
row, which an operation replaces when its version, or its event id at one version, is greater; reactions by actor and
value; and the search index, which triggers keep in step with the rows.
-/
namespace Execlaw

open Table Calls

structure ArchiveMessageRow where
  archiveMessageId : String
  archiveId : String
  sourceEventSeq : Option Int
  sourceEventKind : String
  direction : String
  senderId : Option String
  senderName : Option String
  body : String
  topicKeywords : String
  occurredAt : Int
  sourceMessageId : Option String
  createdAt : Int
  deliveryStatus : String
  replyToMessageId : Option String
  deletedAt : Option Int
  sourceVersion : Int
  sourceRevision : String

def ArchiveMessageRow.isAt (archiveId sourceMessageId : String) (r : ArchiveMessageRow) : Bool :=
  r.archiveId == archiveId && r.sourceMessageId == some sourceMessageId

structure ArchiveSearchRow where
  archiveMessageId : String
  archiveId : String
  body : String
  senderName : String
  topicKeywords : String

inductive ArchiveOperationKind | create | edit | delete | reactionAdd | reactionRemove
deriving DecidableEq

namespace ArchiveOperationKind

def asStr : ArchiveOperationKind → String
  | create => "create"
  | edit => "edit"
  | delete => "delete"
  | reactionAdd => "reaction_add"
  | reactionRemove => "reaction_remove"

def reacts : ArchiveOperationKind → Bool
  | reactionAdd | reactionRemove => true
  | create | edit | delete => false

end ArchiveOperationKind

structure ArchiveOperation where
  eventId : String
  archiveId : String
  archiveMessageId : String
  sourceMessageId : String
  kind : ArchiveOperationKind
  sourceVersion : Int
  occurredAt : Int
  body : Option String
  senderId : Option String
  senderName : Option String
  replyToMessageId : Option String
  reaction : Option String
  actorId : Option String
  recordedAt : Int
deriving DecidableEq

structure ArchiveRevisionRow where
  eventId : String
  archiveId : String
  sourceMessageId : String
  operation : String
  sourceVersion : Int
  occurredAt : Int
  body : Option String
  replyToMessageId : Option String
  reaction : Option String
  actorId : Option String
  recordedAt : Int

def ArchiveRevisionRow.key (r : ArchiveRevisionRow) : String × String := (r.archiveId, r.eventId)

structure ArchiveReactionRow where
  archiveId : String
  sourceMessageId : String
  actorId : String
  reaction : String
  sourceVersion : Int
  sourceEventId : String
  active : Bool
  updatedAt : Int

def ArchiveReactionRow.key (r : ArchiveReactionRow) : String × String × String × String :=
  (r.archiveId, r.sourceMessageId, r.actorId, r.reaction)

structure MessageArchive where
  conversations : List String
  messages : Keyed ArchiveMessageRow.archiveMessageId (fun _ => True)
  search : List ArchiveSearchRow
  revisions : Keyed ArchiveRevisionRow.key (fun _ => True)
  reactions : Keyed ArchiveReactionRow.key (fun _ => True)

inductive ArchiveError
  | sqlite
  | invariant (msg : String)

structure ArchiveOperationResult where
  recorded : Bool
  currentStateChanged : Bool

/-! ## Topic keywords -/

def stopwords : List String :=
  ["about", "after", "are", "been", "could", "from", "have", "into", "just", "that", "the", "their", "there", "this",
    "what", "when", "where", "with", "would", "your", "you", "and", "for", "not", "was", "were", "will"]

def topicWords (u : Unicode) (body : String) : List String :=
  ((body.toList.splitOnP (fun c => !u.isAlphanumeric c)).map fun raw =>
    String.ofList (u.toLowercase (u.trim raw))).filter fun word =>
      !(word.utf8ByteSize < 3 || stopwords.contains word || word.toList.all u.isNumeric)

/-- `extract_topic_keywords`: the most frequent words, ties in alphabetical order. -/
@[irreducible] def extractTopicKeywords (u : Unicode) (body : String) (limit : Nat) : String :=
  let words := topicWords u body
  let counts := words.dedup.map fun word => (word, words.count word)
  let sorted := counts.insertionSort fun left right => right.2 < left.2 ∨ left.2 = right.2 ∧ left.1 ≤ right.1
  String.intercalate " " ((sorted.take limit).map Prod.fst)

namespace MessageArchive

def indexed (r : ArchiveMessageRow) : List ArchiveSearchRow :=
  if r.deletedAt.isNone && r.body ≠ "" then
    [⟨r.archiveMessageId, r.archiveId, r.body, r.senderName.getD "", r.topicKeywords⟩]
  else []

def addressed (s : MessageArchive) (archiveId sourceMessageId : String) : Option ArchiveMessageRow :=
  s.messages.rows.find? (ArchiveMessageRow.isAt archiveId sourceMessageId)

def eventTaken (s : MessageArchive) (r : ArchiveMessageRow) : Bool :=
  s.messages.rows.any fun other => other.archiveMessageId != r.archiveMessageId && other.archiveId == r.archiveId &&
    other.sourceEventSeq.isSome && other.sourceEventSeq == r.sourceEventSeq && other.sourceEventKind == r.sourceEventKind

def insertMessage (r : ArchiveMessageRow) (s : MessageArchive) : Except ArchiveError MessageArchive :=
  if s.eventTaken r then .error .sqlite
  else
    match s.messages.insert? r trivial with
    | some messages => .ok { s with messages := messages, search := s.search ++ indexed r }
    | none => .error .sqlite

/-- The messages with `r` in the place of the row of its key. -/
def replaced (r : ArchiveMessageRow) (s : MessageArchive) : Keyed ArchiveMessageRow.archiveMessageId (fun _ => True) :=
  s.messages.update r.archiveMessageId
    { takes := fun _ => true
      set := fun row => if row.archiveMessageId = r.archiveMessageId then r else row
      key_set := fun row => by split <;> simp_all
      keeps_ok := fun _ _ _ => trivial }

def updateMessage (r : ArchiveMessageRow) (s : MessageArchive) : Except ArchiveError MessageArchive :=
  if s.eventTaken r then .error .sqlite
  else
    .ok { s with
      messages := s.replaced r
      search := s.search.filter (fun e => e.archiveMessageId != r.archiveMessageId) ++ indexed r }

end MessageArchive

/-! ## Operations -/

namespace ArchiveOperation

variable (o : ArchiveOperation)

def missing (u : Unicode) : Option String :=
  if u.isBlank o.eventId || u.isBlank o.sourceMessageId || u.isBlank o.archiveId then
    some "archive operation identity fields are required"
  else if (o.kind = .create ∨ o.kind = .edit) ∧ o.body.isNone then some "create and edit operations require a body"
  else if o.kind.reacts ∧ o.reaction.isNone then some "reaction operations require a reaction value"
  else if o.kind.reacts ∧ o.actorId.isNone then some "reaction operations require an actor identity"
  else none

def revision : ArchiveRevisionRow where
  eventId := o.eventId
  archiveId := o.archiveId
  sourceMessageId := o.sourceMessageId
  operation := o.kind.asStr
  sourceVersion := o.sourceVersion
  occurredAt := o.occurredAt
  body := o.body
  replyToMessageId := o.replyToMessageId
  reaction := o.reaction
  actorId := o.actorId
  recordedAt := o.recordedAt

def storedBody : String := if o.kind = .delete then "" else o.body.getD ""

def deletedAt : Option Int := if o.kind = .delete then some o.recordedAt else none

def newerThan (version : Int) (eventId : String) : Bool :=
  version < o.sourceVersion || (o.sourceVersion = version && eventId < o.eventId)

def inserted (u : Unicode) : ArchiveMessageRow where
  archiveMessageId := o.archiveMessageId
  archiveId := o.archiveId
  sourceEventSeq := none
  sourceEventKind := o.kind.asStr
  direction := "inbound"
  senderId := o.senderId
  senderName := o.senderName
  body := o.storedBody
  topicKeywords := extractTopicKeywords u o.storedBody 5
  occurredAt := o.occurredAt
  sourceMessageId := some o.sourceMessageId
  createdAt := o.recordedAt
  deliveryStatus := "delivered"
  replyToMessageId := o.replyToMessageId
  deletedAt := o.deletedAt
  sourceVersion := o.sourceVersion
  sourceRevision := o.eventId

def merged (u : Unicode) (r : ArchiveMessageRow) : ArchiveMessageRow :=
  { r with
    sourceEventKind := o.kind.asStr
    senderId := o.senderId.or r.senderId
    senderName := o.senderName.or r.senderName
    body := o.storedBody
    topicKeywords := extractTopicKeywords u o.storedBody 5
    occurredAt := o.occurredAt
    replyToMessageId := o.replyToMessageId.or r.replyToMessageId
    deletedAt := o.deletedAt
    sourceVersion := o.sourceVersion
    sourceRevision := o.eventId }

def reacted (actorId reaction : String) : ArchiveReactionRow where
  archiveId := o.archiveId
  sourceMessageId := o.sourceMessageId
  actorId := actorId
  reaction := reaction
  sourceVersion := o.sourceVersion
  sourceEventId := o.eventId
  active := o.kind = .reactionAdd
  updatedAt := o.recordedAt

def rereacted (r : ArchiveReactionRow) : ArchiveReactionRow :=
  { r with
    sourceVersion := o.sourceVersion
    sourceEventId := o.eventId
    active := o.kind = .reactionAdd
    updatedAt := o.recordedAt }

end ArchiveOperation

namespace MessageArchive

def upsertReaction (o : ArchiveOperation) (actorId reaction : String) (s : MessageArchive) : MessageArchive :=
  { s with
    reactions := s.reactions.upsert (o.reacted actorId reaction) trivial
      { takes := fun r => o.newerThan r.sourceVersion r.sourceEventId
        set := o.rereacted
        key_set := fun _ => rfl
        keeps_ok := fun _ _ _ => trivial } }

def upsertMessage (u : Unicode) (o : ArchiveOperation) (s : MessageArchive) : Except ArchiveError MessageArchive :=
  match s.addressed o.archiveId o.sourceMessageId with
  | none => s.insertMessage (o.inserted u)
  | some r => if o.newerThan r.sourceVersion r.sourceRevision then s.updateMessage (o.merged u r) else .ok s

def applyTx (u : Unicode) (o : ArchiveOperation) (s : MessageArchive) :
    Except ArchiveError (ArchiveOperationResult × MessageArchive) :=
  if (s.revisions.row (o.archiveId, o.eventId)).isSome then .ok (⟨false, false⟩, s)
  else if !s.conversations.contains o.archiveId then .error .sqlite
  else
    let s := { s with revisions := s.revisions.insertOrIgnore o.revision trivial }
    if o.kind.reacts then
      match o.actorId, o.reaction with
      | some actorId, some reaction => .ok (⟨true, false⟩, s.upsertReaction o actorId reaction)
      | _, _ => .error .sqlite
    else
      let newer := (s.addressed o.archiveId o.sourceMessageId).all fun r => o.newerThan r.sourceVersion r.sourceRevision
      if !newer then .ok (⟨true, false⟩, s)
      else
        match s.upsertMessage u o with
        | .ok s' => .ok (⟨true, true⟩, s')
        | .error e => .error e

def applyOperation (u : Unicode) (o : ArchiveOperation) (s : MessageArchive) :
    Except ArchiveError ArchiveOperationResult × MessageArchive :=
  match o.missing u with
  | some msg => (.error (.invariant msg), s)
  | none => transact (applyTx u o) s

/-- `active_reactions`, as pairs of an actor and a reaction. -/
def activeReactions (s : MessageArchive) (archiveId sourceMessageId : String) : List (String × String) :=
  orderBy (fun p => toLex p) ((s.reactions.rows.filter fun r =>
    r.archiveId == archiveId && r.sourceMessageId == sourceMessageId && r.active).map fun r => (r.actorId, r.reaction))

end MessageArchive

end Execlaw
