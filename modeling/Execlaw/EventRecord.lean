import Execlaw.EventHmac
/-!
# EventRecord — event kinds, records and payload envelopes (`core/src/events.rs`)

The wire form of an event kind is a string column; `EventKind.parse` reads it and sends everything it does not know to
`other`.  A payload is a MessagePack body behind a versioned envelope; MessagePack itself (`rmp_serde`) is the parameter
`Codec`.
-/
namespace Execlaw

/-- The variants of `DbError` the event log and the outbox return. -/
inductive DbError
  | sqlite (msg : String)
  | config (msg : String)
  | invariant (msg : String)
  | serde (msg : String)
  | tamperDetected (msg : String)
deriving DecidableEq

def DbError.display : DbError → String
  | .sqlite m => s!"sqlite error: {m}"
  | .config m => s!"database configuration error: {m}"
  | .invariant m => s!"event log invariant violated: {m}"
  | .serde m => s!"serialization error: {m}"
  | .tamperDetected m => s!"event log tamper detected: {m}"

inductive EventKind
  | userMsg | modelTurn | toolUse | toolResult | interrupt | resume
  | approval | transportReviewDecision | effectCommitted | wakeup | alertFired | alertRenotified
  | alertAcked | alertResolved | alertSnoozed | incidentOpened | incidentClosed | coldContactArrived
  | identityResolutionConflict | trustChanged | voiceSessionStarted | voiceSessionEnded | audioInChunk | vadSpeechStarted
  | vadSpeechEnded | sttPartial | sttFinal | turnUserEnded | llmToken | llmResponseFinal
  | llmCancelled | ttsFirstAudio | ttsAudioChunk | ttsEnded | interruptStarted | interruptRescinded
  | interruptConfirmed | researchProgressUpdated | cardOpened | cardProgressed | cardClosed | subagentStarted
  | subagentCompleted | skillCreated | skillVersionAdded | skillPromoted | skillArchived | skillInvoked
  | skillWriteRejected | other
deriving DecidableEq

namespace EventKind

def asStr : EventKind → String
  | .userMsg => "user_msg"
  | .modelTurn => "model_turn"
  | .toolUse => "tool_use"
  | .toolResult => "tool_result"
  | .interrupt => "interrupt"
  | .resume => "resume"
  | .approval => "approval"
  | .transportReviewDecision => "transport_review_decision"
  | .effectCommitted => "effect_committed"
  | .wakeup => "wakeup"
  | .alertFired => "alert_fired"
  | .alertRenotified => "alert_renotified"
  | .alertAcked => "alert_acked"
  | .alertResolved => "alert_resolved"
  | .alertSnoozed => "alert_snoozed"
  | .incidentOpened => "incident_opened"
  | .incidentClosed => "incident_closed"
  | .coldContactArrived => "cold_contact_arrived"
  | .identityResolutionConflict => "identity_resolution_conflict"
  | .trustChanged => "trust_changed"
  | .voiceSessionStarted => "voice.session_started"
  | .voiceSessionEnded => "voice.session_ended"
  | .audioInChunk => "audio.in_chunk"
  | .vadSpeechStarted => "vad.speech_started"
  | .vadSpeechEnded => "vad.speech_ended"
  | .sttPartial => "stt.partial"
  | .sttFinal => "stt.final"
  | .turnUserEnded => "turn.user_ended"
  | .llmToken => "llm.token"
  | .llmResponseFinal => "llm.response_final"
  | .llmCancelled => "llm.cancelled"
  | .ttsFirstAudio => "tts.first_audio"
  | .ttsAudioChunk => "tts.audio_chunk"
  | .ttsEnded => "tts.ended"
  | .interruptStarted => "interrupt.started"
  | .interruptRescinded => "interrupt.rescinded"
  | .interruptConfirmed => "interrupt.confirmed"
  | .researchProgressUpdated => "research_progress_updated"
  | .cardOpened => "card.opened"
  | .cardProgressed => "card.progressed"
  | .cardClosed => "card.closed"
  | .subagentStarted => "subagent.started"
  | .subagentCompleted => "subagent.completed"
  | .skillCreated => "skill.created"
  | .skillVersionAdded => "skill.version_added"
  | .skillPromoted => "skill.promoted"
  | .skillArchived => "skill.archived"
  | .skillInvoked => "skill.invoked"
  | .skillWriteRejected => "skill.write_rejected"
  | .other => "other"

def parse (s : String) : EventKind :=
  match s with
  | "user_msg" => .userMsg
  | "model_turn" => .modelTurn
  | "tool_use" => .toolUse
  | "tool_result" => .toolResult
  | "interrupt" => .interrupt
  | "resume" => .resume
  | "approval" => .approval
  | "transport_review_decision" => .transportReviewDecision
  | "effect_committed" => .effectCommitted
  | "wakeup" => .wakeup
  | "alert_fired" => .alertFired
  | "alert_renotified" => .alertRenotified
  | "alert_acked" => .alertAcked
  | "alert_resolved" => .alertResolved
  | "alert_snoozed" => .alertSnoozed
  | "incident_opened" => .incidentOpened
  | "incident_closed" => .incidentClosed
  | "cold_contact_arrived" => .coldContactArrived
  | "identity_resolution_conflict" => .identityResolutionConflict
  | "trust_changed" => .trustChanged
  | "voice.session_started" => .voiceSessionStarted
  | "voice.session_ended" => .voiceSessionEnded
  | "audio.in_chunk" => .audioInChunk
  | "vad.speech_started" => .vadSpeechStarted
  | "vad.speech_ended" => .vadSpeechEnded
  | "stt.partial" => .sttPartial
  | "stt.final" => .sttFinal
  | "turn.user_ended" => .turnUserEnded
  | "llm.token" => .llmToken
  | "llm.response_final" => .llmResponseFinal
  | "llm.cancelled" => .llmCancelled
  | "tts.first_audio" => .ttsFirstAudio
  | "tts.audio_chunk" => .ttsAudioChunk
  | "tts.ended" => .ttsEnded
  | "interrupt.started" => .interruptStarted
  | "interrupt.rescinded" => .interruptRescinded
  | "interrupt.confirmed" => .interruptConfirmed
  | "research_progress_updated" => .researchProgressUpdated
  | "card.opened" => .cardOpened
  | "card.progressed" => .cardProgressed
  | "card.closed" => .cardClosed
  | "subagent.started" => .subagentStarted
  | "subagent.completed" => .subagentCompleted
  | "skill.created" => .skillCreated
  | "skill.version_added" => .skillVersionAdded
  | "skill.promoted" => .skillPromoted
  | "skill.archived" => .skillArchived
  | "skill.invoked" => .skillInvoked
  | "skill.write_rejected" => .skillWriteRejected
  | _ => .other

theorem parse_asStr (k : EventKind) : parse k.asStr = k := by cases k <;> rfl

theorem asStr_parse {s : String} : parse s ≠ .other → (parse s).asStr = s := by
  unfold parse
  split <;> simp [asStr]

theorem kindClear_asStr (k : EventKind) : EventHmac.kindClear k.asStr := by cases k <;> decide

theorem count_zero_asStr (k : EventKind) : (Wire.utf8 k.asStr).count 0 = 0 := by cases k <;> decide

end EventKind

/-! ## Records -/

structure EventRecord where
  conversationId : String
  seq : Int
  kind : EventKind
  payload : List UInt8
  committedAt : Int
  actor : Option String
deriving DecidableEq

/-- An event the caller wants to append; `commitTurn` assigns its sequence. -/
structure PendingEvent where
  kind : EventKind
  payload : List UInt8
  actor : Option String

/-! ## Payload envelopes -/

/-- MessagePack on the two payloads `commitTurn` looks into: both directions may fail. -/
structure Codec where
  decodeToolUse : List UInt8 → Except String UInt32
  decodeToolResult : List UInt8 → Except String UInt32
  encodeToolResult : UInt32 → String → Except String (List UInt8)

def versionedPayloadMagic : List UInt8 := Wire.utf8 "EXECLAW-EVENT\x00"

def currentSchemaId (_kind : EventKind) : String := "execlaw.event_payload.v1"

def legacySchemaId (_kind : EventKind) : String := "execlaw.event_payload.legacy"

def encodeVersionedPayload (kind : EventKind) (body : Except String (List UInt8)) : Except DbError (List UInt8) :=
  match body with
  | .error e => .error (.serde s!"encoding event payload: {e}")
  | .ok body =>
    let schemaBytes := Wire.utf8 (currentSchemaId kind)
    if 65535 < schemaBytes.length then .error (.serde "event payload schema id is too long")
    else .ok (versionedPayloadMagic ++ (Wire.leBytes 2 schemaBytes.length ++ (schemaBytes ++ body)))

def decodeVersionedPayload (kind : EventKind) (payload : List UInt8) : Except DbError (String × List UInt8) :=
  if !versionedPayloadMagic.isPrefixOf payload then .ok (legacySchemaId kind, payload)
  else
    let header := versionedPayloadMagic.length
    if payload.length < header + 2 then .error (.serde "truncated event payload schema header")
    else
      let schemaLen := Wire.ofLeBytes ((payload.drop header).take 2)
      let bodyStart := header + 2 + schemaLen
      if payload.length < bodyStart then .error (.serde "truncated event payload schema id")
      else
        match String.fromUTF8? ⟨((payload.drop (header + 2)).take schemaLen).toArray⟩ with
        | none => .error (.serde "event payload schema id is not UTF-8")
        | some schema =>
          let expected := currentSchemaId kind
          if schema ≠ expected then
            let name := kind.asStr
            .error (.serde s!"unsupported required event payload schema '{schema}' for kind '{name}' (reader supports '{expected}')")
          else .ok (expected, payload.drop bodyStart)

def decodePayloadBytes {P : Type} (fromSlice : List UInt8 → Except String P) (kind : EventKind)
    (payload : List UInt8) : Except DbError P :=
  match decodeVersionedPayload kind payload with
  | .error e => .error e
  | .ok (_, body) =>
    match fromSlice body with
    | .error e => .error (.serde s!"decoding event payload: {e}")
    | .ok v => .ok v

end Execlaw
