import Execlaw.EventWrite
/-!
# ToolPairing — every tool use is committed with a result (`core/src/events.rs`)

`enforceToolPairing` copies the caller's batch and writes a cancellation behind each tool use whose ordinal no result of
the batch has.  A record carries no mark saying which of the two it is, so a paired batch is described through slots:
`given` for the caller's events, `cancelled` for the others.  The codec is only asked to read back the cancellation it
encodes (`Codec.Faithful`).
-/
namespace Execlaw

open Wire

variable {codec : Codec} {cid : String}

/-! ## Envelopes read back -/

def Codec.Faithful (codec : Codec) : Prop :=
  ∀ ordinal reason, ∃ body, codec.encodeToolResult ordinal reason = .ok body ∧ codec.decodeToolResult body = .ok ordinal

theorem fromUTF8_schema : String.fromUTF8? ⟨(utf8 "execlaw.event_payload.v1").toArray⟩ =
    some "execlaw.event_payload.v1" := by decide +kernel

def envelopeHeader : List UInt8 := versionedPayloadMagic ++ (leBytes 2 24 ++ utf8 "execlaw.event_payload.v1")

theorem encodeVersionedPayload_ok (kind : EventKind) (body : List UInt8) :
    encodeVersionedPayload kind (.ok body) = .ok (envelopeHeader ++ body) := by
  have hlen : (utf8 (currentSchemaId kind)).length = 24 := show (utf8 "execlaw.event_payload.v1").length = 24 by decide
  unfold encodeVersionedPayload
  simp only [hlen]
  rw [if_neg (by decide), envelopeHeader, List.append_assoc, List.append_assoc]
  rfl

theorem decodeVersionedPayload_envelope (kind : EventKind) (body : List UInt8) :
    decodeVersionedPayload kind (envelopeHeader ++ body) = .ok (currentSchemaId kind, body) := by
  have hmagic : versionedPayloadMagic.isPrefixOf (envelopeHeader ++ body) = true := by
    rw [List.isPrefixOf_iff_prefix, envelopeHeader, List.append_assoc]
    exact List.prefix_append _ _
  have hheader : envelopeHeader.length = versionedPayloadMagic.length + 2 + 24 := by decide +kernel
  have hlen : ((envelopeHeader ++ body).drop versionedPayloadMagic.length).take 2 = leBytes 2 24 := by
    rw [List.drop_append_of_le_length (by omega), List.take_append_of_le_length (by rw [List.length_drop]; omega)]
    decide +kernel
  have hschema : ((envelopeHeader ++ body).drop (versionedPayloadMagic.length + 2)).take 24 =
      utf8 "execlaw.event_payload.v1" := by
    rw [List.drop_append_of_le_length (by omega), List.take_append_of_le_length (by rw [List.length_drop]; omega)]
    decide +kernel
  unfold decodeVersionedPayload
  simp only [hmagic, hlen, Bool.not_true, Bool.false_eq_true, if_false, List.length_append, hheader]
  rw [if_neg (by omega), show ofLeBytes (leBytes 2 24) = 24 by decide, if_neg (by omega), hschema, fromUTF8_schema]
  simp only [currentSchemaId, ne_eq, not_true_eq_false, if_false]
  rw [← hheader, List.drop_left]

theorem decodePayloadBytes_envelope {P : Type} (fromSlice : List UInt8 → Except String P) (kind : EventKind)
    {body : List UInt8} {v : P} (h : fromSlice body = .ok v) :
    decodePayloadBytes fromSlice kind (envelopeHeader ++ body) = .ok v := by
  unfold decodePayloadBytes
  rw [decodeVersionedPayload_envelope]
  simp [h]

/-! ## Ordinals -/

def PendingEvent.useOrdinal (codec : Codec) (ev : PendingEvent) : Option UInt32 :=
  if ev.kind = .toolUse then (decodePayloadBytes codec.decodeToolUse ev.kind ev.payload).toOption else none

def PendingEvent.resultOrdinal (codec : Codec) (ev : PendingEvent) : Option UInt32 :=
  if ev.kind = .toolResult then (decodePayloadBytes codec.decodeToolResult ev.kind ev.payload).toOption else none

def PendingEvent.Decodes (codec : Codec) (ev : PendingEvent) : Prop :=
  (ev.kind = .toolUse → ∃ ordinal, decodePayloadBytes codec.decodeToolUse ev.kind ev.payload = .ok ordinal) ∧
    (ev.kind = .toolResult → ∃ ordinal, decodePayloadBytes codec.decodeToolResult ev.kind ev.payload = .ok ordinal)

def EventRecord.pending (ev : EventRecord) : PendingEvent := ⟨ev.kind, ev.payload, ev.actor⟩

variable {ev : PendingEvent}

theorem useOrdinal_ok {o : UInt32} (hk : ev.kind = .toolUse)
    (h : decodePayloadBytes codec.decodeToolUse ev.kind ev.payload = .ok o) : ev.useOrdinal codec = some o := by
  rw [PendingEvent.useOrdinal, if_pos hk, h]
  rfl

theorem useOrdinal_none (hk : ev.kind ≠ .toolUse) : ev.useOrdinal codec = none := if_neg hk

theorem resultOrdinal_ok {o : UInt32} (hk : ev.kind = .toolResult)
    (h : decodePayloadBytes codec.decodeToolResult ev.kind ev.payload = .ok o) : ev.resultOrdinal codec = some o := by
  rw [PendingEvent.resultOrdinal, if_pos hk, h]
  rfl

theorem resultOrdinal_none (hk : ev.kind ≠ .toolResult) : ev.resultOrdinal codec = none := if_neg hk

theorem mem_resultOrdinals : ∀ {events : List PendingEvent} {results : List UInt32},
    resultOrdinals codec events = .ok results →
    ∀ o, o ∈ results ↔ ∃ ev ∈ events, ev.resultOrdinal codec = some o
  | [], _, h, o => by cases h; simp
  | ev :: events, results, h, o => by
    rw [resultOrdinals] at h
    by_cases hk : ev.kind = .toolResult
    · rw [if_pos hk] at h
      cases hd : decodePayloadBytes codec.decodeToolResult ev.kind ev.payload with
      | error e => rw [hd] at h; cases h
      | ok ordinal =>
        rw [hd] at h
        obtain ⟨rest, hrest, h⟩ := bind_eq_ok.1 h
        cases h
        rw [List.mem_cons, mem_resultOrdinals hrest o]
        simp [resultOrdinal_ok hk hd, eq_comm]
    · rw [if_neg hk] at h
      rw [mem_resultOrdinals h o]
      simp [resultOrdinal_none hk]

theorem resultOrdinals_ok : ∀ {events : List PendingEvent}, (∀ ev ∈ events, ev.Decodes codec) →
    ∃ results, resultOrdinals codec events = .ok results
  | [], _ => ⟨[], rfl⟩
  | ev :: events, hd => by
    obtain ⟨hev, hd⟩ := List.forall_mem_cons.1 hd
    obtain ⟨rest, hrest⟩ := resultOrdinals_ok hd
    rw [resultOrdinals]
    by_cases hk : ev.kind = .toolResult
    · obtain ⟨o, ho⟩ := hev.2 hk
      rw [if_pos hk, ho]
      exact ⟨o :: rest, bind_eq_ok.2 ⟨rest, hrest, rfl⟩⟩
    · rw [if_neg hk]
      exact ⟨rest, hrest⟩

/-! ## Slots -/

inductive Slot
  | given (ev : PendingEvent)
  | cancelled (ordinal : UInt32) (payload : List UInt8)

namespace Slot

def event : Slot → PendingEvent
  | .given ev => ev
  | .cancelled _ payload => ⟨.toolResult, payload, some "system"⟩

def given? : Slot → Option PendingEvent
  | .given ev => some ev
  | .cancelled _ _ => none

end Slot

structure Weave (lacks : PendingEvent → UInt32 → Prop) (events : List PendingEvent) (slots : List Slot) : Prop where
  given : slots.filterMap Slot.given? = events
  first : ∀ o payload, slots[0]? ≠ some (.cancelled o payload)
  behind : ∀ i o, (∃ payload, slots[i + 1]? = some (.cancelled o payload)) ↔
    ∃ ev, slots[i]? = some (.given ev) ∧ lacks ev o

variable {lacks : PendingEvent → UInt32 → Prop} {events : List PendingEvent} {slots : List Slot} {ev : PendingEvent}

theorem Weave.nil : Weave lacks [] [] where
  given := rfl
  first := by simp
  behind := by simp

theorem Weave.cons (hev : ∀ o, ¬ lacks ev o) (hw : Weave lacks events slots) :
    Weave lacks (ev :: events) (.given ev :: slots) where
  given := by simp [Slot.given?, hw.given]
  first := by simp
  behind i o := by
    cases i with
    | zero =>
      refine ⟨fun ⟨payload, h⟩ => absurd h (hw.first o payload), fun ⟨e, he, hl⟩ => ?_⟩
      cases he
      exact absurd hl (hev o)
    | succ i => exact hw.behind i o

variable {payload : List UInt8}

theorem Weave.cons_cancelled {o : UInt32} (hev : ∀ o', lacks ev o' ↔ o' = o) (hw : Weave lacks events slots) :
    Weave lacks (ev :: events) (.given ev :: .cancelled o payload :: slots) where
  given := by rw [List.filterMap_cons_some (by rfl), List.filterMap_cons_none (by rfl), hw.given]
  first := by simp
  behind i o' := by
    match i with
    | 0 => simp [hev, eq_comm]
    | 1 => simp [hw.first]
    | i + 2 => exact hw.behind i o'

theorem Weave.answered (hw : Weave lacks events slots) (hall : ∀ ev ∈ events, ∀ o, ¬ lacks ev o) :
    slots.map Slot.event = events := by
  have hgiven : ∀ s ∈ slots, s.given? = some s.event := by
    intro s hs
    obtain ⟨i, hi⟩ := List.mem_iff_getElem?.1 hs
    cases s with
    | given ev => rfl
    | cancelled o payload =>
      cases i with
      | zero => exact absurd hi (hw.first o payload)
      | succ i =>
        obtain ⟨e, he, hl⟩ := (hw.behind i o).1 ⟨payload, hi⟩
        refine absurd hl (hall e ?_ o)
        rw [← hw.given]
        exact List.mem_filterMap.2 ⟨_, List.mem_of_getElem? he, rfl⟩
  rw [← hw.given, ← List.filterMap_eq_map]
  exact (List.filterMap_congr hgiven).symm

theorem Weave.mem_given (hw : Weave lacks events slots) : .given ev ∈ slots ↔ ev ∈ events := by
  rw [← hw.given, List.mem_filterMap]
  constructor
  · exact fun h => ⟨_, h, rfl⟩
  · rintro ⟨s, hs, h⟩
    cases s with
    | given e => cases h; exact hs
    | cancelled o payload => cases h

theorem Weave.mem_cancelled (hw : Weave lacks events slots) {o : UInt32} :
    (∃ payload, .cancelled o payload ∈ slots) ↔ ∃ ev ∈ events, lacks ev o := by
  constructor
  · rintro ⟨payload, h⟩
    obtain ⟨i, hi⟩ := List.mem_iff_getElem?.1 h
    cases i with
    | zero => exact absurd hi (hw.first o payload)
    | succ i =>
      obtain ⟨ev, hev, hl⟩ := (hw.behind i o).1 ⟨payload, hi⟩
      exact ⟨ev, hw.mem_given.1 (List.mem_of_getElem? hev), hl⟩
  · rintro ⟨ev, hev, hl⟩
    obtain ⟨i, hi⟩ := List.mem_iff_getElem?.1 (hw.mem_given.2 hev)
    obtain ⟨payload, h⟩ := (hw.behind i o).2 ⟨ev, hi, hl⟩
    exact ⟨payload, List.mem_of_getElem? h⟩

/-! ## The second pass -/

def Lacks (codec : Codec) (results : List UInt32) (ev : PendingEvent) (ordinal : UInt32) : Prop :=
  ev.useOrdinal codec = some ordinal ∧ ordinal ∉ results

def cancelReason (ordinal : UInt32) : String := s!"cancelled: no tool_result in same commit for ordinal {ordinal}"

def Cancels (codec : Codec) (ordinal : UInt32) (payload : List UInt8) : Prop :=
  ∃ body, codec.encodeToolResult ordinal (cancelReason ordinal) = .ok body ∧ payload = envelopeHeader ++ body

theorem syntheticResult_eq (cid : String) (seq : Int) (o : UInt32) (now : Int) :
    syntheticResult codec cid seq o now =
      match encodeVersionedPayload .toolResult (codec.encodeToolResult o (cancelReason o)) with
      | .error e => .error (.serde ("encoding synthetic tool_result: " ++ e.display))
      | .ok payload => .ok ⟨cid, seq, .toolResult, payload, now, some "system"⟩ := rfl

theorem syntheticResult_ok {seq now : Int} {o : UInt32} {record : EventRecord}
    (h : syntheticResult codec cid seq o now = .ok record) : ∃ payload, Cancels codec o payload ∧
      record = ⟨cid, seq, .toolResult, payload, now, some "system"⟩ := by
  rw [syntheticResult_eq] at h
  cases henc : codec.encodeToolResult o (cancelReason o) with
  | error e => rw [henc] at h; cases h
  | ok body =>
    rw [henc, encodeVersionedPayload_ok] at h
    cases h
    exact ⟨_, ⟨body, henc, rfl⟩, rfl⟩

theorem syntheticResult_succeeds (hcodec : codec.Faithful) (seq now : Int) (o : UInt32) :
    ∃ record, syntheticResult codec cid seq o now = .ok record := by
  obtain ⟨body, hbody, -⟩ := hcodec o (cancelReason o)
  rw [syntheticResult_eq, hbody, encodeVersionedPayload_ok]
  exact ⟨_, rfl⟩

def stamp (cid : String) (now n : Int) (ev : PendingEvent) : EventRecord :=
  ⟨cid, n, ev.kind, ev.payload, now, ev.actor⟩

variable {out : List EventRecord}

/-- **One turn of the copying loop**: the event is copied, alone or with its cancellation behind it. -/
theorem pairEvents_cons {results : List UInt32} {now n : Int}
    (h : pairEvents codec cid results now (ev :: events) n = .ok out) :
    (∃ rest, (∀ o, ¬ Lacks codec results ev o) ∧ pairEvents codec cid results now events (n + 1) = .ok rest ∧
      out = stamp cid now n ev :: rest) ∨ ∃ o synthetic rest, (∀ o', Lacks codec results ev o' ↔ o' = o) ∧
      syntheticResult codec cid (n + 1) o now = .ok synthetic ∧
      pairEvents codec cid results now events (n + 2) = .ok rest ∧ out = stamp cid now n ev :: synthetic :: rest := by
  rw [pairEvents] at h
  by_cases hk : ev.kind = .toolUse
  · rw [if_pos hk] at h
    cases hd : decodePayloadBytes codec.decodeToolUse ev.kind ev.payload with
    | error e => rw [hd] at h; cases h
    | ok o =>
      rw [hd] at h
      have huse := useOrdinal_ok hk hd
      by_cases hc : o ∈ results
      · simp only [List.contains_iff_mem, hc, if_true] at h
        obtain ⟨rest, hrest, h⟩ := bind_eq_ok.1 h
        cases h
        refine .inl ⟨rest, fun o' hl => hl.2 ?_, hrest, rfl⟩
        rwa [← Option.mem_unique huse hl.1]
      · simp only [List.contains_iff_mem, hc, if_false] at h
        obtain ⟨synthetic, hsyn, h⟩ := bind_eq_ok.1 h
        obtain ⟨rest, hrest, h⟩ := bind_eq_ok.1 h
        cases h
        refine .inr ⟨o, synthetic, rest, fun o' => ⟨fun hl => ?_, ?_⟩, hsyn, hrest, rfl⟩
        · exact (Option.mem_unique huse hl.1).symm
        · rintro rfl
          exact ⟨huse, hc⟩
  · rw [if_neg hk] at h
    obtain ⟨rest, hrest, h⟩ := bind_eq_ok.1 h
    cases h
    refine .inl ⟨rest, fun o hl => ?_, hrest, rfl⟩
    rw [Lacks, useOrdinal_none hk] at hl
    cases hl.1

theorem pairEvents_ok (hcodec : codec.Faithful) (results : List UInt32) (now : Int) : ∀ {events : List PendingEvent},
    (∀ ev ∈ events, ev.Decodes codec) → ∀ n, ∃ out, pairEvents codec cid results now events n = .ok out
  | [], _, _ => ⟨[], rfl⟩
  | ev :: events, hd, n => by
    obtain ⟨hev, hd⟩ := List.forall_mem_cons.1 hd
    obtain ⟨rest₁, h₁⟩ := pairEvents_ok hcodec results now hd (n + 1)
    rw [pairEvents]
    by_cases hk : ev.kind = .toolUse
    · obtain ⟨o, ho⟩ := hev.1 hk
      obtain ⟨synthetic, hsyn⟩ := @syntheticResult_succeeds codec cid hcodec (n + 1) now o
      obtain ⟨rest₂, h₂⟩ := pairEvents_ok hcodec results now hd (n + 2)
      rw [if_pos hk, ho]
      by_cases hc : results.contains o = true
      · simp only [hc, if_true]
        exact ⟨_, bind_eq_ok.2 ⟨rest₁, h₁, rfl⟩⟩
      · simp only [hc]
        exact ⟨_, bind_eq_ok.2 ⟨synthetic, hsyn, bind_eq_ok.2 ⟨rest₂, h₂, rfl⟩⟩⟩
    · rw [if_neg hk]
      exact ⟨_, bind_eq_ok.2 ⟨rest₁, h₁, rfl⟩⟩

theorem pairEvents_weave {results : List UInt32} {now : Int} : ∀ {events : List PendingEvent} {n : Int}
    {out : List EventRecord}, pairEvents codec cid results now events n = .ok out →
    (∀ ev ∈ out, ev.committedAt = now) ∧ ∃ slots, out.map EventRecord.pending = slots.map Slot.event ∧
      Weave (Lacks codec results) events slots ∧ ∀ o payload, .cancelled o payload ∈ slots → Cancels codec o payload
  | [], n, out, h => by
    cases h
    exact ⟨by simp, [], rfl, Weave.nil, by simp⟩
  | ev :: events, n, out, h => by
    rcases pairEvents_cons h with ⟨rest, hl, hrest, rfl⟩ | ⟨o, synthetic, rest, hl, hsyn, hrest, rfl⟩
    · obtain ⟨hnow, slots, hmap, hw, hc⟩ := pairEvents_weave hrest
      exact ⟨List.forall_mem_cons.2 ⟨rfl, hnow⟩, .given ev :: slots, by simp [hmap, stamp, EventRecord.pending, Slot.event],
        hw.cons hl, fun o payload hm => hc o payload (by simpa using hm)⟩
    · obtain ⟨hnow, slots, hmap, hw, hc⟩ := pairEvents_weave hrest
      obtain ⟨payload, hp, rfl⟩ := syntheticResult_ok hsyn
      refine ⟨List.forall_mem_cons.2 ⟨rfl, List.forall_mem_cons.2 ⟨rfl, hnow⟩⟩, .given ev :: .cancelled o payload :: slots,
        by simp [hmap, stamp, EventRecord.pending, Slot.event], hw.cons_cancelled hl, fun o' payload' hm => ?_⟩
      simp only [List.mem_cons, reduceCtorEq, false_or, Slot.cancelled.injEq] at hm
      rcases hm with ⟨rfl, rfl⟩ | hm
      · exact hp
      · exact hc o' payload' hm

/-! ## A paired batch -/

def Unanswered (codec : Codec) (events : List PendingEvent) (ev : PendingEvent) (ordinal : UInt32) : Prop :=
  ev.useOrdinal codec = some ordinal ∧ ∀ r ∈ events, r.resultOrdinal codec ≠ some ordinal

structure Woven (codec : Codec) (events : List PendingEvent) (out : List EventRecord) (slots : List Slot) : Prop where
  reads : out.map EventRecord.pending = slots.map Slot.event
  weave : Weave (Unanswered codec events) events slots
  cancels : ∀ o payload, .cancelled o payload ∈ slots → Cancels codec o payload

theorem enforceToolPairing_woven {base now : Int} (h : enforceToolPairing codec cid base events now = .ok out) :
    (∀ ev ∈ out, ev.committedAt = now) ∧ ∃ slots, Woven codec events out slots := by
  obtain ⟨results, hresults, h⟩ := bind_eq_ok.1 h
  obtain ⟨hnow, slots, hmap, hw, hc⟩ := pairEvents_weave h
  have hlacks : Lacks codec results = Unanswered codec events := by
    funext ev o
    simp [Lacks, Unanswered, mem_resultOrdinals hresults o]
  rw [hlacks] at hw
  exact ⟨hnow, slots, hmap, hw, hc⟩

variable {out : List EventRecord} {o : UInt32}

theorem Woven.mem_pending (hw : Woven codec events out slots) {e : PendingEvent} :
    e ∈ out.map EventRecord.pending ↔ e ∈ events ∨ ∃ o payload, .cancelled o payload ∈ slots ∧
      e = (Slot.cancelled o payload).event := by
  rw [hw.reads, List.mem_map]
  constructor
  · rintro ⟨s, hs, rfl⟩
    cases s with
    | given ev => exact .inl (hw.weave.mem_given.1 hs)
    | cancelled o payload => exact .inr ⟨o, payload, hs, rfl⟩
  · rintro (h | ⟨o, payload, hs, rfl⟩)
    · exact ⟨.given e, hw.weave.mem_given.2 h, rfl⟩
    · exact ⟨_, hs, rfl⟩

theorem useOrdinal_cancelled (payload : List UInt8) : (Slot.cancelled o payload).event.useOrdinal codec = none :=
  useOrdinal_none (by simp [Slot.event])

theorem decode_cancellation (hcodec : codec.Faithful) (hp : Cancels codec o payload) :
    decodePayloadBytes codec.decodeToolResult .toolResult payload = .ok o := by
  obtain ⟨body, hbody, rfl⟩ := hp
  obtain ⟨body', hbody', hread⟩ := hcodec o (cancelReason o)
  cases hbody.symm.trans hbody'
  exact decodePayloadBytes_envelope _ _ hread

theorem resultOrdinal_cancelled (hcodec : codec.Faithful) (hp : Cancels codec o payload) :
    (Slot.cancelled o payload).event.resultOrdinal codec = some o := by
  unfold PendingEvent.resultOrdinal Slot.event
  rw [if_pos rfl, decode_cancellation hcodec hp]
  rfl

theorem decodes_cancelled (hcodec : codec.Faithful) (hp : Cancels codec o payload) :
    (Slot.cancelled o payload).event.Decodes codec := by
  unfold PendingEvent.Decodes Slot.event
  exact ⟨fun h => by simp at h, fun _ => ⟨o, decode_cancellation hcodec hp⟩⟩

theorem Woven.uses (hw : Woven codec events out slots) : (∃ e ∈ out.map EventRecord.pending,
    e.useOrdinal codec = some o) ↔ ∃ e ∈ events, e.useOrdinal codec = some o := by
  constructor
  · rintro ⟨e, he, ho⟩
    rcases hw.mem_pending.1 he with he | ⟨o', payload, -, rfl⟩
    · exact ⟨e, he, ho⟩
    · rw [useOrdinal_cancelled] at ho
      cases ho
  · rintro ⟨e, he, ho⟩
    exact ⟨e, hw.mem_pending.2 (.inl he), ho⟩

theorem Woven.results (hcodec : codec.Faithful) (hw : Woven codec events out slots) :
    (∃ e ∈ out.map EventRecord.pending, e.resultOrdinal codec = some o) ↔
      (∃ e ∈ events, e.resultOrdinal codec = some o) ∨ ∃ e ∈ events, Unanswered codec events e o := by
  constructor
  · rintro ⟨e, he, ho⟩
    rcases hw.mem_pending.1 he with he | ⟨o', payload, hs, rfl⟩
    · exact .inl ⟨e, he, ho⟩
    · rw [resultOrdinal_cancelled hcodec (hw.cancels o' payload hs)] at ho
      cases ho
      exact .inr (hw.weave.mem_cancelled.1 ⟨payload, hs⟩)
  · rintro (⟨e, he, ho⟩ | hlack)
    · exact ⟨e, hw.mem_pending.2 (.inl he), ho⟩
    · obtain ⟨payload, hs⟩ := hw.weave.mem_cancelled.2 hlack
      exact ⟨_, hw.mem_pending.2 (.inr ⟨o, payload, hs, rfl⟩),
        resultOrdinal_cancelled hcodec (hw.cancels o payload hs)⟩

theorem Woven.answered (hcodec : codec.Faithful) (hw : Woven codec events out slots)
    (huse : ∃ e ∈ out.map EventRecord.pending, e.useOrdinal codec = some o) :
    ∃ e ∈ out.map EventRecord.pending, e.resultOrdinal codec = some o := by
  obtain ⟨e, he, ho⟩ := hw.uses.1 huse
  by_cases hres : ∃ r ∈ events, r.resultOrdinal codec = some o
  · exact (hw.results hcodec).2 (.inl hres)
  · exact (hw.results hcodec).2 (.inr ⟨e, he, ho, fun r hr hro => hres ⟨r, hr, hro⟩⟩)

theorem Woven.decodes (hcodec : codec.Faithful) (hw : Woven codec events out slots)
    (hd : ∀ ev ∈ events, ev.Decodes codec) : ∀ e ∈ out.map EventRecord.pending, e.Decodes codec := by
  intro e he
  rcases hw.mem_pending.1 he with he | ⟨o, payload, hs, rfl⟩
  · exact hd e he
  · exact decodes_cancelled hcodec (hw.cancels o payload hs)

/-! ## Counting in an `i64` -/

/-- Where `EventSeq::next` takes a count: `self.0 + 1` on an `i64`, which wraps behind `i64::MAX`. -/
def wrapSeq (ev : EventRecord) : EventRecord := { ev with seq := ev.seq.bmod (2 ^ 64) }

theorem wrapSeq_of_i64 {ev : EventRecord} (h : I64 ev.seq) : wrapSeq ev = ev := by
  have hseq : ev.seq.bmod (2 ^ 64) = ev.seq :=
    Int.bmod_eq_of_le (by have := h.1; omega) (by have := h.2; omega)
  rw [wrapSeq, hseq]

/-- `enforce_tool_pairing`, whose records are numbered by `i64` additions. -/
def enforceToolPairing64 (codec : Codec) (cid : String) (base : Int) (events : List PendingEvent) (now : Int) :
    Except DbError (List EventRecord) :=
  (enforceToolPairing codec cid base events now).map (List.map wrapSeq)

theorem map_pending_wrapSeq (out : List EventRecord) :
    (out.map wrapSeq).map EventRecord.pending = out.map EventRecord.pending := by
  rw [List.map_map]
  rfl

/-- What `enforceToolPairing64` makes of a batch. -/
structure Paired (codec : Codec) (cid : String) (base now : Int) (events : List PendingEvent)
    (out : List EventRecord) : Prop where
  numbered : Numbered (base + 1) out
  stamped : ∀ ev ∈ out, ev.conversationId = cid ∧ ev.committedAt = now
  woven : ∃ slots, Woven codec events out slots
  answered : ∀ o, (∃ e ∈ out.map EventRecord.pending, e.useOrdinal codec = some o) →
    ∃ e ∈ out.map EventRecord.pending, e.resultOrdinal codec = some o
  again : ∀ base' now', ∃ out', enforceToolPairing64 codec cid base' (out.map EventRecord.pending) now' = .ok out' ∧
    out'.map EventRecord.pending = out.map EventRecord.pending

/-- **Pairing enforcement**: a batch whose tool payloads decode, and whose records are counted below `i64::MAX`, is
numbered from behind the base without a gap, keeps its events in order, gets one cancellation directly behind each
unanswered tool use and none elsewhere, and a second pass adds nothing. -/
theorem enforceToolPairing64_paired (hcodec : codec.Faithful) (hdecodes : ∀ ev ∈ events, ev.Decodes codec) {base : Int}
    (hbase : I64 base) (now : Int) : ∃ out, enforceToolPairing64 codec cid base events now = .ok out ∧
      (base + out.length < 2 ^ 63 - 1 → Paired codec cid base now events out) := by
  have hok : ∀ {evs : List PendingEvent}, (∀ ev ∈ evs, ev.Decodes codec) → ∀ base now,
      ∃ out, enforceToolPairing codec cid base evs now = .ok out := by
    intro evs hd base now
    obtain ⟨results, hresults⟩ := resultOrdinals_ok hd
    obtain ⟨out, hout⟩ := pairEvents_ok hcodec results now hd (base + 1)
    exact ⟨out, bind_eq_ok.2 ⟨results, hresults, hout⟩⟩
  obtain ⟨out, hout⟩ := hok hdecodes base now
  obtain ⟨hcid, hnum⟩ := enforceToolPairing_spec hout
  obtain ⟨hnow, slots, hw⟩ := enforceToolPairing_woven hout
  refine ⟨out.map wrapSeq, by rw [enforceToolPairing64, hout]; rfl, fun hroom => ?_⟩
  rw [List.length_map] at hroom
  have hsame : out.map wrapSeq = out := by
    refine (List.map_congr_left fun ev hev => wrapSeq_of_i64 ?_).trans (List.map_id out)
    obtain ⟨hge, hlt⟩ := mem_numbered hnum ev hev
    exact ⟨by have := hbase.1; omega, by omega⟩
  rw [hsame]
  refine ⟨hnum, fun ev hev => ⟨hcid ev hev, hnow ev hev⟩, ⟨slots, hw⟩,
    fun o => hw.answered hcodec, fun base' now' => ?_⟩
  obtain ⟨out', hout'⟩ := hok (hw.decodes hcodec hdecodes) base' now'
  obtain ⟨-, slots', hw'⟩ := enforceToolPairing_woven hout'
  refine ⟨out'.map wrapSeq, by rw [enforceToolPairing64, hout']; rfl, ?_⟩
  rw [map_pending_wrapSeq]
  refine hw'.reads.trans (hw'.weave.answered fun e he o hl => ?_)
  obtain ⟨r, hr, hro⟩ := hw.answered hcodec ⟨e, he, hl.1⟩
  exact hl.2 r hr hro

/-- Behind `i64::MAX` the count goes on at the other end. -/
theorem enforceToolPairing64_wraps :
    enforceToolPairing64 ⟨fun _ => .error "", fun _ => .error "", fun _ _ => .ok []⟩ "c" (2 ^ 63 - 1) [⟨.userMsg, [], none⟩]
        9 = .ok [⟨"c", -(2 ^ 63), .userMsg, [], 9, none⟩] ∧
      ¬ Numbered (2 ^ 63 - 1 + 1) [⟨"c", -(2 ^ 63), .userMsg, [], 9, none⟩] :=
  ⟨rfl, fun h => absurd h.1 (by decide)⟩

/-- A named MessagePack map that begins with the key `ordinal` and a five-byte number. -/
def namedOrdinal (fields : UInt8) (ordinal : UInt32) : List UInt8 :=
  (fields :: 0xa7 :: utf8 "ordinal" ++ [0xce]) ++ (leBytes 4 ordinal.toNat).reverse

def readOrdinal (fields : UInt8) (body : List UInt8) : Except String UInt32 :=
  if (fields :: 0xa7 :: utf8 "ordinal" ++ [0xce]).isPrefixOf body ∧ 14 ≤ body.length then
    .ok (UInt32.ofNat (ofLeBytes ((body.drop 10).take 4).reverse))
  else .error "missing field"

/-- `rmp_serde` on ordinals from 65536 on: `{ordinal, tool_name, args_json}` and `{ordinal, outcome: {Err: reason}}`. -/
def namedCodec : Codec where
  decodeToolUse := readOrdinal 0x83
  decodeToolResult := readOrdinal 0x82
  encodeToolResult ordinal reason :=
    .ok (namedOrdinal 0x82 ordinal ++ (0xa7 :: utf8 "outcome" ++ [0x81, 0xa3] ++ utf8 "Err" ++
      [0xd9, UInt8.ofNat (utf8 reason).length] ++ utf8 reason))

theorem readOrdinal_named (fields : UInt8) (o : UInt32) (rest : List UInt8) :
    readOrdinal fields (namedOrdinal fields o ++ rest) = .ok o := by
  have hkey : (fields :: 0xa7 :: utf8 "ordinal" ++ [0xce]).length = 10 := by
    rw [List.length_append, List.length_cons, List.length_cons, show (utf8 "ordinal").length = 7 by decide]
    rfl
  have hnum : ((namedOrdinal fields o ++ rest).drop 10).take 4 = (leBytes 4 o.toNat).reverse := by
    rw [namedOrdinal, List.append_assoc, ← hkey, List.drop_left]
    exact List.take_left' (by simp)
  have hlt : o.toNat < 256 ^ 4 := Nat.lt_of_lt_of_eq o.toNat_lt (by decide)
  unfold readOrdinal
  rw [if_pos, hnum, List.reverse_reverse, ofLeBytes_leBytes, Nat.mod_eq_of_lt hlt]
  · simp
  · refine ⟨List.isPrefixOf_iff_prefix.2 ?_, ?_⟩
    · rw [namedOrdinal, List.append_assoc]
      exact List.prefix_append _ _
    · rw [List.length_append, namedOrdinal, List.length_append, hkey, List.length_reverse, length_leBytes]
      omega

theorem namedCodec_faithful : namedCodec.Faithful := fun o _ => ⟨_, rfl, readOrdinal_named 0x82 o _⟩

def sampleUse (ordinal : UInt32) : PendingEvent := ⟨.toolUse, envelopeHeader ++ namedOrdinal 0x83 ordinal, some "agent"⟩

def sampleResult (ordinal : UInt32) : PendingEvent :=
  ⟨.toolResult, envelopeHeader ++ namedOrdinal 0x82 ordinal, some "agent"⟩

theorem sampleUse_decodes (o : UInt32) : (sampleUse o).Decodes namedCodec := by
  refine ⟨fun _ => ⟨o, decodePayloadBytes_envelope _ _ ?_⟩, fun h => by simp [sampleUse] at h⟩
  have := readOrdinal_named 0x83 o []
  rwa [List.append_nil] at this

theorem sampleResult_decodes (o : UInt32) : (sampleResult o).Decodes namedCodec := by
  refine ⟨fun h => by simp [sampleResult] at h, fun _ => ⟨o, decodePayloadBytes_envelope _ _ ?_⟩⟩
  have := readOrdinal_named 0x82 o []
  rwa [List.append_nil] at this

def sampleBatch : List PendingEvent := [sampleResult 65537, sampleUse 65536, sampleUse 65537]

/-- A result ahead of its use, and a use without one. -/
theorem enforceToolPairing64_paired_sample : ∃ out, enforceToolPairing64 namedCodec "c" 4 sampleBatch 9 = .ok out ∧
    out.map (fun e => (e.seq, e.kind, e.actor)) = [(5, .toolResult, some "agent"), (6, .toolUse, some "agent"),
      (7, .toolResult, some "system"), (8, .toolUse, some "agent")] ∧ Paired namedCodec "c" 4 9 sampleBatch out := by
  have hdecodes : ∀ ev ∈ sampleBatch, ev.Decodes namedCodec := by
    simp [sampleBatch, sampleUse_decodes, sampleResult_decodes]
  have hrun : (enforceToolPairing64 namedCodec "c" 4 sampleBatch 9).toOption.map
      (List.map (fun e => (e.seq, e.kind, e.actor))) = some [(5, .toolResult, some "agent"),
        (6, .toolUse, some "agent"), (7, .toolResult, some "system"), (8, .toolUse, some "agent")] := by
    decide +kernel
  have hbase : I64 4 := by decide
  obtain ⟨out, hout, hpaired⟩ := @enforceToolPairing64_paired _ "c" _ namedCodec_faithful hdecodes 4 hbase 9
  rw [hout] at hrun
  have hmap := Option.some.inj hrun
  have hlen : out.length = 4 := by simpa using congrArg List.length hmap
  exact ⟨out, hout, hmap, hpaired (by rw [hlen]; decide)⟩

end Execlaw
