import Execlaw.OutboundAuthority
/-!
# OutboundIsolation — the labels of sends across conversations

A history is a list of events, each with all that comes from outside; the conversations differ in the sends.  Labels are
stored under a source id and a text, without the conversation: so a send is on its own as long as no other conversation
sends its text under its source id (`loaded_label_own`).
-/
namespace Execlaw

variable (host : OutboundHost)

/-! ## Histories -/

inductive OutboundEvent
  | enqueue (req : SendRequest) (now : Int)
  | declassify (subject : InformationSubject) (actorId destination scope : String) (now : Int)
  | observe (subject : InformationSubject) (label : InformationLabel) (actorId : String) (now : Int)
  | transform (output : InformationSubject) (sources : List InformationSubject) (operation actorId : String) (now : Int)
  /-- Rows are delivered, parked or deleted. -/
  | settle (change : List OutboxRec → List OutboxRec)
  /-- All but labels and outbox becomes what it is in `w`. -/
  | become (w : OutboundState)

def OutboundEvent.step (s : OutboundState) : OutboundEvent → OutboundState
  | .enqueue req now => (req.enqueue host now s).2
  | .declassify subject actorId destination scope now =>
    match s.labels.declassify subject actorId destination scope now with
    | .error _ => s
    | .ok (_, labels) => { s with labels }
  | .observe subject label actorId now =>
    if subject.kind = "transport_effect" then s
    else
      match s.labels.observe subject label actorId now with
      | .error _ => s
      | .ok labels => { s with labels }
  | .transform output sources operation actorId now =>
    if ∃ x ∈ output :: sources, x.kind = "transport_effect" then s
    else
      match s.labels.transform output sources operation actorId now with
      | .error _ => s
      | .ok (_, labels) => { s with labels }
  | .settle change => { s with db := { s.db with outbox := change s.db.outbox } }
  | .become w => { w with
      labels := s.labels
      db := { w.db with
        outbox := s.db.outbox
        outboxSeq := s.db.outboxSeq
        deliveryEvents := s.db.deliveryEvents } }

def after (s : OutboundState) (history : List OutboundEvent) : OutboundState :=
  history.foldl (OutboundEvent.step host) s

def SendRequest.conversationId : SendRequest → String
  | .text cid .. | .agentText _ _ cid .. | .pluginText cid .. | .pluginAttachments cid .. | .taskAttachments cid .. => cid

def SendRequest.subject : SendRequest → InformationSubject
  | .text _ modelSeq _ _ message _ => transportInformationSubject host s!"event:{modelSeq}" message
  | .agentText _ _ _ _ _ message _ => transportInformationSubject host "agent_output" message
  | .pluginText _ turnSeq ordinal _ _ message _ => transportInformationSubject host s!"turn:{turnSeq}:{ordinal}" message
  | .pluginAttachments _ turnSeq ordinal _ _ message .. =>
    transportInformationSubject host s!"turn:{turnSeq}:{ordinal}" message
  | .taskAttachments _ _ _ _ _ message _ => transportInformationSubject host "task_attachment" message

namespace OutboundEvent

def foreign (cid : String) : OutboundEvent → Bool
  | enqueue req _ => req.conversationId ≠ cid
  | _ => false

def own (cid : String) (history : List OutboundEvent) : List OutboundEvent := history.filter fun ev => !ev.foreign cid

def Sends (subject : InformationSubject) : OutboundEvent → Prop
  | enqueue req _ => req.subject host = subject
  | _ => False

def Creates (s : OutboundState) (ev : OutboundEvent) (r : OutboxRec) : Prop :=
  r ∈ (ev.step host s).db.outbox ∧ r ∉ s.db.outbox

end OutboundEvent

def loadedLabel (s : OutboundState) (r : OutboxRec) : Except String (Option InformationLabel) :=
  match host.decode r.effectKind r.payload with
  | .error e => .error e
  | .ok (effect, label) => loadTransportInformationLabel host s.labels effect.text (some label)

def Outgoing.destination (o : Outgoing) : List Char := s!"transport:{o.effect.channel}:{o.effect.recipient}".toList

/-! ## Views -/

def OutboundState.view (p : InformationSubject → Bool) (s : OutboundState) : OutboundState :=
  { s with
    labels := s.labels.restrict p
    db := { s.db with outbox := [], outboxSeq := 0, deliveryEvents := [] } }

variable {host} {s s' : OutboundState} {o : Outgoing} {p : InformationSubject → Bool} {subject : InformationSubject}
  {label : InformationLabel} {labels : LabelHistory} {now : Int} {ev : OutboundEvent} {r : OutboxRec}

theorem SendRequest.outgoing_view (req : SendRequest) : req.outgoing host (s.view p) = req.outgoing host s := by
  cases req <;> rfl

variable {req : SendRequest}

theorem SendRequest.outgoing_spec (h : req.outgoing host s = .ok o) :
    o.conversationId = req.conversationId ∧ o.subject host = req.subject host := by
  cases req with
  | text cid modelSeq channel recipient message archiveId =>
    simp only [SendRequest.outgoing, enqueueText] at h
    split at h
    · cases h
    split at h
    · cases h
    cases h
    exact ⟨rfl, rfl⟩
  | agentText agentId scope cid channel recipient message archiveId =>
    simp only [SendRequest.outgoing, enqueueAgentText] at h
    split at h
    · cases h
    split at h
    · cases h
    cases h
    exact ⟨rfl, rfl⟩
  | pluginText cid turnSeq ordinal channel recipient message authority =>
    simp only [SendRequest.outgoing, stagePluginText] at h
    split at h
    · cases h
    cases h
    exact ⟨rfl, rfl⟩
  | pluginAttachments cid turnSeq ordinal channel recipient message attachments authority =>
    simp only [SendRequest.outgoing, stagePluginAttachmentsWithAuthority] at h
    split at h
    · cases h
    cases h
    exact ⟨rfl, rfl⟩
  | taskAttachments cid sourceSeq scope channel recipient message attachments =>
    simp only [SendRequest.outgoing, enqueueTaskAttachments] at h
    split at h
    · cases h
    cases h
    exact ⟨rfl, rfl⟩

def ShowsOthers (p : InformationSubject → Bool) : Prop := ∀ subject, subject.kind ≠ "transport_effect" → p subject

theorem runLabel_view (hp : ShowsOthers p) (cid sourceId : String) :
    runLabel (s.view p) cid sourceId = runLabel s cid sourceId := by
  have hlatest : ∀ id, (s.view p).labels.latestForIdentity "run" id = s.labels.latestForIdentity "run" id := fun id =>
    LabelHistory.latestForIdentity_restrict fun subject hkind => hp subject (by rw [hkind]; decide)
  simp only [runLabel, hlatest]
  rfl

theorem Outgoing.label_view (hp : ShowsOthers p) (o : Outgoing) : o.label (s.view p) = o.label s := by
  simp only [Outgoing.label, transportInformationLabel, runLabel_view hp]
  rfl

/-! ## Steps in a view -/

theorem LabelHistory.restrict_restrict : (labels.restrict p).restrict p = labels.restrict p := by
  unfold LabelHistory.restrict
  rw [List.filter_filter]
  simp

def Outgoing.persisted (host : OutboundHost) (now : Int) (s : OutboundState) (o : Outgoing) : LabelHistory :=
  match persistTransportInformationLabel host s.labels o.sourceId o.effect.text (o.label s) now with
  | .error _ => s.labels
  | .ok (_, labels) => labels

theorem Outgoing.persisted_cases (o : Outgoing) (s : OutboundState) : o.persisted host now s = s.labels ∨
    s.labels.lookup (o.subject host) = none ∧ o.persisted host now s =
      s.labels ++ [⟨o.subject host, "observed", o.label s, "host:transport-outbox", none, now⟩] := by
  unfold Outgoing.persisted Outgoing.subject
  cases hpersist : persistTransportInformationLabel host s.labels o.sourceId o.effect.text (o.label s) now with
  | error e => exact .inl rfl
  | ok stored =>
    rcases (persist_eq_ok hpersist).2 with ⟨-, hsame, -⟩ | ⟨hlookup, -, hobserve⟩
    · exact .inl hsame
    · exact .inr ⟨hlookup, (LabelHistory.observe_eq_ok hobserve).2.2⟩

theorem persist_restrict {sourceId text : String} {asked : InformationLabel}
    (hp : p (transportInformationSubject host sourceId text)) :
    persistTransportInformationLabel host (labels.restrict p) sourceId text asked now =
      (persistTransportInformationLabel host labels sourceId text asked now).map fun r => (r.1, r.2.restrict p) := by
  unfold persistTransportInformationLabel
  rw [LabelHistory.get_restrict hp, LabelHistory.observe_restrict hp]
  split
  · rfl
  · split_ifs <;> rfl
  · cases labels.observe (transportInformationSubject host sourceId text) asked "host:transport-outbox" now <;> rfl

theorem Outgoing.persisted_view (hp : ShowsOthers p) (o : Outgoing) (s : OutboundState) :
    (o.persisted host now (s.view p)).restrict p = (o.persisted host now s).restrict p := by
  by_cases hshown : p (o.subject host)
  · unfold Outgoing.persisted
    rw [o.label_view hp, show (s.view p).labels = s.labels.restrict p from rfl, persist_restrict hshown]
    cases persistTransportInformationLabel host s.labels o.sourceId o.effect.text (o.label s) now with
    | error e | ok stored => exact LabelHistory.restrict_restrict
  · have hhidden : ∀ s : OutboundState, (o.persisted host now s).restrict p = s.labels.restrict p := by
      intro s
      rcases o.persisted_cases s with h | ⟨-, h⟩
      · rw [h]
      · rw [h, LabelHistory.restrict_append_one, if_neg hshown]
    rw [hhidden, hhidden]
    exact LabelHistory.restrict_restrict

theorem enqueueIdempotentGuarded_rest (row : OutboxRow) (owner : Option EffectOwner) (now : Int) (db : Db) :
    { (enqueueIdempotentGuarded row owner now db).2 with outbox := [], outboxSeq := 0, deliveryEvents := [] } =
      { db with outbox := [], outboxSeq := 0, deliveryEvents := [] } := by
  refine transaction_snd (P := fun db' => { db' with outbox := [], outboxSeq := 0, deliveryEvents := [] } =
    { db with outbox := [], outboxSeq := 0, deliveryEvents := [] }) rfl ?_
  intro a db' h
  split at h
  · cases h
  split at h
  · repeat split at h
    all_goals cases h
    rfl
  · cases h
    rfl

theorem Outgoing.store_view (o : Outgoing) (s : OutboundState) :
    (o.store host now s).2.view p = { s.view p with labels := (o.persisted host now s).restrict p } := by
  unfold Outgoing.store Outgoing.persisted
  cases persistTransportInformationLabel host s.labels o.sourceId o.effect.text (o.label s) now with
  | error e => rfl
  | ok stored =>
    obtain ⟨label, labels⟩ := stored
    have hrest := enqueueIdempotentGuarded_rest (o.row host label) o.owner now s.db
    dsimp only
    generalize enqueueIdempotentGuarded (o.row host label) o.owner now s.db = queued at hrest ⊢
    obtain ⟨result, db⟩ := queued
    cases result with
    | error e | ok id => simp only [OutboundState.view, hrest]

theorem OutboundEvent.step_view (hp : ShowsOthers p) (ev : OutboundEvent) (s : OutboundState) :
    (ev.step host (s.view p)).view p = (ev.step host s).view p := by
  have hview : (s.view p).view p = s.view p := by simp only [OutboundState.view, LabelHistory.restrict_restrict]
  cases ev with
  | enqueue req now =>
    simp only [OutboundEvent.step, SendRequest.enqueue, SendRequest.outgoing_view]
    cases req.outgoing host s with
    | error e => exact hview
    | ok o =>
      rw [o.store_view, o.store_view, o.persisted_view hp, hview]
  | declassify subject actorId destination scope now =>
    by_cases hshown : p subject
    · simp only [OutboundEvent.step]
      rw [show (s.view p).labels = s.labels.restrict p from rfl, LabelHistory.declassify_restrict hshown]
      cases s.labels.declassify subject actorId destination scope now with
      | error e => exact hview
      | ok labels => simp only [Except.map, OutboundState.view, LabelHistory.restrict_restrict]
    · have hhidden : ∀ s : OutboundState,
          ((OutboundEvent.declassify subject actorId destination scope now).step host s).view p = s.view p := by
        intro s
        simp only [OutboundEvent.step]
        cases hdeclassify : s.labels.declassify subject actorId destination scope now with
        | error e => rfl
        | ok labels =>
          obtain ⟨l, -, -, hlabels⟩ := LabelHistory.declassify_eq_ok hdeclassify
          simp [OutboundState.view, hlabels, LabelHistory.restrict_append_one, if_neg hshown]
      rw [hhidden, hhidden, hview]
  | observe subject label actorId now =>
    simp only [OutboundEvent.step]
    split_ifs with hkind
    · exact hview
    · rw [show (s.view p).labels = s.labels.restrict p from rfl, LabelHistory.observe_restrict (hp _ hkind)]
      cases s.labels.observe subject label actorId now with
      | error e => exact hview
      | ok labels => simp only [Except.map, OutboundState.view, LabelHistory.restrict_restrict]
  | transform output sources operation actorId now =>
    simp only [OutboundEvent.step]
    split_ifs with hkind
    · exact hview
    · simp only [List.mem_cons, not_exists, not_and] at hkind
      rw [show (s.view p).labels = s.labels.restrict p from rfl, LabelHistory.transform_restrict
        (hp _ (hkind _ (.inl rfl))) fun x hx => hp _ (hkind x (.inr hx))]
      cases s.labels.transform output sources operation actorId now with
      | error e => exact hview
      | ok labels => simp only [Except.map, OutboundState.view, LabelHistory.restrict_restrict]
  | settle change | become w => simp only [OutboundEvent.step, OutboundState.view, LabelHistory.restrict_restrict]

theorem OutboundEvent.step_hidden (h : ¬ p (req.subject host)) (s : OutboundState) :
    ((OutboundEvent.enqueue req now).step host s).view p = s.view p := by
  simp only [OutboundEvent.step, SendRequest.enqueue]
  cases hreq : req.outgoing host s with
  | error e => rfl
  | ok o =>
    rw [o.store_view]
    rw [← (SendRequest.outgoing_spec hreq).2] at h
    rcases o.persisted_cases s with hlabels | ⟨-, hlabels⟩
    · rw [hlabels]
      rfl
    · rw [hlabels, LabelHistory.restrict_append_one, if_neg h]
      rfl

/-! ## Histories in a view -/

variable {history history' before behind : List OutboundEvent}

theorem after_append : after host s (history ++ history') = after host (after host s history) history' :=
  List.foldl_append

theorem after_view (hp : ShowsOthers p) : ∀ (history : List OutboundEvent) {s s' : OutboundState},
    s.view p = s'.view p → (after host s history).view p = (after host s' history).view p
  | [], _, _, h => h
  | ev :: history, s, s', h => by
    refine after_view hp history ?_
    rw [← ev.step_view hp s, h, ev.step_view hp s']

theorem after_own (hp : ShowsOthers p) (cid : String) : ∀ {history : List OutboundEvent} (s : OutboundState),
    (∀ req now, .enqueue req now ∈ history → req.conversationId ≠ cid → ¬ p (req.subject host)) →
    (after host s history).view p = (after host s (OutboundEvent.own cid history)).view p
  | [], _, _ => rfl
  | ev :: history, s, h => by
    have hlater := after_own hp cid (ev.step host s) fun req now hmem => h req now (List.mem_cons_of_mem ev hmem)
    by_cases hforeign : ev.foreign cid
    · rw [OutboundEvent.own, List.filter_cons_of_neg (by simpa using hforeign)]
      refine hlater.trans (after_view hp _ ?_)
      cases ev with
      | enqueue req now =>
        have hother : req.conversationId ≠ cid := by simpa [OutboundEvent.foreign] using hforeign
        exact OutboundEvent.step_hidden (h req now List.mem_cons_self hother) s
      | _ => cases hforeign
    · rw [OutboundEvent.own, List.filter_cons_of_pos (by simpa using hforeign)]
      exact hlater

def onlySend (subject : InformationSubject) (x : InformationSubject) : Bool := x.kind ≠ "transport_effect" ∨ x = subject

theorem showsOthers_onlySend : ShowsOthers (onlySend subject) := fun x hx => by simp [onlySend, hx]

theorem SendRequest.subject_kind (req : SendRequest) : (req.subject host).kind = "transport_effect" := by
  cases req <;> rfl

theorem lookup_of_view (h : s.view (onlySend subject) = s'.view (onlySend subject)) :
    s.labels.lookup subject = s'.labels.lookup subject := by
  have hself : onlySend subject subject := by simp [onlySend]
  have hrestrict : s.labels.restrict (onlySend subject) = s'.labels.restrict (onlySend subject) :=
    congrArg OutboundState.labels h
  rw [← LabelHistory.lookup_restrict hself, hrestrict, LabelHistory.lookup_restrict hself]

/-- **Two histories that differ only in what other conversations send** look the same to a send, as long as none of those
is of its text and source id. -/
theorem after_alike {cid : String} (hview : s.view (onlySend subject) = s'.view (onlySend subject))
    (hown : OutboundEvent.own cid history = OutboundEvent.own cid history')
    (hforeign : ∀ ev ∈ history ++ history', ev.foreign cid → ¬ ev.Sends host subject) :
    (after host s history).view (onlySend subject) = (after host s' history').view (onlySend subject) := by
  have hhidden : ∀ {h : List OutboundEvent}, (∀ ev ∈ h, ev.foreign cid → ¬ ev.Sends host subject) → ∀ req now,
      .enqueue req now ∈ h → req.conversationId ≠ cid → ¬ onlySend subject (req.subject host) := by
    intro h hall req now hmem hother
    have hsends : ¬ req.subject host = subject := hall _ hmem (by simpa [OutboundEvent.foreign] using hother)
    simpa [onlySend, req.subject_kind] using hsends
  have hleft := hhidden fun ev hev => hforeign ev (List.mem_append_left _ hev)
  have hright := hhidden fun ev hev => hforeign ev (List.mem_append_right _ hev)
  rw [after_own showsOthers_onlySend cid s hleft, after_own showsOthers_onlySend cid s' hright, hown]
  exact after_view showsOthers_onlySend _ hview

/-! ## A send on its own -/

theorem OutboundEvent.step_move (ev : OutboundEvent) (s : OutboundState) :
    ∃ move, OutboundMove.step host s move (ev.step host s) := by
  cases ev with
  | enqueue req now => exact ⟨.enqueue req now, rfl⟩
  | declassify subject actorId destination scope now =>
    simp only [OutboundEvent.step]
    cases hdeclassify : s.labels.declassify subject actorId destination scope now with
    | error e => exact ⟨.elsewhere, rfl⟩
    | ok labels => exact ⟨.declassify subject actorId destination scope now, _, _, hdeclassify, rfl⟩
  | observe subject label actorId now =>
    simp only [OutboundEvent.step]
    split_ifs with hkind
    · exact ⟨.elsewhere, rfl⟩
    · cases hobserve : s.labels.observe subject label actorId now with
      | error e => exact ⟨.elsewhere, rfl⟩
      | ok labels => exact ⟨.observe subject label actorId now, hkind, _, hobserve, rfl⟩
  | transform output sources operation actorId now =>
    simp only [OutboundEvent.step]
    split_ifs with hkind
    · exact ⟨.elsewhere, rfl⟩
    · cases htransform : s.labels.transform output sources operation actorId now with
      | error e => exact ⟨.elsewhere, rfl⟩
      | ok labels =>
        refine ⟨.transform output sources operation actorId now, fun h => hkind ⟨output, List.mem_cons_self, h⟩, _, _,
          htransform, rfl⟩
  | settle change | become w => exact ⟨.elsewhere, rfl⟩

theorem after_run : ∀ (history : List OutboundEvent) (s : OutboundState),
    ∃ moves, Steps.Run (OutboundMove.step host) s moves (after host s history)
  | [], s => ⟨[], rfl⟩
  | ev :: history, s => by
    obtain ⟨move, hmove⟩ := ev.step_move s
    obtain ⟨moves, hmoves⟩ := after_run history (ev.step host s)
    exact ⟨move :: moves, _, hmove, hmoves⟩

theorem OutboundEvent.step_unsent (hkind : subject.kind = "transport_effect") (hev : ¬ ev.Sends host subject)
    (h : s.labels.lookup subject = none) : (ev.step host s).labels.lookup subject = none := by
  cases ev with
  | enqueue req now =>
    simp only [OutboundEvent.step, SendRequest.enqueue]
    cases hreq : req.outgoing host s with
    | error e => exact h
    | ok o =>
      have hother : o.subject host ≠ subject := (SendRequest.outgoing_spec hreq).2 ▸ hev
      have hlabels : (o.store host now s).2.labels = o.persisted host now s := by
        have hview := congrArg OutboundState.labels (@Outgoing.store_view host (fun _ => true) now o s)
        simpa [OutboundState.view, LabelHistory.restrict] using hview
      rw [hlabels]
      rcases o.persisted_cases s with heq | ⟨-, heq⟩
      · rw [heq, h]
      · rw [heq, LabelHistory.lookup_append, if_neg hother, h]
  | declassify output actorId destination scope now =>
    simp only [OutboundEvent.step]
    cases hdeclassify : s.labels.declassify output actorId destination scope now with
    | error e => exact h
    | ok labels =>
      obtain ⟨l, hl, -, hlabels⟩ := LabelHistory.declassify_eq_ok hdeclassify
      have hother : output ≠ subject := by
        rintro rfl
        rw [h] at hl
        cases hl
      simp [hlabels, LabelHistory.lookup_append, if_neg hother, h]
  | observe output label actorId now =>
    simp only [OutboundEvent.step]
    split_ifs with hother
    · exact h
    · cases hobserve : s.labels.observe output label actorId now with
      | error e => exact h
      | ok labels =>
        obtain ⟨-, -, hlabels⟩ := LabelHistory.observe_eq_ok hobserve
        have hne : output ≠ subject := fun heq => hother (heq ▸ hkind)
        simp [hlabels, LabelHistory.lookup_append, if_neg hne, h]
  | transform output sources operation actorId now =>
    simp only [OutboundEvent.step]
    split_ifs with hother
    · exact h
    · cases htransform : s.labels.transform output sources operation actorId now with
      | error e => exact h
      | ok labels =>
        obtain ⟨-, hlabels⟩ := LabelHistory.transform_eq_ok htransform
        have hne : output ≠ subject := fun heq => hother ⟨output, List.mem_cons_self, heq ▸ hkind⟩
        simp [hlabels, LabelHistory.lookup_append, if_neg hne, h]
  | settle change | become w => exact h

theorem after_unsent (hkind : subject.kind = "transport_effect") : ∀ {history : List OutboundEvent} {s : OutboundState},
    (∀ ev ∈ history, ¬ ev.Sends host subject) → s.labels.lookup subject = none →
    (after host s history).labels.lookup subject = none
  | [], _, _, h => h
  | ev :: history, s, hev, h => by
    show (after host (ev.step host s) history).labels.lookup subject = none
    exact after_unsent hkind (fun ev' hmem => hev ev' (List.mem_cons_of_mem ev hmem))
      (OutboundEvent.step_unsent hkind (hev ev List.mem_cons_self) h)

theorem first_send (hreq : req.outgoing host s = .ok o) (hfirst : s.labels.lookup (req.subject host) = none)
    (hrow : (OutboundEvent.enqueue req now).Creates host s r) :
    r.payload = host.encode o.effect (o.label s) ∧ r.effectKind = o.effect.kind ∧
      validateSubject (req.subject host) = .ok () ∧
      ((OutboundEvent.enqueue req now).step host s).labels.lookup (req.subject host) = some (o.label s) := by
  have henqueue : (OutboundEvent.enqueue req now).step host s = (o.store host now s).2 := by
    simp [OutboundEvent.step, SendRequest.enqueue, hreq]
  unfold OutboundEvent.Creates at hrow
  rw [henqueue] at hrow ⊢
  obtain ⟨label, labels, hpersist, hpayload, hkind, db, hstate⟩ := Outgoing.store_creates hrow.1 hrow.2
  obtain ⟨hvalid, hstored⟩ := persist_eq_ok hpersist
  have hsubject := (SendRequest.outgoing_spec hreq).2
  unfold Outgoing.subject at hsubject
  rw [hsubject] at hvalid hstored
  rcases hstored with ⟨hlookup, -⟩ | ⟨-, rfl, hobserve⟩
  · rw [hfirst] at hlookup
    cases hlookup
  · obtain ⟨-, -, rfl⟩ := LabelHistory.observe_eq_ok hobserve
    refine ⟨hpayload, hkind, hvalid, ?_⟩
    rw [hstate]
    simp [LabelHistory.lookup_append]

theorem loadedLabel_eq {t : OutboundState} (hpayload : r.payload = host.encode o.effect (o.label s))
    (hkind : r.effectKind = o.effect.kind)
    (hcodec : host.decode o.effect.kind (host.encode o.effect (o.label s)) = .ok (o.effect, o.label s))
    (hvalid : validateSubject (o.subject host) = .ok ()) :
    loadedLabel host t r = .ok ((t.labels.lookup (o.subject host)).or (some (o.label s))) := by
  obtain ⟨entry, hhead, hentry⟩ := (o.label_spec s).1
  have hsubject : transportInformationSubject host entry.sourceId o.effect.text = o.subject host := by
    rw [hentry, Outgoing.subject]
  simp [loadedLabel, hpayload, hkind, hcodec, loadTransportInformationLabel, hhead, hsubject, LabelHistory.get, hvalid]

theorem InformationLabel.permitsDestination_of_permits {l : InformationLabel} {d : List Char}
    (h : Wildcards.Permits '*' l.allowedDestinations d) : l.permitsDestination d := by
  obtain ⟨pat, hpat, hmatch⟩ := h
  simp only [InformationLabel.permitsDestination, Bool.or_eq_true, List.any_eq_true]
  refine .inl ⟨pat, hpat, ?_⟩
  simpa [Wildcards.Matches, Option.any_eq_true] using hmatch

theorem Outgoing.label_permits (o : Outgoing) (s : OutboundState)
    (hrun : ∀ run, runLabel s o.conversationId o.sourceId = some run →
      Wildcards.Permits '*' run.allowedDestinations o.destination) :
    Wildcards.Permits '*' (o.label s).allowedDestinations o.destination := by
  have hown : Wildcards.Permits '*' [o.destination] o.destination :=
    ⟨_, List.mem_singleton_self _, Wildcards.Matches.self _ _⟩
  have hlabel : (o.label s).allowedDestinations = (transportInformationLabel s o.conversationId o.effect.channel
      o.effect.recipient o.sourceId).allowedDestinations := by
    unfold Outgoing.label
    cases o.authority <;> rfl
  rw [hlabel]
  unfold transportInformationLabel
  cases hr : runLabel s o.conversationId o.sourceId with
  | none => exact hown
  | some run => exact Wildcards.permits_inter hown (hrun run hr)

/-- **A text sent for the first time under its source id** goes under its own label until the end: no other conversation
reaches it, as long as none sends the same text under the same source id. -/
theorem loaded_label_own (host : OutboundHost) {s₀ : OutboundState} (hinit : s₀.labels = [])
    (before behind : List OutboundEvent) (req : SendRequest) (now : Int) {o : Outgoing}
    (hreq : req.outgoing host (after host s₀ before) = .ok o)
    (hcodec : host.decode o.effect.kind (host.encode o.effect (o.label (after host s₀ before))) =
      .ok (o.effect, o.label (after host s₀ before)))
    (hfirst : ∀ ev ∈ before, ¬ ev.Sends host (req.subject host)) {r : OutboxRec}
    (hrow : (OutboundEvent.enqueue req now).Creates host (after host s₀ before) r) :
    (∃ l, loadedLabel host (after host s₀ (before ++ .enqueue req now :: behind)) r = .ok (some l) ∧
      (o.label (after host s₀ before)).UpToException l ∧
      ((∀ run, runLabel (after host s₀ before) o.conversationId o.sourceId = some run →
        Wildcards.Permits '*' run.allowedDestinations o.destination) → l.permitsDestination o.destination)) ∧
    ∀ (before' behind' : List OutboundEvent) (r' : OutboxRec),
      OutboundEvent.own req.conversationId before' = OutboundEvent.own req.conversationId before →
      OutboundEvent.own req.conversationId behind' = OutboundEvent.own req.conversationId behind →
      (∀ ev ∈ before' ++ behind' ++ behind, ev.foreign req.conversationId → ¬ ev.Sends host (req.subject host)) →
      (OutboundEvent.enqueue req now).Creates host (after host s₀ before') r' →
      loadedLabel host (after host s₀ (before' ++ .enqueue req now :: behind')) r' =
        loadedLabel host (after host s₀ (before ++ .enqueue req now :: behind)) r := by
  obtain ⟨-, hsubject⟩ := SendRequest.outgoing_spec hreq
  have hnone : (after host s₀ before).labels.lookup (req.subject host) = none :=
    after_unsent req.subject_kind hfirst (by rw [hinit]; rfl)
  obtain ⟨hpayload, heffect, hvalid, hlookup⟩ := first_send hreq hnone hrow
  rw [← hsubject] at hvalid
  have hloaded := fun t => loadedLabel_eq (t := t) hpayload heffect hcodec hvalid
  rw [hsubject] at hloaded
  constructor
  · -- what comes behind adds exceptions only
    obtain ⟨moves, hmoves⟩ := after_run behind ((OutboundEvent.enqueue req now).step host (after host s₀ before))
    obtain ⟨l, hl, hsame⟩ := (OutboundMove.run_keeps hmoves).1 _ _ hlookup
    have hfound : (after host s₀ (before ++ .enqueue req now :: behind)).labels.lookup (req.subject host) = some l := by
      rw [after_append]
      exact hl
    refine ⟨l, ?_, hsame, fun hrun => ?_⟩
    · rw [hloaded, hfound, Option.some_or]
    · refine InformationLabel.permitsDestination_of_permits ?_
      rw [hsame.allowedDestinations]
      exact o.label_permits _ hrun
  · intro before' behind' r' hbefore hbehind hforeign hrow'
    have hview : (after host s₀ before').view (onlySend (req.subject host)) =
        (after host s₀ before).view (onlySend (req.subject host)) := by
      refine after_alike rfl hbefore fun ev hev hother => ?_
      rcases List.mem_append.1 hev with hev | hev
      · exact hforeign ev (by simp [hev]) hother
      · exact hfirst ev hev
    -- the other history asks for the same label
    have hreq' : req.outgoing host (after host s₀ before') = .ok o := by
      rw [← @SendRequest.outgoing_view host _ (onlySend (req.subject host)), hview, SendRequest.outgoing_view, hreq]
    have hasked : o.label (after host s₀ before') = o.label (after host s₀ before) := by
      rw [← o.label_view showsOthers_onlySend, hview, o.label_view showsOthers_onlySend]
    obtain ⟨hpayload', heffect', -, -⟩ := first_send hreq' (by rw [lookup_of_view hview, hnone]) hrow'
    have hend : (after host s₀ (before' ++ .enqueue req now :: behind')).view (onlySend (req.subject host)) =
        (after host s₀ (before ++ .enqueue req now :: behind)).view (onlySend (req.subject host)) := by
      rw [after_append, after_append]
      have hsent := @after_view host _ showsOthers_onlySend [.enqueue req now] _ _ hview
      have hlater := fun ev hev => hforeign ev (List.append_assoc before' .. ▸ List.mem_append_right before' hev)
      exact @after_alike host _ _ _ behind' behind _ hsent hbehind hlater
    rw [hasked] at hpayload'
    rw [hloaded, ← lookup_of_view hend, loadedLabel_eq hpayload' heffect' hcodec hvalid, hsubject]

theorem loaded_label_own_reply :
    ∃ l, loadedLabel (okHost okPayload okEffect okLabel) (after (okHost okPayload okEffect okLabel) (askedState 1)
        ([] ++ .enqueue (okReply "c") 10 :: [.enqueue (okReply "c") 20])) (okRow 1 "c") = .ok (some l) ∧
      (okOutgoing.label (askedState 1)).UpToException l ∧
      ((∀ run, runLabel (askedState 1) okOutgoing.conversationId okOutgoing.sourceId = some run →
        Wildcards.Permits '*' run.allowedDestinations okOutgoing.destination) →
        l.permitsDestination okOutgoing.destination) := by
  have hreq : (okReply "c").outgoing (okHost okPayload okEffect okLabel) (askedState 1) = .ok okOutgoing := by rfl
  have hrow : (OutboundEvent.enqueue (okReply "c") 10).Creates (okHost okPayload okEffect okLabel) (askedState 1)
      (okRow 1 "c") := ⟨by decide +kernel, by decide +kernel⟩
  exact (loaded_label_own (okHost okPayload okEffect okLabel) rfl [] [.enqueue (okReply "c") 20] (okReply "c") 10 hreq rfl
    (List.forall_mem_nil _) hrow).1

def limitedRun : OutboundState := { askedState 1 with
  db := { runs := [⟨"r", "c", .running, 2, 0, none, 0, none⟩] }
  labels := [⟨⟨"run", "r", "2689367b205c16ce32ed4200942b8b8b1e262dfc70d9bc9fbc77c49699a4f1df"⟩, "observed",
    .observed .sensitive (some "c") "KnownLimited" "run_input" "c:2" [], "runs:store", none, 0⟩] }

/-- **A label of another conversation**: the answer `ok` of `d` goes under the label of that of `c`.  And a label need not
permit where the send goes: that of a run of limited trust permits nothing. -/
theorem label_of_other_conversation :
    let host := okHost okPayload okEffect okLabel
    let first := (OutboundEvent.enqueue (okReply "c") 10).step host (askedState 1)
    let second := (OutboundEvent.enqueue (okReply "d") 20).step host first
    ((OutboundEvent.enqueue (okReply "d") 20).Creates host first (okRow 2 "d") ∧
      loadedLabel host second (okRow 2 "d") = .ok (some okLabel) ∧ okLabel.ownerId = some "c") ∧
    ∃ o, (SendRequest.pluginText "c" 2 0 "sms" "bob" "ok" none).outgoing host limitedRun = .ok o ∧
      ¬ (o.label limitedRun).permitsDestination o.destination := by
  refine ⟨⟨⟨by decide +kernel, by decide +kernel⟩, rfl, rfl⟩, _, rfl, ?_⟩
  decide +kernel

end Execlaw
