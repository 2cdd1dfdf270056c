import Execlaw.TransportOutbox
/-!
# OutboundAuthority — queued sends are revalidated

A row is to be delivered as long as the policy and the grant it was queued under stand.  What a label says about
authority never changes (`OutboundMove.run_keeps`), so a row is judged by the label it went under; and that one is of an
older policy when the text was sent before, or of a trust class that is not its principal's (`revalidation_iff`).
-/
namespace Execlaw

variable (host : OutboundHost)

inductive OutboundMove
  | enqueue (req : SendRequest) (now : Int)
  | observe (subject : InformationSubject) (label : InformationLabel) (actorId : String) (now : Int)
  | transform (output : InformationSubject) (sources : List InformationSubject) (operation actorId : String) (now : Int)
  | declassify (subject : InformationSubject) (actorId destination scope : String) (now : Int)
  | elsewhere

/-- The kind `transport_effect` is labelled by queueing only. -/
def OutboundMove.step (s : OutboundState) (move : OutboundMove) (s' : OutboundState) : Prop :=
  match move with
  | .enqueue req now => s' = (req.enqueue host now s).2
  | .observe subject label actorId now => subject.kind ≠ "transport_effect" ∧
      ∃ labels, s.labels.observe subject label actorId now = .ok labels ∧ s' = { s with labels }
  | .transform output sources operation actorId now => output.kind ≠ "transport_effect" ∧
      ∃ label labels, s.labels.transform output sources operation actorId now = .ok (label, labels) ∧
        s' = { s with labels }
  | .declassify subject actorId destination scope now =>
      ∃ label labels, s.labels.declassify subject actorId destination scope now = .ok (label, labels) ∧
        s' = { s with labels }
  | .elsewhere => s'.labels = s.labels

/-! ## What revalidation is to be -/

def TrustLevel.InForce (now : Int) : TrustLevel → Prop
  | .blocked .. | .unknownPending .. => False
  | .delegated _ _ (some expiresAt) => now < expiresAt
  | _ => True

/-- **What a send was allowed under still holds**: the policy, and the grant of the principal it carries. -/
def Stands (s : OutboundState) (now revision : Int) (level : TrustLevel) (carried : Option String) : Prop :=
  s.policyRevision = revision ∧ ∀ principalId, carried = some principalId →
    s.principals principalId = some level ∧ level.InForce now

/-- The label stored for the source and the text, if any, is of the present policy; and the trust class of the send, or
of that label, is that of its principal. -/
def Outgoing.Current (o : Outgoing) (s : OutboundState) (level : TrustLevel) : Prop :=
  match s.labels.lookup (o.subject host) with
  | some stored => stored.authorityPolicyRevision = some s.policyRevision ∧
      (o.authority ≠ none → stored.sourceTrustClass = level.classTag)
  | none => o.authority ≠ none → transportTrustClass s o.conversationId o.sourceId = level.classTag

variable {host} {s s' t : OutboundState} {o : Outgoing} {label : InformationLabel} {labels labels' : LabelHistory}
  {now : Int}

/-! ## The check -/

theorem TrustLevel.InForce.mono {level : TrustLevel} {later : Int} (h : level.InForce later) (hle : now ≤ later) :
    level.InForce now := by
  cases level with
  | delegated grantedBy scope expiresAt =>
    cases expiresAt with
    | none => trivial
    | some expiresAt =>
      simp only [TrustLevel.InForce] at h ⊢
      omega
  | _ => exact h

/-- **A label passes** when the policy is the one it names, and the principal it names still has the trust level and the
class it names. -/
theorem validateOutboundAuthority_eq_ok {authority : Option (String × String)}
    (hprincipal : label.authorityPrincipalId = authority.map Prod.fst)
    (hfingerprint : label.authorityFingerprint = authority.map Prod.snd) :
    validateOutboundAuthority host s now (some label) = .ok () ↔
      label.authorityPolicyRevision = some s.policyRevision ∧
      ∀ principalId fingerprint, authority = some (principalId, fingerprint) → ∃ level,
        s.principals principalId = some level ∧ host.fingerprint level = fingerprint ∧
        level.classTag = label.sourceTrustClass ∧ level.InForce now := by
  unfold validateOutboundAuthority
  by_cases hrevision : label.authorityPolicyRevision = some s.policyRevision
  case neg => simp [hrevision]
  cases authority with
  | none => simp [hrevision, hprincipal, hfingerprint]
  | some authority =>
    obtain ⟨principalId, fingerprint⟩ := authority
    cases hlevel : s.principals principalId with
    | none => simp [hrevision, hprincipal, hfingerprint, hlevel]
    | some level =>
      simp only [hrevision, hprincipal, hfingerprint, Option.map_some, hlevel, ne_eq, not_true_eq_false, if_false]
      by_cases hsame : host.fingerprint level = fingerprint ∧ level.classTag = label.sourceTrustClass
      case neg =>
        rw [if_pos (by tauto)]
        constructor
        · intro h
          cases h
        · rintro ⟨-, h⟩
          obtain ⟨level', hlevel', hfp, hclass, -⟩ := h principalId fingerprint rfl
          rw [hlevel] at hlevel'
          cases hlevel'
          exact absurd ⟨hfp, hclass⟩ hsame
      rw [if_neg (by tauto)]
      refine Iff.trans (b := level.InForce now) ?_ ?_
      · cases level with
        | delegated grantedBy scope expiresAt => cases expiresAt <;> simp [TrustLevel.InForce]
        | _ => simp [TrustLevel.InForce]
      constructor
      · intro h
        refine ⟨trivial, fun _ _ heq => ⟨level, ?_, ?_, hsame.2, h⟩⟩
        · cases heq
          exact hlevel
        · cases heq
          exact hsame.1
      · rintro ⟨-, h⟩
        obtain ⟨level', hlevel', -, -, hforce⟩ := h principalId fingerprint rfl
        rw [hlevel] at hlevel'
        cases hlevel'
        exact hforce

/-! ## What runs keep -/

def LabelHistory.Sourced (labels : LabelHistory) : Prop :=
  ∀ subject label, labels.lookup subject = some label → subject.kind = "transport_effect" →
    ∃ entry, label.provenance.head? = some entry ∧ entry.sourceId = subject.id

theorem LabelHistory.Sourced.append {ev : LabelEvent} (h : labels.Sourced)
    (hev : ev.subject.kind = "transport_effect" →
      ∃ entry, ev.label.provenance.head? = some entry ∧ entry.sourceId = ev.subject.id) :
    LabelHistory.Sourced (labels ++ [ev]) := by
  intro subject label hl hkind
  rw [LabelHistory.lookup_append] at hl
  split_ifs at hl with hsubject
  · cases hl
    subst hsubject
    exact hev hkind
  · exact h subject label hl hkind

theorem Outgoing.store_labels (o : Outgoing) (s : OutboundState) (now : Int) :
    s.labels.Keeps (o.store host now s).2.labels ∧ (s.labels.Sourced → (o.store host now s).2.labels.Sourced) := by
  unfold Outgoing.store
  cases hpersist : persistTransportInformationLabel host s.labels o.sourceId o.effect.text (o.label s) now with
  | error e => exact ⟨LabelHistory.Keeps.refl _, id⟩
  | ok stored =>
    obtain ⟨label, labels⟩ := stored
    have hkeep : s.labels.Keeps labels ∧ (s.labels.Sourced → labels.Sourced) := by
      rcases (persist_eq_ok hpersist).2 with ⟨-, rfl, -⟩ | ⟨-, -, hobserve⟩
      · exact ⟨LabelHistory.Keeps.refl _, id⟩
      · refine ⟨LabelHistory.keeps_observe hobserve, fun h => ?_⟩
        obtain ⟨-, -, rfl⟩ := LabelHistory.observe_eq_ok hobserve
        exact h.append fun _ => (o.label_spec s).1
    dsimp only
    split <;> exact hkeep

theorem OutboundMove.step_keeps {move : OutboundMove} (h : move.step host s s') :
    s.labels.Keeps s'.labels ∧ (s.labels.Sourced → s'.labels.Sourced) := by
  cases move with
  | enqueue req now =>
    obtain rfl : s' = (req.enqueue host now s).2 := h
    unfold SendRequest.enqueue
    split
    · exact ⟨LabelHistory.Keeps.refl _, id⟩
    · exact Outgoing.store_labels _ s now
  | observe subject label actorId now =>
    obtain ⟨hkind, labels, hobserve, rfl⟩ := h
    refine ⟨LabelHistory.keeps_observe hobserve, fun hsourced => ?_⟩
    obtain ⟨-, -, rfl⟩ := LabelHistory.observe_eq_ok hobserve
    exact hsourced.append fun h => absurd h hkind
  | transform output sources operation actorId now =>
    obtain ⟨hkind, label, labels, htransform, rfl⟩ := h
    refine ⟨LabelHistory.keeps_transform htransform, fun hsourced => ?_⟩
    obtain ⟨-, rfl⟩ := LabelHistory.transform_eq_ok htransform
    exact hsourced.append fun h => absurd h hkind
  | declassify subject actorId destination scope now =>
    obtain ⟨label, labels, hdeclassify, rfl⟩ := h
    refine ⟨LabelHistory.keeps_declassify hdeclassify, fun hsourced => ?_⟩
    obtain ⟨l, hl, hsame, rfl⟩ := LabelHistory.declassify_eq_ok hdeclassify
    refine hsourced.append fun hkind => ?_
    rw [hsame.provenance]
    exact hsourced subject l hl hkind
  | elsewhere =>
    have hlabels : s'.labels = s.labels := h
    rw [hlabels]
    exact ⟨LabelHistory.Keeps.refl _, id⟩

theorem OutboundMove.run_keeps {moves : List OutboundMove} (h : Steps.Run (OutboundMove.step host) s moves t) :
    s.labels.Keeps t.labels ∧ (s.labels.Sourced → t.labels.Sourced) := by
  refine Steps.run_invariant (P := fun t => s.labels.Keeps t.labels ∧ (s.labels.Sourced → t.labels.Sourced)) h
    ⟨LabelHistory.Keeps.refl _, id⟩ ?_
  rintro m move m' ⟨hkeeps, hsourced⟩ hstep
  obtain ⟨hkeeps', hsourced'⟩ := OutboundMove.step_keeps hstep
  exact ⟨hkeeps.trans hkeeps', hsourced' ∘ hsourced⟩

/-! ## Revalidation -/

theorem load_of_keeps {sourceId text : String} {entry : ProvenanceEntry}
    (hsubject : validateSubject (transportInformationSubject host sourceId text) = .ok ())
    (hlookup : labels.lookup (transportInformationSubject host sourceId text) = some label)
    (hhead : label.provenance.head? = some entry) (hentry : entry.sourceId = sourceId) (hkeeps : labels.Keeps labels') :
    ∃ l, loadTransportInformationLabel host labels' text (some label) = .ok (some l) ∧ label.UpToException l := by
  obtain ⟨l, hl, hsame⟩ := hkeeps _ label hlookup
  subst hentry
  refine ⟨l, ?_, hsame⟩
  simp [loadTransportInformationLabel, LabelHistory.get, hhead, hsubject, hl]

theorem checkAuthority_eq_ok {later : Int}
    (hcodec : host.decode o.effect.kind (host.encode o.effect label) = .ok (o.effect, label)) (hsourced : s.labels.Sourced)
    (hpersist : persistTransportInformationLabel host s.labels o.sourceId o.effect.text (o.label s) now =
      .ok (label, labels)) (hkeeps : labels.Keeps t.labels) :
    checkAuthority host t later o.effect.kind (host.encode o.effect label) = .ok () ↔
      label.authorityPolicyRevision = some t.policyRevision ∧
      ∀ principalId fingerprint, o.authority = some (principalId, fingerprint) → ∃ level,
        t.principals principalId = some level ∧ host.fingerprint level = fingerprint ∧
        level.classTag = label.sourceTrustClass ∧ level.InForce later := by
  obtain ⟨hasked, hclass, hprincipal, hfingerprint, hrevision⟩ := o.label_spec s
  obtain ⟨hsubject, hstored⟩ := persist_eq_ok hpersist
  have hlabel : labels.lookup (transportInformationSubject host o.sourceId o.effect.text) = some label ∧
      (∃ entry, label.provenance.head? = some entry ∧ entry.sourceId = o.sourceId) ∧
      label.authorityPrincipalId = o.authority.map Prod.fst ∧ label.authorityFingerprint = o.authority.map Prod.snd := by
    rcases hstored with ⟨hlookup, rfl, hp, hf⟩ | ⟨-, rfl, hobserve⟩
    · exact ⟨hlookup, hsourced _ label hlookup rfl, hp.trans hprincipal, hf.trans hfingerprint⟩
    · obtain ⟨-, -, rfl⟩ := LabelHistory.observe_eq_ok hobserve
      exact ⟨by rw [LabelHistory.lookup_append, if_pos rfl], hasked, hprincipal, hfingerprint⟩
  obtain ⟨hlookup, ⟨entry, hhead, hentry⟩, hp, hf⟩ := hlabel
  obtain ⟨l, hload, hsame⟩ := load_of_keeps hsubject hlookup hhead hentry hkeeps
  unfold checkAuthority
  simp only [hcodec, hload]
  rw [validateOutboundAuthority_eq_ok (hsame.authorityPrincipalId.trans hp) (hsame.authorityFingerprint.trans hf),
    hsame.authorityPolicyRevision, hsame.sourceTrustClass]

theorem Outgoing.current_iff {level : TrustLevel}
    (hpersist : persistTransportInformationLabel host s.labels o.sourceId o.effect.text (o.label s) now =
      .ok (label, labels)) :
    o.Current host s level ↔ label.authorityPolicyRevision = some s.policyRevision ∧
      (o.authority ≠ none → label.sourceTrustClass = level.classTag) := by
  obtain ⟨-, hclass, -, -, hrevision⟩ := o.label_spec s
  unfold Outgoing.Current Outgoing.subject
  rcases (persist_eq_ok hpersist).2 with ⟨hlookup, -, -, -⟩ | ⟨hlookup, rfl, -⟩
  · simp [hlookup]
  · simp [hlookup, hclass, hrevision]

/-- **Revalidation rejects a row exactly when something changed**, if and only if the row went under a label of the
present policy and of the trust class of its principal, or under a grant that was out of force already. -/
theorem revalidation_iff (host : OutboundHost) (L : TrustLevel)
    (hsha : ∀ level, host.fingerprint level = host.fingerprint L → level = L)
    {s₀ s : OutboundState} {before : List OutboundMove} (hinit : s₀.labels = [])
    (hrun : Steps.Run (OutboundMove.step host) s₀ before s) (req : SendRequest) {o : Outgoing}
    (hreq : req.outgoing host s = .ok o)
    (hcodec : host.decode o.effect.kind (host.encode o.effect (o.sentLabel host s)) = .ok (o.effect, o.sentLabel host s))
    (now : Int) {r : OutboxRec}
    (hnew : r ∈ (req.enqueue host now s).2.db.outbox) (hold : r ∉ s.db.outbox)
    (hL : ∀ principalId fingerprint, o.authority = some (principalId, fingerprint) →
      s.principals principalId = some L ∧ fingerprint = host.fingerprint L) :
    (∀ (moves : List OutboundMove) (t : OutboundState) (later : Int),
        Steps.Run (OutboundMove.step host) (req.enqueue host now s).2 moves t → now ≤ later →
        (checkAuthority host t later r.effectKind r.payload = .ok () ↔
          Stands t later s.policyRevision L (o.authority.map Prod.fst))) ↔
      (o.authority ≠ none ∧ ¬ L.InForce now) ∨ o.Current host s L := by
  have hsourced : s.labels.Sourced := by
    refine (OutboundMove.run_keeps hrun).2 ?_
    rw [hinit]
    intro subject label hl
    cases hl
  have henqueue : req.enqueue host now s = o.store host now s := by simp [SendRequest.enqueue, hreq]
  rw [henqueue] at hnew ⊢
  obtain ⟨label, labels, hpersist, hpayload, hkind, db, hstate⟩ := Outgoing.store_creates hnew hold
  rw [hstate, hpayload, hkind, Outgoing.current_iff hpersist]
  rw [Outgoing.sentLabel_eq hpersist] at hcodec
  have hcheck : ∀ (moves : List OutboundMove) (t : OutboundState) (later : Int),
      Steps.Run (OutboundMove.step host) { s with labels, db } moves t →
      (checkAuthority host t later o.effect.kind (host.encode o.effect label) = .ok () ↔
        label.authorityPolicyRevision = some t.policyRevision ∧
        ∀ principalId, o.authority.map Prod.fst = some principalId →
          t.principals principalId = some L ∧ L.classTag = label.sourceTrustClass ∧ L.InForce later) := by
    intro moves t later hmoves
    rw [checkAuthority_eq_ok hcodec hsourced hpersist (OutboundMove.run_keeps hmoves).1]
    refine and_congr_right fun _ => ?_
    cases hauthority : o.authority with
    | none => simp
    | some authority =>
      obtain ⟨principalId, fingerprint⟩ := authority
      obtain ⟨-, rfl⟩ := hL principalId fingerprint hauthority
      constructor
      · rintro h principalId' hp
        cases hp
        obtain ⟨level, hlevel, hfp, hclass, hforce⟩ := h principalId _ rfl
        obtain rfl := hsha level hfp
        exact ⟨hlevel, hclass, hforce⟩
      · rintro h principalId' fingerprint' heq
        cases heq
        obtain ⟨hlevel, hclass, hforce⟩ := h principalId rfl
        exact ⟨L, hlevel, rfl, hclass, hforce⟩
  constructor
  · -- the state right after queueing tells: nothing has changed there
    intro h
    by_cases hforce : o.authority ≠ none ∧ ¬ L.InForce now
    · exact .inl hforce
    refine .inr ?_
    have hstands : Stands { s with labels, db } now s.policyRevision L (o.authority.map Prod.fst) := by
      refine ⟨rfl, fun principalId hp => ?_⟩
      obtain ⟨⟨principalId', fingerprint⟩, hauthority, rfl⟩ := Option.map_eq_some_iff.1 hp
      refine ⟨(hL principalId' fingerprint hauthority).1, ?_⟩
      by_contra hnot
      exact hforce ⟨by simp [hauthority], hnot⟩
    have hok := (h [] _ now rfl (le_refl now)).2 hstands
    obtain ⟨hrevision, hprincipal⟩ := (hcheck [] _ now rfl).1 hok
    refine ⟨hrevision, fun hne => ?_⟩
    obtain ⟨authority, hauthority⟩ := Option.ne_none_iff_exists'.1 hne
    exact (hprincipal authority.1 (by rw [hauthority]; rfl)).2.1.symm
  · intro h moves t later hmoves hlater
    rw [hcheck moves t later hmoves]
    rcases h with ⟨hne, hforce⟩ | ⟨hrevision, hclass⟩
    · -- a grant out of force is refused, and does not stand
      obtain ⟨authority, hauthority⟩ := Option.ne_none_iff_exists'.1 hne
      have hp : o.authority.map Prod.fst = some authority.1 := by rw [hauthority]; rfl
      constructor
      · rintro ⟨-, h⟩
        exact absurd ((h authority.1 hp).2.2.mono hlater) hforce
      · rintro ⟨-, h⟩
        exact absurd ((h authority.1 hp).2.mono hlater) hforce
    · constructor
      · rintro ⟨hpolicy, h⟩
        refine ⟨Option.mem_unique hpolicy hrevision, fun principalId hp => ?_⟩
        exact ⟨(h principalId hp).1, (h principalId hp).2.2⟩
      · rintro ⟨hpolicy, h⟩
        refine ⟨by rw [hrevision, hpolicy], fun principalId hp => ?_⟩
        obtain ⟨hlevel, hforce⟩ := h principalId hp
        have hne : o.authority ≠ none := by
          intro hnone
          rw [hnone] at hp
          cases hp
        exact ⟨hlevel, (hclass hne).symm, hforce⟩

/-! ## A reply given twice -/

/-- A host on the text `ok`, the controller's trust level, and one payload. -/
def okHost (payload : List UInt8) (effect : TransportEffect) (label : InformationLabel) : OutboundHost where
  digest _ := "2689367b205c16ce32ed4200942b8b8b1e262dfc70d9bc9fbc77c49699a4f1df"
  fingerprint level :=
    if level = .controller then "aef824d6fd372909937c6d1b2945f8880eab1351dacf70ae21d8b2365440a3b5" else ""
  encode _ _ := payload
  decode _ _ := .ok (effect, label)
  scopeKey cid channel recipient := s!"{cid}:{channel}:{recipient}"
  mintScoped cid _ ordinal := s!"{cid}:scope:{ordinal}"

def askedState (policyRevision : Int) : OutboundState where
  db := {}
  labels := []
  trustClass _ := some "Controller"
  principals id := if id = "p" then some .controller else none
  policyRevision := policyRevision
  controllerId := some "p"
  replay _ := .ok [⟨1, .userMsg, some (.obj [("sender_principal_id", .str "p")])⟩]

/-- The answer `ok`, second event of its conversation. -/
def okReply (cid : String) : SendRequest := .text cid 2 "sms" "bob" "ok" "m1"

def okEffect : TransportEffect :=
  .send { channel := "sms", recipient := "bob", text := "ok", modelSeq := some 2, archiveMessageId := some "m1" }

def okLabel : InformationLabel where
  sensitivity := .sensitive
  ownerId := some "c"
  sourceTrustClass := "Controller"
  allowedDestinations := ["transport:sms:bob".toList]
  provenance := [⟨"conversation_output", "event:2", some "c", "Controller", none⟩]
  authorityPrincipalId := some "p"
  authorityFingerprint := some "aef824d6fd372909937c6d1b2945f8880eab1351dacf70ae21d8b2365440a3b5"
  authorityPolicyRevision := some 1

/-- `okEffect` and `okLabel` in MessagePack. -/
def okPayload : List UInt8 := [
  146, 149, 163, 115, 109, 115, 163, 98, 111, 98, 162, 111, 107, 2, 162, 109, 49, 153, 169, 115, 101, 110, 115, 105, 116,
  105, 118, 101, 161, 99, 170, 67, 111, 110, 116, 114, 111, 108, 108, 101, 114, 145, 177, 116, 114, 97, 110, 115, 112, 111,
  114, 116, 58, 115, 109, 115, 58, 98, 111, 98, 145, 149, 179, 99, 111, 110, 118, 101, 114, 115, 97, 116, 105, 111, 110, 95,
  111, 117, 116, 112, 117, 116, 167, 101, 118, 101, 110, 116, 58, 50, 161, 99, 170, 67, 111, 110, 116, 114, 111, 108, 108,
  101, 114, 192, 192, 161, 112, 217, 64, 97, 101, 102, 56, 50, 52, 100, 54, 102, 100, 51, 55, 50, 57, 48, 57, 57, 51, 55,
  99, 54, 100, 49, 98, 50, 57, 52, 53, 102, 56, 56, 56, 48, 101, 97, 98, 49, 51, 53, 49, 100, 97, 99, 102, 55, 48, 97, 101,
  50, 49, 100, 56, 98, 50, 51, 54, 53, 52, 52, 48, 97, 51, 98, 53, 1]

def okRow (id : Int) (cid : String) : OutboxRec where
  id := id
  idempotencyKey := s!"{cid}:2:0"
  conversationId := cid
  effectKind := "transport.send"
  payload := okPayload
  status := .pending
  attempts := 0
  nextAttemptAt := none
  lastError := none
  enqueuedSeq := 2

def okOutgoing : Outgoing where
  conversationId := "c"
  key := "c:2:0"
  sourceId := "event:2"
  effect := okEffect
  authority := some ("p", "aef824d6fd372909937c6d1b2945f8880eab1351dacf70ae21d8b2365440a3b5")
  enqueuedSeq := 2
  failure := "persist transport effect: "

theorem revalidation_iff_reply :
    (∀ (moves : List OutboundMove) (t : OutboundState) (later : Int),
        Steps.Run (OutboundMove.step (okHost okPayload okEffect okLabel))
          ((okReply "c").enqueue (okHost okPayload okEffect okLabel) 10 (askedState 1)).2 moves t → 10 ≤ later →
        (checkAuthority (okHost okPayload okEffect okLabel) t later (okRow 1 "c").effectKind (okRow 1 "c").payload =
            .ok () ↔
          Stands t later 1 .controller (okOutgoing.authority.map Prod.fst))) ↔
      (okOutgoing.authority ≠ none ∧ ¬ TrustLevel.InForce 10 .controller) ∨
        okOutgoing.Current (okHost okPayload okEffect okLabel) (askedState 1) .controller := by
  have hrun : Steps.Run (OutboundMove.step (okHost okPayload okEffect okLabel)) (askedState 1) [] (askedState 1) := rfl
  have hreq : (okReply "c").outgoing (okHost okPayload okEffect okLabel) (askedState 1) = .ok okOutgoing := by rfl
  refine revalidation_iff (okHost okPayload okEffect okLabel) .controller ?_ rfl hrun (okReply "c") hreq rfl 10
    (by decide +kernel) (by decide +kernel) ?_
  · intro level h
    by_contra hne
    simp [okHost, hne] at h
  · rintro principalId fingerprint ⟨⟩
    exact ⟨rfl, rfl⟩

/-- **The same answer in another conversation**, after the policy was revised: refused, though nothing changed since. -/
theorem same_reply_rejected :
    let host := okHost okPayload okEffect okLabel
    let first := ((okReply "c").enqueue host 10 (askedState 1)).2
    let revised := { first with policyRevision := 2 }
    let second := ((okReply "d").enqueue host 20 revised).2
    okRow 2 "d" ∈ second.db.outbox ∧ okRow 2 "d" ∉ revised.db.outbox ∧ Stands second 20 2 .controller (some "p") ∧
      checkAuthority host second 20 "transport.send" okPayload = .error "outbound policy changed before delivery" := by
  refine ⟨by decide +kernel, by decide +kernel, ⟨rfl, ?_⟩, rfl⟩
  rintro principalId ⟨⟩
  exact ⟨rfl, trivial⟩

end Execlaw
