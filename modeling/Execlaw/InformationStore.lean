import Execlaw.Attachments
import Execlaw.InformationLabels
import Execlaw.Outbox
/-!
# InformationStore — the labels of data at rest (`core/src/information_store.rs`)

Labels are events of a subject, which is a content under one identity; the last one counts.  A subject is labelled once,
by `observe` or by `transform`; afterwards an operator may only add an exception (`declassify`), and the rest of the
label never changes (`LabelHistory.Keeps`).
-/
namespace Execlaw

/-! ## The code -/

structure InformationSubject where
  kind : String
  id : String
  sha256 : String
deriving DecidableEq

structure LabelEvent where
  subject : InformationSubject
  operation : String
  label : InformationLabel
  actorId : String
  scope : Option String
  createdAt : Int

abbrev LabelHistory := List LabelEvent

def validateSubject (s : InformationSubject) : Except DbError Unit :=
  if (trim s.kind).isEmpty || 64 < s.kind.utf8ByteSize || (trim s.id).isEmpty || 256 < s.id.utf8ByteSize ||
      s.sha256.utf8ByteSize ≠ 64 || !s.sha256.toList.all isAsciiHexdigit then
    .error (.invariant "information subject is invalid")
  else .ok ()

def validateLabelActor (actorId : String) : Except DbError Unit :=
  if (trim actorId).isEmpty || 128 < actorId.utf8ByteSize then .error (.invariant "information label actor is invalid")
  else .ok ()

namespace LabelHistory

/-- The label of a subject: `ORDER BY rowid DESC LIMIT 1`. -/
def lookup (labels : LabelHistory) (subject : InformationSubject) : Option InformationLabel :=
  ((labels.filter (·.subject = subject)).getLast?).map LabelEvent.label

def get (labels : LabelHistory) (subject : InformationSubject) : Except DbError (Option InformationLabel) :=
  match validateSubject subject with
  | .error e => .error e
  | .ok () => .ok (labels.lookup subject)

def latestForIdentity (labels : LabelHistory) (kind id : String) :
    Except DbError (Option (InformationSubject × InformationLabel)) :=
  if (trim kind).isEmpty || 64 < kind.utf8ByteSize || (trim id).isEmpty || 256 < id.utf8ByteSize then
    .error (.invariant "information identity is invalid")
  else
    .ok (((labels.filter fun ev => ev.subject.kind = kind ∧ ev.subject.id = id).getLast?).map fun ev =>
      (ev.subject, ev.label))

def observe (labels : LabelHistory) (subject : InformationSubject) (label : InformationLabel) (actorId : String)
    (at_ : Int) : Except DbError LabelHistory := do
  validateSubject subject
  validateLabelActor actorId
  if label.sensitivity.rank < Sensitivity.internal.rank then
    .error (.invariant "observed runtime information cannot be labelled below Internal")
  else if labels.any (·.subject = subject) then
    .error (.invariant "information subject already has a label history")
  else .ok (labels ++ [⟨subject, "observed", label, actorId, none, at_⟩])

def transform (labels : LabelHistory) (output : InformationSubject) (sources : List InformationSubject)
    (operation actorId : String) (at_ : Int) : Except DbError (InformationLabel × LabelHistory) := do
  validateSubject output
  validateLabelActor actorId
  if (trim operation).isEmpty || 128 < operation.utf8ByteSize || sources.isEmpty then
    .error (.invariant "information transformation needs a bounded operation and source")
  else
    let sourceLabels ← sources.mapM labels.get
    match sourceLabels.mapM id with
    | none => .error (.invariant "information transformation source label is missing")
    | some found =>
      match InformationLabel.combine found operation with
      | none => .error (.invariant "information transformation has no sources")
      | some label =>
        if labels.any (·.subject = output) then
          .error (.invariant "transformed information subject already has a label history")
        else .ok (label, labels ++ [⟨output, "transformed", label, actorId, some operation, at_⟩])

end LabelHistory

def LabelHistory.declassify (labels : LabelHistory) (subject : InformationSubject) (actorId destination scope : String)
    (at_ : Int) : Except DbError (InformationLabel × LabelHistory) := do
  validateSubject subject
  validateLabelActor actorId
  match ← labels.get subject with
  | none => .error (.invariant "information label does not exist")
  | some label =>
    match label.declassify actorId destination scope at_ with
    | .error e => .error (.invariant e)
    | .ok label => .ok (label, labels ++ [⟨subject, "declassified", label, actorId, some scope, at_⟩])

/-! ## What a history keeps -/

variable {labels labels' : LabelHistory} {subject : InformationSubject} {label : InformationLabel} {ev : LabelEvent}
  {actorId destination scope operation : String} {at_ : Int} {sources : List InformationSubject}

theorem LabelHistory.lookup_append : LabelHistory.lookup (labels ++ [ev]) subject =
    if ev.subject = subject then some ev.label else labels.lookup subject := by
  unfold LabelHistory.lookup
  rw [List.filter_append]
  by_cases h : ev.subject = subject <;> simp [h]

theorem LabelHistory.lookup_eq_none (h : labels.any (·.subject = subject) = false) : labels.lookup subject = none := by
  have hnil : labels.filter (·.subject = subject) = [] := by
    rw [List.filter_eq_nil_iff]
    simpa using h
  simp [LabelHistory.lookup, hnil]

structure InformationLabel.UpToException (l l' : InformationLabel) : Prop where
  sensitivity : l'.sensitivity = l.sensitivity
  ownerId : l'.ownerId = l.ownerId
  sourceTrustClass : l'.sourceTrustClass = l.sourceTrustClass
  allowedDestinations : l'.allowedDestinations = l.allowedDestinations
  provenance : l'.provenance = l.provenance
  authorityPrincipalId : l'.authorityPrincipalId = l.authorityPrincipalId
  authorityFingerprint : l'.authorityFingerprint = l.authorityFingerprint
  authorityPolicyRevision : l'.authorityPolicyRevision = l.authorityPolicyRevision

theorem InformationLabel.UpToException.refl (l : InformationLabel) : l.UpToException l :=
  ⟨rfl, rfl, rfl, rfl, rfl, rfl, rfl, rfl⟩

theorem InformationLabel.UpToException.trans {a b c : InformationLabel} (h : a.UpToException b)
    (h' : b.UpToException c) : a.UpToException c where
  sensitivity := h'.sensitivity.trans h.sensitivity
  ownerId := h'.ownerId.trans h.ownerId
  sourceTrustClass := h'.sourceTrustClass.trans h.sourceTrustClass
  allowedDestinations := h'.allowedDestinations.trans h.allowedDestinations
  provenance := h'.provenance.trans h.provenance
  authorityPrincipalId := h'.authorityPrincipalId.trans h.authorityPrincipalId
  authorityFingerprint := h'.authorityFingerprint.trans h.authorityFingerprint
  authorityPolicyRevision := h'.authorityPolicyRevision.trans h.authorityPolicyRevision

theorem LabelHistory.checked_eq_ok {α : Type} {k : Except DbError α} {a : α}
    (h : (do validateSubject subject; validateLabelActor actorId; k) = .ok a) :
    validateSubject subject = .ok () ∧ k = .ok a := by
  cases hsubject : validateSubject subject with
  | error e => simp [hsubject, bind, Except.bind] at h
  | ok u =>
    cases hactor : validateLabelActor actorId with
    | error e => simp [hsubject, hactor, bind, Except.bind] at h
    | ok v => exact ⟨rfl, by simpa only [hsubject, hactor, bind, Except.bind] using h⟩

theorem LabelHistory.observe_eq_ok (h : labels.observe subject label actorId at_ = .ok labels') :
    labels.lookup subject = none ∧ validateSubject subject = .ok () ∧
      labels' = labels ++ [⟨subject, "observed", label, actorId, none, at_⟩] := by
  obtain ⟨hsubject, h⟩ := LabelHistory.checked_eq_ok h
  split_ifs at h with _ hany
  exact ⟨LabelHistory.lookup_eq_none (by simpa using hany), hsubject, (Except.ok.inj h).symm⟩

theorem LabelHistory.transform_eq_ok (h : labels.transform subject sources operation actorId at_ = .ok (label, labels')) :
    labels.lookup subject = none ∧
      labels' = labels ++ [⟨subject, "transformed", label, actorId, some operation, at_⟩] := by
  obtain ⟨-, h⟩ := LabelHistory.checked_eq_ok h
  simp only [bind, Except.bind] at h
  split at h
  · cases h
  split at h
  · cases h
  split at h
  · cases h
  split at h
  · cases h
  split_ifs at h with hany
  cases h
  exact ⟨LabelHistory.lookup_eq_none (by simpa using hany), rfl⟩

theorem LabelHistory.declassify_eq_ok
    (h : labels.declassify subject actorId destination scope at_ = .ok (label, labels')) :
    ∃ l, labels.lookup subject = some l ∧ l.UpToException label ∧
      labels' = labels ++ [⟨subject, "declassified", label, actorId, some scope, at_⟩] := by
  obtain ⟨hsubject, h⟩ := LabelHistory.checked_eq_ok h
  simp only [hsubject, bind, Except.bind, LabelHistory.get] at h
  cases hl : labels.lookup subject with
  | none => simp [hl] at h
  | some l =>
    simp only [hl, InformationLabel.declassify] at h
    split_ifs at h
    cases h
    exact ⟨l, rfl, ⟨rfl, rfl, rfl, rfl, rfl, rfl, rfl, rfl⟩, rfl⟩

def LabelHistory.Keeps (labels labels' : LabelHistory) : Prop :=
  ∀ subject l, labels.lookup subject = some l → ∃ l', labels'.lookup subject = some l' ∧ l.UpToException l'

theorem LabelHistory.Keeps.refl (labels : LabelHistory) : labels.Keeps labels := fun _ l h =>
  ⟨l, h, InformationLabel.UpToException.refl l⟩

theorem LabelHistory.Keeps.trans {a b c : LabelHistory} (h : a.Keeps b) (h' : b.Keeps c) : a.Keeps c := by
  intro subject l hl
  obtain ⟨m, hm, hsame⟩ := h subject l hl
  obtain ⟨n, hn, hsame'⟩ := h' subject m hm
  exact ⟨n, hn, hsame.trans hsame'⟩

theorem LabelHistory.keeps_new (h : labels.lookup ev.subject = none) : labels.Keeps (labels ++ [ev]) := by
  intro subject l hl
  have hne : ev.subject ≠ subject := by
    rintro rfl
    rw [h] at hl
    cases hl
  exact ⟨l, by rw [LabelHistory.lookup_append, if_neg hne, hl], InformationLabel.UpToException.refl l⟩

theorem LabelHistory.keeps_observe (h : labels.observe subject label actorId at_ = .ok labels') :
    labels.Keeps labels' := by
  obtain ⟨hnone, -, rfl⟩ := LabelHistory.observe_eq_ok h
  exact LabelHistory.keeps_new hnone

theorem LabelHistory.keeps_transform
    (h : labels.transform subject sources operation actorId at_ = .ok (label, labels')) : labels.Keeps labels' := by
  obtain ⟨hnone, rfl⟩ := LabelHistory.transform_eq_ok h
  exact LabelHistory.keeps_new hnone

theorem LabelHistory.keeps_declassify
    (h : labels.declassify subject actorId destination scope at_ = .ok (label, labels')) : labels.Keeps labels' := by
  obtain ⟨l, hl, hsame, rfl⟩ := LabelHistory.declassify_eq_ok h
  intro other m hm
  by_cases hother : subject = other
  · subst hother
    cases hl.symm.trans hm
    exact ⟨label, by rw [LabelHistory.lookup_append, if_pos rfl], hsame⟩
  · exact ⟨m, by rw [LabelHistory.lookup_append, if_neg hother, hm], InformationLabel.UpToException.refl m⟩

/-! ## Parts of a history -/

def LabelHistory.restrict (p : InformationSubject → Bool) (labels : LabelHistory) : LabelHistory :=
  labels.filter (p ·.subject)

variable {p : InformationSubject → Bool} {output : InformationSubject} {kind id : String}

theorem LabelHistory.restrict_append_one : LabelHistory.restrict p (labels ++ [ev]) =
    if p ev.subject then labels.restrict p ++ [ev] else labels.restrict p := by
  by_cases h : p ev.subject <;> simp [LabelHistory.restrict, h]

theorem LabelHistory.filter_restrict {q : LabelEvent → Bool} (h : ∀ ev, q ev → p ev.subject) :
    (labels.restrict p).filter q = labels.filter q := by
  unfold LabelHistory.restrict
  rw [List.filter_filter]
  refine List.filter_congr fun ev _ => ?_
  by_cases hq : q ev
  · simp [hq, h ev hq]
  · simp [hq]

theorem LabelHistory.lookup_restrict (hp : p subject) : (labels.restrict p).lookup subject = labels.lookup subject := by
  unfold LabelHistory.lookup
  rw [LabelHistory.filter_restrict]
  intro ev hev
  rwa [of_decide_eq_true hev]

theorem LabelHistory.get_restrict (hp : p subject) : (labels.restrict p).get subject = labels.get subject := by
  unfold LabelHistory.get
  rw [LabelHistory.lookup_restrict hp]

theorem LabelHistory.any_restrict (hp : p subject) :
    (labels.restrict p).any (·.subject = subject) = labels.any (·.subject = subject) := by
  unfold LabelHistory.restrict
  rw [List.any_filter]
  congr 1
  funext ev
  by_cases hev : ev.subject = subject
  · simp [hev, hp]
  · simp [hev]

theorem LabelHistory.latestForIdentity_restrict (hp : ∀ subject : InformationSubject, subject.kind = kind → p subject) :
    (labels.restrict p).latestForIdentity kind id = labels.latestForIdentity kind id := by
  unfold LabelHistory.latestForIdentity
  rw [LabelHistory.filter_restrict]
  intro ev hev
  exact hp _ (of_decide_eq_true hev).1

theorem LabelHistory.observe_restrict (hp : p subject) :
    (labels.restrict p).observe subject label actorId at_ =
      (labels.observe subject label actorId at_).map (LabelHistory.restrict p) := by
  unfold LabelHistory.observe
  cases validateSubject subject with
  | error e => rfl
  | ok u =>
    cases validateLabelActor actorId with
    | error e => rfl
    | ok v =>
      simp only [bind, Except.bind, LabelHistory.any_restrict hp]
      split_ifs
      · rfl
      · rfl
      · simp [Except.map, LabelHistory.restrict_append_one, hp]

theorem LabelHistory.transform_restrict (hout : p output) (hsources : ∀ s ∈ sources, p s) :
    (labels.restrict p).transform output sources operation actorId at_ =
      (labels.transform output sources operation actorId at_).map fun r => (r.1, r.2.restrict p) := by
  have hget : sources.mapM (labels.restrict p).get = sources.mapM labels.get := by
    induction sources with
    | nil => rfl
    | cons s sources ih =>
      rw [List.mapM_cons, List.mapM_cons, LabelHistory.get_restrict (hsources s List.mem_cons_self),
        ih fun s hs => hsources s (List.mem_cons_of_mem _ hs)]
  unfold LabelHistory.transform
  cases validateSubject output with
  | error e => rfl
  | ok u =>
    cases validateLabelActor actorId with
    | error e => rfl
    | ok v =>
      simp only [bind, Except.bind, hget, LabelHistory.any_restrict hout]
      split
      · rfl
      split
      · rfl
      split
      · rfl
      split
      · rfl
      split_ifs
      · rfl
      · simp [Except.map, LabelHistory.restrict_append_one, hout]

theorem LabelHistory.declassify_restrict (hp : p subject) :
    (labels.restrict p).declassify subject actorId destination scope at_ =
      (labels.declassify subject actorId destination scope at_).map fun r => (r.1, r.2.restrict p) := by
  unfold LabelHistory.declassify
  cases validateSubject subject with
  | error e => rfl
  | ok u =>
    cases validateLabelActor actorId with
    | error e => rfl
    | ok v =>
      simp only [bind, Except.bind, LabelHistory.get_restrict hp]
      split
      · rfl
      split
      · rfl
      split
      · rfl
      · simp [Except.map, LabelHistory.restrict_append_one, hp]

end Execlaw
