import Execlaw.Calls
import Execlaw.Db
import Execlaw.Keyed
import Mathlib.Data.List.Induction
/-!
# TransportConversations — where inbound messages go (`core/src/transport_conversations.rs`)

A mapping is a plugin, a handle and a principal; its rows are the conversations it went to, and at most one of them is
current.  A resolution goes on with the current one inside the idle window and mints one otherwise; the row before stays,
rotated away.  `TransportConversationRow.place` is the primary key, so a conversation stands in one row of a mapping only:
a mapping cannot be sent back to a conversation it was rotated away from.
-/
namespace Execlaw

open Table

/-! ## The code -/

structure TransportMapping where
  pluginId : String
  transportHandle : String
  principalId : String
deriving DecidableEq

structure TransportConversationRow where
  mapping : TransportMapping
  conversationId : String
  isCurrent : Bool
  lastMessageAt : Int
deriving DecidableEq

def TransportConversationRow.place (r : TransportConversationRow) : TransportMapping × String :=
  (r.mapping, r.conversationId)

abbrev TransportConversations := Keyed TransportConversationRow.place (fun _ => True)

def controllerThreadId (controllerPrincipalId : String) : String := s!"controller-thread:{controllerPrincipalId}"

def transportConversationTaken : DbError :=
  .sqlite ("UNIQUE constraint failed: transport_conversations.plugin_id, " ++
    "transport_conversations.transport_handle, transport_conversations.principal_id, " ++
    "transport_conversations.conversation_id")

def TransportConversationRow.currentOf (m : TransportMapping) (r : TransportConversationRow) : Bool :=
  decide (r.mapping = m) && r.isCurrent

namespace TransportConversations

def getCurrent (m : TransportMapping) (t : TransportConversations) : Option TransportConversationRow :=
  t.rows.find? (·.currentOf m)

def retarget (m : TransportMapping) (conversationId : String) (now : Int) (r : TransportConversationRow) :
    TransportConversationRow :=
  if r.currentOf m then { r with conversationId := conversationId, lastMessageAt := now } else r

/-- `retarget_current`: the update moves a row, and fails where another one stands. -/
def retargetCurrent (m : TransportMapping) (conversationId : String) (now : Int) (t : TransportConversations) :
    Except DbError Bool × TransportConversations :=
  if h : ((t.rows.map (retarget m conversationId now)).map TransportConversationRow.place).Nodup then
    (.ok (t.getCurrent m).isSome, ⟨t.rows.map (retarget m conversationId now), h, fun _ _ => trivial⟩)
  else (.error transportConversationTaken, t)

def rotateChange (m : TransportMapping) : Change TransportConversationRow.place (fun _ => True) where
  takes := (·.currentOf m)
  set := fun r => { r with isCurrent := false }
  key_set := fun _ => rfl
  keeps_ok := fun _ _ _ => trivial

def rotate (m : TransportMapping) (fresh : String) (now : Int) (t : TransportConversations) :
    Except DbError (String × TransportConversations) :=
  match (t.updateAll (rotateChange m)).insert? ⟨m, fresh, true, now⟩ trivial with
  | none => .error transportConversationTaken
  | some t => .ok (fresh, t)

/-- `force_rotate_current`, one transaction; `fresh` is the id it draws. -/
def forceRotateCurrent (m : TransportMapping) (fresh : String) (now : Int) (t : TransportConversations) :
    Except DbError (Option String) × TransportConversations :=
  match t.getCurrent m with
  | none => (.ok none, t)
  | some _ => Calls.transact (fun t => (rotate m fresh now t).map fun p => (some p.1, p.2)) t

def deleteForConversation (conversationId : String) (t : TransportConversations) : Nat × TransportConversations :=
  (t.rows.countP (fun r => decide (r.conversationId = conversationId)),
    t.removeAll (fun r => decide (r.conversationId = conversationId)))

end TransportConversations

structure ResolveInput where
  mapping : TransportMapping
  isController : Bool
  idleTimeoutMs : Option Int
  now : Int

inductive ResolveOutcome
  | controller (conversationId : String)
  | continued (conversationId : String)
  | minted (conversationId : String)
deriving DecidableEq

namespace TransportConversations

def touchLast (now : Int) : Change TransportConversationRow.place (fun _ => True) where
  takes := fun _ => true
  set := fun r => { r with lastMessageAt := now }
  key_set := fun _ => rfl
  keeps_ok := fun _ _ _ => trivial

def withinIdleWindow (input : ResolveInput) (lastAt : Int) : Bool :=
  input.idleTimeoutMs.all fun timeoutMs => decide (input.now - lastAt < timeoutMs.tdiv 1000)

/-- `resolve_or_mint`; `fresh` is the id it draws. -/
def resolveOrMint (input : ResolveInput) (fresh : String) (t : TransportConversations) :
    Except DbError ResolveOutcome × TransportConversations :=
  if input.isController then (.ok (.controller (controllerThreadId input.mapping.principalId)), t)
  else
    let mint := Calls.transact (fun t => (rotate input.mapping fresh input.now t).map fun p =>
      (ResolveOutcome.minted p.1, p.2)) t
    match t.getCurrent input.mapping with
    | none => mint
    | some r =>
      if withinIdleWindow input r.lastMessageAt then
        (.ok (.continued r.conversationId), t.update (input.mapping, r.conversationId) (touchLast input.now))
      else mint

end TransportConversations

inductive RoutingCall
  | resolve (input : ResolveInput) (fresh : String)
  | retarget (mapping : TransportMapping) (conversationId : String) (now : Int)
  | forceRotate (mapping : TransportMapping) (fresh : String) (now : Int)
  | delete (conversationId : String)

inductive RoutingReply
  | resolved (outcome : ResolveOutcome)
  | retargeted (changed : Bool)
  | rotated (fresh : Option String)
  | deleted (rows : Nat)
deriving DecidableEq

namespace TransportConversations

/-- **One call**, and what it answers. -/
def exec (t : TransportConversations) : RoutingCall → Except DbError RoutingReply × TransportConversations
  | .resolve input fresh => let (reply, t) := resolveOrMint input fresh t; (reply.map .resolved, t)
  | .retarget m conversationId now => let (reply, t) := retargetCurrent m conversationId now t; (reply.map .retargeted, t)
  | .forceRotate m fresh now => let (reply, t) := forceRotateCurrent m fresh now t; (reply.map .rotated, t)
  | .delete conversationId => let (rows, t) := deleteForConversation conversationId t; (.ok (.deleted rows), t)

end TransportConversations

namespace RoutingCall

def now? : RoutingCall → Option Int
  | .resolve input _ => some input.now
  | .retarget _ _ now => some now
  | .forceRotate _ _ now => some now
  | .delete _ => none

def mapping? : RoutingCall → Option TransportMapping
  | .resolve input _ => some input.mapping
  | .retarget m _ _ => some m
  | .forceRotate m _ _ => some m
  | .delete _ => none

def drawn? : RoutingCall → Option String
  | .resolve _ fresh => some fresh
  | .forceRotate _ fresh _ => some fresh
  | _ => none

end RoutingCall

namespace TransportConversations

def Fresh (t : TransportConversations) (c : RoutingCall) : Prop :=
  ∀ fresh ∈ c.drawn?, ∀ r ∈ t.rows, r.conversationId ≠ fresh

def Forward (calls : List RoutingCall) : Prop := (calls.filterMap RoutingCall.now?).Pairwise (· ≤ ·)

def OneCurrent (t : TransportConversations) : Prop :=
  ∀ r ∈ t.rows, ∀ r' ∈ t.rows, r.mapping = r'.mapping → r.isCurrent = true → r'.isCurrent = true → r = r'

def Below (input : ResolveInput) (lastAt : Int) : Prop :=
  ∀ timeoutMs ∈ input.idleTimeoutMs, (input.now - lastAt) * 1000 < timeoutMs

structure Resolves (t : TransportConversations) (input : ResolveInput) (fresh : String) : Prop where
  continues : ∀ r, t.getCurrent input.mapping = some r → Below input r.lastMessageAt →
    (exec t (.resolve input fresh)).1 = .ok (.resolved (.continued r.conversationId)) ∧
    (exec t (.resolve input fresh)).2.getCurrent input.mapping = some { r with lastMessageAt := input.now }
  mints : (∀ r, t.getCurrent input.mapping = some r → ¬ Below input r.lastMessageAt) →
    (exec t (.resolve input fresh)).1 = .ok (.resolved (.minted fresh)) ∧
    (exec t (.resolve input fresh)).2.getCurrent input.mapping = some ⟨input.mapping, fresh, true, input.now⟩

def Retargets (t : TransportConversations) (m : TransportMapping) (conversationId : String) (now : Int) : Prop :=
  ∀ r, t.getCurrent m = some r →
    (exec t (.retarget m conversationId now)).1 = .ok (.retargeted true) ∧
    (exec t (.retarget m conversationId now)).2.getCurrent m =
      some { r with conversationId := conversationId, lastMessageAt := now }

/-- **What routing promises** of a run from the empty table. -/
structure RoutingLaws (calls : List RoutingCall) : Prop where
  oneCurrent : ∀ pre post, calls = pre ++ post → OneCurrent (Calls.after exec .empty pre)
  resolves : ∀ pre input fresh post, calls = pre ++ .resolve input fresh :: post → input.isController = false →
    Resolves (Calls.after exec .empty pre) input fresh
  rotated : ∀ pre mid post r, calls = pre ++ (mid ++ post) → r ∈ (Calls.after exec .empty pre).rows →
    r.isCurrent = false → (∀ c ∈ mid, c ≠ .delete r.conversationId) → r ∈ (Calls.after exec .empty (pre ++ mid)).rows
  retargets : ∀ pre m conversationId now post, calls = pre ++ .retarget m conversationId now :: post →
    Retargets (Calls.after exec .empty pre) m conversationId now
  framed : ∀ pre c post m r, calls = pre ++ c :: post → c.mapping? = some m → r.mapping ≠ m →
    (r ∈ (Calls.after exec .empty (pre ++ [c])).rows ↔ r ∈ (Calls.after exec .empty pre).rows)

/-- **The calls that keep to the laws**: a retarget of an existing mapping goes to no conversation the mapping was rotated
away from, and a resolution does not fall into the last started second of a window that is not of whole seconds. -/
def Clear (t : TransportConversations) : RoutingCall → Prop
  | .retarget m conversationId _ => (t.getCurrent m).isSome = true →
      ∀ r ∈ t.rows, r.mapping = m → r.conversationId = conversationId → r.isCurrent = true
  | .resolve input _ => input.isController = false → ∀ r ∈ t.getCurrent input.mapping,
      ∀ timeoutMs ∈ input.idleTimeoutMs,
        ¬ (input.now - r.lastMessageAt = timeoutMs.tdiv 1000 ∧ 0 < timeoutMs.tmod 1000)
  | _ => True

/-! ## What a call does -/

structure Moves (t : TransportConversations) (c : RoutingCall) (m : TransportMapping)
    (f : TransportConversationRow → TransportConversationRow) : Prop where
  mapping : ∀ r ∈ t.rows, (f r).mapping = r.mapping
  current : ∀ r ∈ t.rows, (f r).isCurrent = true → r.isCurrent = true
  other : ∀ r ∈ t.rows, r.currentOf m = false → f r = r
  time : ∀ r ∈ t.rows, (f r).lastMessageAt = r.lastMessageAt ∨ c.now? = some (f r).lastMessageAt

/-- **What a call does** to the rows. -/
inductive Effect (t : TransportConversations) (c : RoutingCall) (t' : TransportConversations) : Prop
  | moved (m : TransportMapping) (f : TransportConversationRow → TransportConversationRow) (call : c.mapping? = some m)
      (rows : t'.rows = t.rows.map f) (moves : Moves t c m f)
  | minted (m : TransportMapping) (f : TransportConversationRow → TransportConversationRow)
      (new : TransportConversationRow) (call : c.mapping? = some m) (rows : t'.rows = t.rows.map f ++ [new])
      (moves : Moves t c m f) (left : ∀ r ∈ t.rows, r.mapping = m → (f r).isCurrent = false) (mapping : new.mapping = m)
      (time : c.now? = some new.lastMessageAt)
  | deleted (conversationId : String) (call : c = .delete conversationId)
      (rows : t'.rows = t.rows.filter (fun r => !decide (r.conversationId = conversationId)))

variable {t t' : TransportConversations} {m : TransportMapping} {c : RoutingCall}

theorem Moves.refl : Moves t c m id := ⟨fun _ _ => rfl, fun _ _ => id, fun _ _ _ => rfl, fun _ _ => .inl rfl⟩

theorem Effect.same (call : c.mapping? = some m) : Effect t c t :=
  .moved m id call (List.map_id _).symm .refl

variable {r : TransportConversationRow}

theorem currentOf_iff : r.currentOf m = true ↔ r.mapping = m ∧ r.isCurrent = true := by
  simp [TransportConversationRow.currentOf]

theorem getCurrent_some (h : t.getCurrent m = some r) : r ∈ t.rows ∧ r.mapping = m ∧ r.isCurrent = true :=
  ⟨List.mem_of_find?_eq_some h, currentOf_iff.1 (List.find?_some h)⟩

theorem getCurrent_eq (h : OneCurrent t) (hr : r ∈ t.rows) (hm : r.mapping = m) (hc : r.isCurrent = true) :
    t.getCurrent m = some r := by
  have hsome : (t.getCurrent m).isSome = true := List.find?_isSome.2 ⟨r, hr, currentOf_iff.2 ⟨hm, hc⟩⟩
  obtain ⟨q, hq⟩ := Option.isSome_iff_exists.1 hsome
  obtain ⟨hmem, hqm, hqc⟩ := getCurrent_some hq
  rw [hq, h q hmem r hr (hqm.trans hm.symm) hqc hc]

theorem place_inj {r r' : TransportConversationRow} (hr : r ∈ t.rows) (hr' : r' ∈ t.rows) (h : r.place = r'.place) :
    r = r' :=
  List.inj_on_of_nodup_map t.unique hr hr' h

theorem moves_retarget (conversationId : String) (now : Int) :
    Moves t (.retarget m conversationId now) m (retarget m conversationId now) where
  mapping := by
    intro r _
    unfold retarget
    split <;> rfl
  current := by
    intro r _
    unfold retarget
    split <;> exact id
  other := by
    intro r _ h
    rw [retarget, if_neg (by simp [h])]
  time := by
    intro r _
    unfold retarget
    split
    · exact .inr rfl
    · exact .inl rfl

def rotateRow (m : TransportMapping) (r : TransportConversationRow) : TransportConversationRow :=
  if r.currentOf m then { r with isCurrent := false } else r

theorem moves_rotate : Moves t c m (rotateRow m) where
  mapping := by
    intro r _
    unfold rotateRow
    split <;> rfl
  current := by
    intro r _
    unfold rotateRow
    split
    · nofun
    · exact id
  other := by
    intro r _ h
    rw [rotateRow, if_neg (by simp [h])]
  time := by
    intro r _
    unfold rotateRow
    split <;> exact .inl rfl

theorem rotated_left (h : r.mapping = m) : (rotateRow m r).isCurrent = false := by
  unfold rotateRow
  split
  · rfl
  · next hc => exact Bool.eq_false_iff.2 fun hcur => hc (currentOf_iff.2 ⟨h, hcur⟩)

theorem rotate_ok {fresh id : String} {now : Int} (h : rotate m fresh now t = .ok (id, t')) :
    id = fresh ∧ t'.rows = t.rows.map (rotateRow m) ++ [⟨m, fresh, true, now⟩] := by
  unfold rotate at h
  split at h
  · cases h
  next t₁ hins =>
  obtain ⟨hid, rfl⟩ := Prod.mk.inj (Except.ok.inj h)
  exact ⟨hid.symm, Keyed.rows_insert? hins⟩

variable {fresh : String}

theorem rotate_of_fresh {now : Int} (h : ∀ r ∈ t.rows, r.conversationId ≠ fresh) :
    ∃ t', rotate m fresh now t = .ok (fresh, t') := by
  unfold rotate
  split
  · next hnone =>
    exfalso
    obtain ⟨q, hq⟩ := Option.isSome_iff_exists.1 (Keyed.insert?_eq_none.1 hnone)
    rw [Keyed.row_updateAll] at hq
    obtain ⟨r, hr, -⟩ := Option.map_eq_some_iff.1 hq
    obtain ⟨hmem, hplace⟩ := Keyed.row_iff.1 hr
    exact h r hmem (congrArg Prod.snd hplace)
  · exact ⟨_, rfl⟩

theorem transact_rotate {α : Type} (m : TransportMapping) (fresh : String) (now : Int) (g : String → α)
    (t : TransportConversations) :
    (∃ e, Calls.transact (fun t => (rotate m fresh now t).map fun p => (g p.1, p.2)) t = (.error e, t) ∧
        rotate m fresh now t = .error e) ∨
      ∃ t', Calls.transact (fun t => (rotate m fresh now t).map fun p => (g p.1, p.2)) t = (.ok (g fresh), t') ∧
        t'.rows = t.rows.map (rotateRow m) ++ [⟨m, fresh, true, now⟩] := by
  cases hrot : rotate m fresh now t with
  | error e => exact .inl ⟨e, by rw [Calls.transact, hrot]; rfl, rfl⟩
  | ok p =>
    obtain ⟨hid, hrows⟩ := rotate_ok hrot
    exact .inr ⟨p.2, by rw [Calls.transact, hrot, ← hid]; rfl, hrows⟩

theorem effect_rotate {α : Type} {now : Int} (call : c.mapping? = some m) (hnow : c.now? = some now) (fresh : String)
    (g : String → α) :
    Effect t c (Calls.transact (fun t => (rotate m fresh now t).map fun p => (g p.1, p.2)) t).2 := by
  rcases transact_rotate m fresh now g t with ⟨e, h, -⟩ | ⟨t', h, hrows⟩
  · rw [h]
    exact .same call
  · rw [h]
    exact .minted m _ _ call hrows moves_rotate (fun r _ h => rotated_left h) rfl hnow

theorem exec_effect (t : TransportConversations) (c : RoutingCall) : Effect t c (exec t c).2 := by
  cases c with
  | resolve input fresh =>
    simp only [exec, resolveOrMint]
    split
    · exact .same rfl
    cases hcur : t.getCurrent input.mapping with
    | none => exact effect_rotate rfl rfl _ _
    | some r =>
      obtain ⟨hmem, hm, hc⟩ := getCurrent_some hcur
      dsimp only
      split
      · refine .moved input.mapping _ rfl rfl ⟨fun q _ => ?_, fun q _ => ?_, fun q hq hother => if_neg fun hplace => ?_,
          fun q _ => ?_⟩
        · split <;> rfl
        · split <;> exact id
        · obtain rfl := place_inj hq hmem (hplace.trans (congrArg (·, r.conversationId) hm.symm))
          rw [currentOf_iff.2 ⟨hm, hc⟩] at hother
          cases hother
        · split
          · exact .inr rfl
          · exact .inl rfl
      · exact effect_rotate rfl rfl _ _
  | retarget m conversationId now =>
    simp only [exec, retargetCurrent]
    split
    · exact .moved m _ rfl rfl (moves_retarget conversationId now)
    · exact .same rfl
  | forceRotate m fresh now =>
    simp only [exec, forceRotateCurrent]
    split
    · exact .same rfl
    · exact effect_rotate rfl rfl _ _
  | delete conversationId => exact .deleted conversationId rfl rfl

/-! ## What holds of any run -/

theorem Effect.mem (h : Effect t c t') {r' : TransportConversationRow} (hr' : r' ∈ t'.rows) :
    (∃ r ∈ t.rows, r'.mapping = r.mapping ∧ (r'.isCurrent = true → r.isCurrent = true) ∧
      (r'.lastMessageAt = r.lastMessageAt ∨ c.now? = some r'.lastMessageAt)) ∨ c.now? = some r'.lastMessageAt := by
  have hmoved : ∀ {m f}, Moves t c m f → ∀ {r'}, r' ∈ t.rows.map f → ∃ r ∈ t.rows, r'.mapping = r.mapping ∧
      (r'.isCurrent = true → r.isCurrent = true) ∧
      (r'.lastMessageAt = r.lastMessageAt ∨ c.now? = some r'.lastMessageAt) := by
    intro m f hmoves r' hr'
    obtain ⟨r, hr, rfl⟩ := List.mem_map.1 hr'
    exact ⟨r, hr, hmoves.mapping r hr, hmoves.current r hr, hmoves.time r hr⟩
  cases h with
  | moved m f call rows moves =>
    rw [rows] at hr'
    exact .inl (hmoved moves hr')
  | minted m f new call rows moves left mapping time =>
    rw [rows, List.mem_append, List.mem_singleton] at hr'
    rcases hr' with hr' | rfl
    · exact .inl (hmoved moves hr')
    · exact .inr time
  | deleted conversationId call rows =>
    rw [rows] at hr'
    exact .inl ⟨r', (List.mem_filter.1 hr').1, rfl, id, .inl rfl⟩

variable {f : TransportConversationRow → TransportConversationRow}

theorem OneCurrent.moved (h : OneCurrent t) (hmoves : Moves t c m f) {q q' : TransportConversationRow}
    (hq : q ∈ t.rows.map f) (hq' : q' ∈ t.rows.map f) (hm : q.mapping = q'.mapping) (hc : q.isCurrent = true)
    (hc' : q'.isCurrent = true) : q = q' := by
  obtain ⟨r, hr, rfl⟩ := List.mem_map.1 hq
  obtain ⟨r', hr', rfl⟩ := List.mem_map.1 hq'
  rw [hmoves.mapping r hr, hmoves.mapping r' hr'] at hm
  rw [h r hr r' hr' hm (hmoves.current r hr hc) (hmoves.current r' hr' hc')]

theorem not_current_of_left (hmoves : Moves t c m f) (left : ∀ r ∈ t.rows, r.mapping = m → (f r).isCurrent = false)
    {q : TransportConversationRow} (hq : q ∈ t.rows.map f) (hm : q.mapping = m) : q.isCurrent = false := by
  obtain ⟨r, hr, rfl⟩ := List.mem_map.1 hq
  exact left r hr ((hmoves.mapping r hr).symm.trans hm)

theorem OneCurrent.effect (h : OneCurrent t) (he : Effect t c t') : OneCurrent t' := by
  intro q hq q' hq' hm hc hc'
  cases he with
  | moved m f call rows moves =>
    rw [rows] at hq hq'
    exact h.moved moves hq hq' hm hc hc'
  | minted m f new call rows moves left mapping time =>
    rw [rows, List.mem_append, List.mem_singleton] at hq hq'
    rcases hq with hq | rfl <;> rcases hq' with hq' | rfl
    · exact h.moved moves hq hq' hm hc hc'
    · rw [not_current_of_left moves left hq (hm.trans mapping)] at hc
      cases hc
    · rw [not_current_of_left moves left hq' (hm.symm.trans mapping)] at hc'
      cases hc'
    · rfl
  | deleted conversationId call rows =>
    rw [rows] at hq hq'
    exact h q (List.mem_filter.1 hq).1 q' (List.mem_filter.1 hq').1 hm hc hc'

theorem oneCurrent_after (calls : List RoutingCall) : OneCurrent (Calls.after exec .empty calls) :=
  Calls.after_invariant (fun t c h => h.effect (exec_effect t c)) nofun calls

theorem time_after (calls : List RoutingCall) :
    ∀ r ∈ (Calls.after exec .empty calls).rows, r.lastMessageAt ∈ calls.filterMap RoutingCall.now? := by
  induction calls using List.reverseRecOn with
  | nil => nofun
  | append_singleton calls c ih =>
    intro r hr
    rw [Calls.after_snoc] at hr
    rw [List.filterMap_append, List.mem_append]
    have hnow : c.now? = some r.lastMessageAt → r.lastMessageAt ∈ [c].filterMap RoutingCall.now? := by
      intro h
      rw [List.filterMap_cons_some h]
      exact List.mem_cons_self
    rcases (exec_effect _ c).mem hr with ⟨q, hq, -, -, hlast | hlast⟩ | hlast
    · rw [hlast]
      exact .inl (ih q hq)
    · exact .inr (hnow hlast)
    · exact .inr (hnow hlast)

theorem Effect.rotated (h : Effect t c t') (hr : r ∈ t.rows) (hrot : r.isCurrent = false)
    (hc : c ≠ .delete r.conversationId) : r ∈ t'.rows := by
  have hother : ∀ m, r.currentOf m = false := fun m => Bool.eq_false_iff.2 fun hcur => by
    rw [(currentOf_iff.1 hcur).2] at hrot
    cases hrot
  cases h with
  | moved m f call rows moves =>
    rw [rows]
    exact List.mem_map.2 ⟨r, hr, moves.other r hr (hother m)⟩
  | minted m f new call rows moves left mapping time =>
    rw [rows]
    exact List.mem_append_left _ (List.mem_map.2 ⟨r, hr, moves.other r hr (hother m)⟩)
  | deleted conversationId call rows =>
    rw [rows]
    refine List.mem_filter.2 ⟨hr, ?_⟩
    rw [Bool.not_eq_true', decide_eq_false_iff_not]
    rintro rfl
    exact hc call

theorem rotated_after {calls : List RoutingCall} (hr : r ∈ t.rows) (hrot : r.isCurrent = false)
    (hcalls : ∀ c ∈ calls, c ≠ .delete r.conversationId) : r ∈ (Calls.after exec t calls).rows := by
  induction calls generalizing t with
  | nil => exact hr
  | cons c calls ih =>
    obtain ⟨hc, hcalls⟩ := List.forall_mem_cons.1 hcalls
    exact ih ((exec_effect t c).rotated hr hrot hc) hcalls

theorem Effect.framed (h : Effect t c t') (hm : c.mapping? = some m) (hr : r.mapping ≠ m) :
    r ∈ t'.rows ↔ r ∈ t.rows := by
  have hother : ∀ {q : TransportConversationRow}, q.mapping ≠ m → q.currentOf m = false := fun hq =>
    Bool.eq_false_iff.2 fun hcur => hq (currentOf_iff.1 hcur).1
  have hmap : ∀ {f}, Moves t c m f → (r ∈ t.rows.map f ↔ r ∈ t.rows) := by
    intro f hmoves
    rw [List.mem_map]
    constructor
    · rintro ⟨q, hq, rfl⟩
      rw [hmoves.mapping q hq] at hr
      rwa [hmoves.other q hq (hother hr)]
    · exact fun hmem => ⟨r, hmem, hmoves.other r hmem (hother hr)⟩
  cases h with
  | moved m' f call rows moves =>
    cases hm.symm.trans call
    rw [rows, hmap moves]
  | minted m' f new call rows moves left mapping time =>
    cases hm.symm.trans call
    rw [rows, List.mem_append, List.mem_singleton, hmap moves, or_iff_left]
    rintro rfl
    exact hr mapping
  | deleted conversationId call rows =>
    rw [call] at hm
    cases hm

/-! ## The calls that keep to the laws -/

theorem window_iff {gap timeoutMs : Int} (hgap : 0 ≤ gap) :
    (gap < timeoutMs.tdiv 1000 ↔ gap * 1000 < timeoutMs) ↔ ¬ (gap = timeoutMs.tdiv 1000 ∧ 0 < timeoutMs.tmod 1000) := by
  rcases Int.le_total 0 timeoutMs with hpos | hneg
  · rw [Int.tdiv_eq_ediv_of_nonneg hpos, Int.tmod_eq_emod_of_nonneg hpos]
    omega
  · -- below zero no gap is inside
    obtain ⟨s, rfl⟩ : ∃ s : Int, timeoutMs = -s := ⟨-timeoutMs, by omega⟩
    rw [Int.neg_tdiv, Int.neg_tmod, Int.tdiv_eq_ediv_of_nonneg (by omega), Int.tmod_eq_emod_of_nonneg (by omega)]
    omega

theorem clear_resolve_iff {input : ResolveInput} (hcontroller : input.isController = false)
    (hr : t.getCurrent input.mapping = some r) (hnow : r.lastMessageAt ≤ input.now) : Clear t (.resolve input fresh) ↔
      (withinIdleWindow input r.lastMessageAt = true ↔ Below input r.lastMessageAt) := by
  have hclear : Clear t (.resolve input fresh) ↔ ∀ timeoutMs ∈ input.idleTimeoutMs,
      ¬ (input.now - r.lastMessageAt = timeoutMs.tdiv 1000 ∧ 0 < timeoutMs.tmod 1000) := by
    constructor
    · exact fun h => h hcontroller r hr
    · intro h _ q hq
      cases hr.symm.trans hq
      exact h
  rw [hclear, withinIdleWindow, Below]
  cases input.idleTimeoutMs with
  | none => simp
  | some timeoutMs =>
    simp only [Option.mem_some_iff, forall_eq', Option.all_some, decide_eq_true_eq]
    exact (window_iff (by omega)).symm

theorem resolves_iff {input : ResolveInput} (hone : OneCurrent t) (hfresh : ∀ r ∈ t.rows, r.conversationId ≠ fresh)
    (hcontroller : input.isController = false) (hnow : ∀ r ∈ t.rows, r.lastMessageAt ≤ input.now) :
    Resolves t input fresh ↔ Clear t (.resolve input fresh) := by
  have hone' := hone.effect (exec_effect t (.resolve input fresh))
  -- a resolution that mints
  have hmint : (exec t (.resolve input fresh)).2 = (Calls.transact (fun t => (rotate input.mapping fresh input.now t).map
        fun p => (ResolveOutcome.minted p.1, p.2)) t).2 →
      (exec t (.resolve input fresh)).1 = (Calls.transact (fun t => (rotate input.mapping fresh input.now t).map
        fun p => (ResolveOutcome.minted p.1, p.2)) t).1.map .resolved →
      (exec t (.resolve input fresh)).1 = .ok (.resolved (.minted fresh)) ∧
      (exec t (.resolve input fresh)).2.getCurrent input.mapping = some ⟨input.mapping, fresh, true, input.now⟩ := by
    intro hstate hanswer
    rcases transact_rotate input.mapping fresh input.now ResolveOutcome.minted t with ⟨e, -, herr⟩ | ⟨t', htx, hrows⟩
    · obtain ⟨t', hok⟩ := @rotate_of_fresh _ input.mapping _ input.now hfresh
      rw [herr] at hok
      cases hok
    · rw [htx] at hstate hanswer
      refine ⟨hanswer, getCurrent_eq hone' ?_ rfl rfl⟩
      rw [hstate, hrows]
      exact List.mem_append_right _ (List.mem_singleton_self _)
  cases hcur : t.getCurrent input.mapping with
  | none =>
    have hminted := hmint (by simp only [exec, resolveOrMint, hcontroller, hcur]; rfl)
      (by simp only [exec, resolveOrMint, hcontroller, hcur]; rfl)
    refine iff_of_true ⟨fun r hr => ?_, fun _ => hminted⟩ fun _ r hr => ?_
    · rw [hcur] at hr
      cases hr
    · rw [hcur] at hr
      cases hr
  | some r =>
    obtain ⟨hmem, hm, hc⟩ := getCurrent_some hcur
    rw [clear_resolve_iff hcontroller hcur (hnow r hmem)]
    cases hwithin : withinIdleWindow input r.lastMessageAt with
    | true =>
      have hexec : exec t (.resolve input fresh) = (.ok (.resolved (.continued r.conversationId)),
          t.update (input.mapping, r.conversationId) (touchLast input.now)) := by
        simp only [exec, resolveOrMint, hcontroller, hcur, hwithin]
        rfl
      rw [hexec] at hone'
      constructor
      · intro h
        refine iff_of_true rfl (Classical.byContradiction fun hbelow => ?_)
        have hanswer := (h.mints fun q hq => Option.mem_unique hcur hq ▸ hbelow).1
        rw [hexec] at hanswer
        cases hanswer
      · refine fun h => ⟨fun q hq _ => ?_, fun hall => absurd (h.1 rfl) (hall r hcur)⟩
        cases hcur.symm.trans hq
        rw [hexec]
        refine ⟨rfl, getCurrent_eq hone' ?_ hm hc⟩
        exact List.mem_map.2 ⟨r, hmem, if_pos (by rw [← hm]; rfl)⟩
    | false =>
      have hminted := hmint (by simp only [exec, resolveOrMint, hcontroller, hcur, hwithin]; rfl)
        (by simp only [exec, resolveOrMint, hcontroller, hcur, hwithin]; rfl)
      constructor
      · intro h
        refine iff_of_false Bool.false_ne_true fun hbelow => ?_
        have hanswer := (h.continues r hcur hbelow).1
        rw [hminted.1] at hanswer
        cases hanswer
      · refine fun h => ⟨fun q hq hbelow => ?_, fun _ => hminted⟩
        cases hcur.symm.trans hq
        exact absurd (h.2 hbelow) Bool.false_ne_true

theorem retargets_iff {conversationId : String} {now : Int} (hone : OneCurrent t) :
    Retargets t m conversationId now ↔ Clear t (.retarget m conversationId now) := by
  cases hcur : t.getCurrent m with
  | none =>
    refine iff_of_true (fun r hr => ?_) fun hsome => ?_
    · rw [hcur] at hr
      cases hr
    · rw [hcur] at hsome
      cases hsome
  | some r =>
    obtain ⟨hmem, hm, hc⟩ := getCurrent_some hcur
    have hset : retarget m conversationId now r =
        { r with conversationId := conversationId, lastMessageAt := now } := if_pos (currentOf_iff.2 ⟨hm, hc⟩)
    constructor
    · intro h _ q hq hqm hqc
      have hanswer := (h r hcur).1
      simp only [exec, retargetCurrent] at hanswer
      split at hanswer
      · next hnodup =>
        rw [List.map_map] at hnodup
        by_contra hrot
        have hkeep : retarget m conversationId now q = q := if_neg fun hcurq => hrot (currentOf_iff.1 hcurq).2
        have hqr : q = r := by
          refine List.inj_on_of_nodup_map hnodup hq hmem ?_
          simp [hkeep, hset, TransportConversationRow.place, hqm, hqc, hm]
        exact hrot (hqr ▸ hc)
      · cases hanswer
    · intro h q hq
      cases hcur.symm.trans hq
      have hclear := h (by rw [hcur]; rfl)
      have hnodup : ((t.rows.map (retarget m conversationId now)).map TransportConversationRow.place).Nodup := by
        rw [List.map_map]
        refine (List.Nodup.of_map _ t.unique).map_on fun x hx y hy hxy => ?_
        simp only [Function.comp_apply, retarget] at hxy
        split at hxy <;> split at hxy
        · next hx' hy' =>
          obtain ⟨hxm, hxc⟩ := currentOf_iff.1 hx'
          obtain ⟨hym, hyc⟩ := currentOf_iff.1 hy'
          exact hone x hx y hy (hxm.trans hym.symm) hxc hyc
        · next hx' hy' =>
          obtain ⟨hplace, hconv⟩ := Prod.mk.inj hxy
          have hym := hplace.symm.trans (currentOf_iff.1 hx').1
          exact absurd (currentOf_iff.2 ⟨hym, hclear y hy hym hconv.symm⟩) hy'
        · next hx' hy' =>
          obtain ⟨hplace, hconv⟩ := Prod.mk.inj hxy
          have hxm := hplace.trans (currentOf_iff.1 hy').1
          exact absurd (currentOf_iff.2 ⟨hxm, hclear x hx hxm hconv⟩) hx'
        · exact place_inj hx hy hxy
      have hexec : exec t (.retarget m conversationId now) = (.ok (.retargeted true),
          ⟨t.rows.map (retarget m conversationId now), hnodup, fun _ _ => trivial⟩) := by
        simp only [exec, retargetCurrent, dif_pos hnodup, hcur]
        rfl
      have hone' := hone.effect (exec_effect t (.retarget m conversationId now))
      rw [hexec] at hone' ⊢
      exact ⟨rfl, getCurrent_eq hone' (List.mem_map.2 ⟨r, hmem, hset⟩) hm hc⟩

theorem Forward.now_le {pre post : List RoutingCall} (h : Forward (pre ++ c :: post)) {now : Int}
    (hnow : c.now? = some now) : ∀ r ∈ (Calls.after exec .empty pre).rows, r.lastMessageAt ≤ now := by
  intro r hr
  rw [Forward, List.filterMap_append, List.filterMap_cons_some hnow, List.pairwise_append] at h
  exact h.2.2 _ (time_after pre r hr) now List.mem_cons_self

/-- **Routing keeps its laws in exactly the runs of clear calls**: of those where every id drawn is fresh and the clock
never goes back. -/
theorem routing_iff {calls : List RoutingCall} (hclock : Forward calls)
    (hfresh : Calls.Guarded exec Fresh .empty calls) : RoutingLaws calls ↔ Calls.Guarded exec Clear .empty calls := by
  have hresolves : ∀ pre input fresh post, calls = pre ++ .resolve input fresh :: post → input.isController = false →
      (Resolves (Calls.after exec .empty pre) input fresh ↔
        Clear (Calls.after exec .empty pre) (.resolve input fresh)) := by
    intro pre input fresh post hcalls hcontroller
    refine resolves_iff (oneCurrent_after pre) ?_ hcontroller ?_
    · exact hfresh pre _ post hcalls fresh rfl
    · rw [hcalls] at hclock
      exact hclock.now_le rfl
  constructor
  · intro h pre c post hcalls
    cases c with
    | resolve input fresh =>
      intro hcontroller
      exact (hresolves pre input fresh post hcalls hcontroller).1 (h.resolves pre input fresh post hcalls hcontroller)
        hcontroller
    | retarget m conversationId now =>
      exact (retargets_iff (oneCurrent_after pre)).1 (h.retargets pre m conversationId now post hcalls)
    | forceRotate m fresh now | delete conversationId => exact trivial
  · intro h
    refine ⟨fun pre post _ => oneCurrent_after pre, ?_, ?_, ?_, ?_⟩
    · intro pre input fresh post hcalls hcontroller
      exact (hresolves pre input fresh post hcalls hcontroller).2 (h pre _ post hcalls)
    · intro pre mid post r _ hr hrot hmid
      rw [Calls.after_append]
      exact rotated_after hr hrot hmid
    · intro pre m conversationId now post hcalls
      exact (retargets_iff (oneCurrent_after pre)).2 (h pre _ post hcalls)
    · intro pre c post m r _ hm hr
      rw [Calls.after_snoc]
      exact (exec_effect _ c).framed hm hr

/-! ## There and back -/

instance (t : TransportConversations) (c : RoutingCall) : Decidable (Fresh t c) :=
  inferInstanceAs (Decidable (∀ fresh ∈ c.drawn?, _))

instance (t : TransportConversations) : ∀ c, Decidable (Clear t c)
  | .retarget _ _ _ => inferInstanceAs (Decidable (_ → _))
  | .resolve _ _ => inferInstanceAs (Decidable (_ → _))
  | .forceRotate _ _ _ => .isTrue trivial
  | .delete _ => .isTrue trivial

def sampleMapping : TransportMapping := ⟨"signal", "+15550100", "alice"⟩

def movedOn : List RoutingCall :=
  [.resolve ⟨sampleMapping, false, some 60000, 100⟩ "a", .resolve ⟨sampleMapping, false, some 60000, 300⟩ "b",
    .retarget sampleMapping "c" 301, .delete "a", .retarget sampleMapping "a" 302]

theorem routing_movedOn : RoutingLaws movedOn := by
  refine (routing_iff (by unfold Forward; decide) ?_).2 ?_
  · simp only [movedOn, Calls.guarded_cons]
    exact ⟨by decide, by decide, by decide, by decide, by decide, Calls.guarded_nil _⟩
  · simp only [movedOn, Calls.guarded_cons]
    exact ⟨by decide, by decide, by decide, by decide, by decide, Calls.guarded_nil _⟩

def sentBack : List RoutingCall :=
  [.resolve ⟨sampleMapping, false, some 60000, 100⟩ "a", .resolve ⟨sampleMapping, false, some 60000, 300⟩ "b",
    .retarget sampleMapping "a" 301]

/-- **The way back is closed**, though the clock and the ids are in order. -/
theorem sentBack_fails : Forward sentBack ∧ Calls.Guarded exec Fresh .empty sentBack ∧ ¬ RoutingLaws sentBack := by
  refine ⟨by unfold Forward; decide, ?_, fun h => ?_⟩
  · simp only [sentBack, Calls.guarded_cons]
    exact ⟨by decide, by decide, by decide, Calls.guarded_nil _⟩
  · have hcur : (Calls.after exec .empty (sentBack.take 2)).getCurrent sampleMapping =
        some ⟨sampleMapping, "b", true, 300⟩ := by decide
    have hanswer := (h.retargets (sentBack.take 2) sampleMapping "a" 301 [] rfl _ hcur).1
    revert hanswer
    decide

end TransportConversations

end Execlaw
