import Execlaw.SkillTables
import Execlaw.Triples
/-!
# SkillRuns — the skill store over whole runs

Every transaction keeps the invariant (`Sound`) and moves the store on (`Evolves`): versions are added and never change
until their skill is forgotten, what is forgotten stays forgotten, and proposals are decided once.  Both hold over any
run in which calls come between the transactions of other calls and stop at any point.
-/
namespace Execlaw

open Table Interleave Steps

namespace SkillStore

variable {lib : SkillLib} {s s' s'' : SkillStore}

/-- **The invariant.** -/
structure Sound (lib : SkillLib) (s : SkillStore) : Prop where
  ordered : Ordered s.forgotten s.skills s.versions
  written : ∀ r ∈ s.skills, versionsIn s.versions r.id ≠ []
  shells : Shells lib s.forgotten s.skills s.versions s.index
  stored : Stored lib s.forgotten s.versions s.resources s.blobs
  held : Held s.blobs s.resources
  listed : Listed s.versions s.proposals
  gated : Gated s.skills s.versions s.evalRuns
  tested : ∀ e ∈ s.evalRuns, e.versionId ∈ s.versions.map SkillVersion.id

theorem sound_empty (lib : SkillLib) : Sound lib empty where
  ordered := ⟨rfl, List.nodup_nil, rfl, by simp [empty], fun _ => Histories.linear_nil, by simp [empty]⟩
  written := by simp [empty]
  shells := ⟨by simp [empty, forgotten], by simp [empty], by simp [empty], rfl⟩
  stored := ⟨by simp [empty], List.nodup_nil, Refcounts.counted_nil, by simp [empty]⟩
  held := by simp [empty, Held]
  listed := ⟨rfl, fun _ => Nat.zero_le 1, by simp [empty]⟩
  gated := by simp [empty, Gated]
  tested := by simp [empty]

def Gone (lib : SkillLib) (name : String) (s : SkillStore) : Prop :=
  s.nameDeleted (privacyNameHash lib name) = true ∧ ∀ r ∈ s.skills, r.name = name → s.forgotten r.id = true

/-- A version without the notes, which `promote` overwrites. -/
def plain (v : SkillVersion) : SkillVersion := { v with promotionNotes := none }

theorem fields_of_plain {v w : SkillVersion} (h : plain v = plain w) : v.id = w.id ∧ v.skillId = w.skillId ∧
    v.version = w.version ∧ v.parentVersionId = w.parentVersionId ∧ v.searchRow = w.searchRow :=
  ⟨(congrArg SkillVersion.id h :), (congrArg SkillVersion.skillId h :), (congrArg SkillVersion.version h :),
    (congrArg SkillVersion.parentVersionId h :), (congrArg SkillVersion.searchRow h :)⟩

def stamp (lib : SkillLib) (s : SkillStore) (v : SkillVersion) : SkillVersion :=
  if s.forgotten v.skillId then scrubVersion lib v else plain v

structure Leads (p p' : SkillProposal) : Prop where
  kind : p'.kind = p.kind ∧ p'.targetSkillId = p.targetSkillId
  approved : p.state = .approved → p'.state = .approved ∧ p'.promotedSkillId = p.promotedSkillId ∧
    p'.promotedVersionId = p.promotedVersionId ∧ p'.reviewer = p.reviewer
  rejected : p.state = .rejected → p'.state = .rejected
  superseded : p.state = .superseded → p'.state = .superseded ∨ p'.state = .rejected

theorem Leads.refl (p : SkillProposal) : Leads p p := ⟨⟨rfl, rfl⟩, fun h => ⟨h, rfl, rfl, rfl⟩, id, .inl⟩

theorem Leads.of_pending {p p' : SkillProposal} (h : p.state = .pending) (hkind : p'.kind = p.kind)
    (htarget : p'.targetSkillId = p.targetSkillId) : Leads p p' := by
  refine ⟨⟨hkind, htarget⟩, fun hst => ?_, fun hst => ?_, fun hst => ?_⟩ <;> rw [h] at hst <;> cases hst

theorem Leads.trans {p q r : SkillProposal} (h : Leads p q) (h' : Leads q r) : Leads p r where
  kind := ⟨h'.kind.1.trans h.kind.1, h'.kind.2.trans h.kind.2⟩
  approved hp := by
    obtain ⟨hq, hskill, hversion, hreviewer⟩ := h.approved hp
    obtain ⟨hr, hskill', hversion', hreviewer'⟩ := h'.approved hq
    exact ⟨hr, hskill'.trans hskill, hversion'.trans hversion, hreviewer'.trans hreviewer⟩
  rejected hp := h'.rejected (h.rejected hp)
  superseded hp := (h.superseded hp).elim h'.superseded fun hq => .inr (h'.rejected hq)

/-- **What a later state keeps of an earlier one.** -/
structure Evolves (lib : SkillLib) (s s' : SkillStore) : Prop where
  tombstones : ∀ t ∈ s.tombstones, t ∈ s'.tombstones
  names : ∀ r ∈ s.skills, ∃ r' ∈ s'.skills, r'.id = r.id ∧ (s'.forgotten r.id = false → r'.name = r.name)
  fresh : ∀ r' ∈ s'.skills, s'.forgotten r'.id = false →
    s.nameDeleted (privacyNameHash lib r'.name) = false ∨ ∃ r ∈ s.skills, r.id = r'.id ∧ r.name = r'.name
  leaves : ∀ r ∈ s.skills, s.forgotten r.id = false → s'.forgotten r.id = true → Gone lib r.name s'
  versions : s.versions.map (stamp lib s') <+: s'.versions.map (stamp lib s')
  files : ∀ v ∈ s.versions, s'.forgotten v.skillId = false →
    filesOf s'.resources s'.blobs v.id = filesOf s.resources s.blobs v.id
  proposals : ∀ p ∈ s.proposals, ∃ p' ∈ s'.proposals, p'.id = p.id ∧ Leads p p'

theorem stamp_key (s : SkillStore) (v : SkillVersion) :
    (stamp lib s v).id = v.id ∧ (stamp lib s v).skillId = v.skillId := by
  unfold stamp
  split <;> exact ⟨rfl, rfl⟩

namespace Evolves

theorem nameDeleted (h : Evolves lib s s') {hash : String} (hd : s.nameDeleted hash = true) :
    s'.nameDeleted hash = true := by
  obtain ⟨t, ht, hhash⟩ := List.any_eq_true.1 hd
  exact List.any_eq_true.2 ⟨t, h.tombstones t ht, hhash⟩

theorem forgotten (h : Evolves lib s s') {k : Nat} (hk : s.forgotten k = true) : s'.forgotten k = true := by
  obtain ⟨t, ht, hid⟩ := List.any_eq_true.1 hk
  exact List.any_eq_true.2 ⟨t, h.tombstones t ht, hid⟩

theorem not_forgotten (h : Evolves lib s s') {k : Nat} (hk : s'.forgotten k = false) : s.forgotten k = false :=
  Bool.eq_false_iff.2 fun hs => Bool.eq_false_iff.1 hk (h.forgotten hs)

theorem onward (h : Evolves lib s s') : Onward s.versions s'.versions := by
  intro v hv
  obtain ⟨v', hv', heq⟩ := List.mem_map.1 (h.versions.subset (List.mem_map_of_mem hv))
  refine ⟨v', hv', ?_, ?_⟩
  · rw [← (stamp_key s' v').1, heq, (stamp_key s' v).1]
  · rw [← (stamp_key s' v').2, heq, (stamp_key s' v).2]

theorem gone (h : Evolves lib s s') {name : String} (hgone : Gone lib name s) : Gone lib name s' := by
  refine ⟨h.nameDeleted hgone.1, fun r' hr' hname => Bool.not_eq_false _ ▸ fun hk => ?_⟩
  rcases h.fresh r' hr' hk with hnew | ⟨r, hr, hid, hrname⟩
  · rw [hname, hgone.1] at hnew
    cases hnew
  · have hforgotten := h.forgotten (hgone.2 r hr (hrname.trans hname))
    rw [hid, hk] at hforgotten
    cases hforgotten

theorem refl (lib : SkillLib) (s : SkillStore) : Evolves lib s s where
  tombstones _ := id
  names r hr := ⟨r, hr, rfl, fun _ => rfl⟩
  fresh r hr _ := .inr ⟨r, hr, rfl, rfl⟩
  leaves r _ hk hk' := by rw [hk] at hk'; cases hk'
  versions := List.prefix_rfl
  files _ _ _ := rfl
  proposals p hp := ⟨p, hp, rfl, .refl p⟩

theorem trans (h : Evolves lib s s') (h' : Evolves lib s' s'') : Evolves lib s s'' where
  tombstones t ht := h'.tombstones t (h.tombstones t ht)
  names r hr := by
    obtain ⟨r', hr', hid, hname⟩ := h.names r hr
    obtain ⟨r'', hr'', hid', hname'⟩ := h'.names r' hr'
    rw [hid] at hid' hname'
    exact ⟨r'', hr'', hid', fun hk => (hname' hk).trans (hname (h'.not_forgotten hk))⟩
  fresh r'' hr'' hk := by
    rcases h'.fresh r'' hr'' hk with hnew | ⟨r', hr', hid, hname⟩
    · exact .inl (Bool.eq_false_iff.2 fun hs => Bool.eq_false_iff.1 hnew (h.nameDeleted hs))
    · rw [← hid] at hk
      rw [← hid, ← hname]
      exact h.fresh r' hr' (h'.not_forgotten hk)
  leaves r hr hk hk'' := by
    cases hk' : s'.forgotten r.id with
    | true => exact h'.gone (h.leaves r hr hk hk')
    | false =>
      obtain ⟨r', hr', hid, hname⟩ := h.names r hr
      rw [← hname hk']
      rw [← hid] at hk' hk''
      exact h'.leaves r' hr' hk' hk''
  versions := by
    have hstamp : stamp lib s'' ∘ stamp lib s' = stamp lib s'' := by
      funext v
      rw [Function.comp_apply, stamp, (stamp_key s' v).2, stamp, stamp]
      cases hk : s'.forgotten v.skillId with
      | true => rw [h'.forgotten hk]; rfl
      | false => cases s''.forgotten v.skillId <;> rfl
    have hfirst := h.versions.map (stamp lib s'')
    rw [List.map_map, List.map_map, hstamp] at hfirst
    exact hfirst.trans h'.versions
  files v hv hk := by
    obtain ⟨v', hv', hid, hskill⟩ := h.onward v hv
    rw [← hskill] at hk
    rw [← hid, h'.files v' hv' hk, hid, h.files v hv (hskill ▸ h'.not_forgotten hk)]
  proposals p hp := by
    obtain ⟨p', hp', hid, hleads⟩ := h.proposals p hp
    obtain ⟨p'', hp'', hid', hleads'⟩ := h'.proposals p' hp'
    exact ⟨p'', hp'', hid'.trans hid, hleads.trans hleads'⟩

end Evolves

def Move (lib : SkillLib) (s s' : SkillStore) : Prop := Sound lib s → Sound lib s' ∧ Evolves lib s s'

theorem Move.refl (s : SkillStore) : Move lib s s := fun h => ⟨h, .refl lib s⟩

theorem Move.trans (h : Move lib s s') (h' : Move lib s' s'') : Move lib s s'' := fun hs =>
  ⟨(h' (h hs).1).1, (h hs).2.trans (h' (h hs).1).2⟩

/-! ## Writes that add no version -/

theorem quiet (h : Sound lib s) (f : SkillRow → SkillRow) (g : SkillVersion → SkillVersion)
    (hs' : s' = { s with
      skills := s.skills.map f, versions := s.versions.map g, proposals := s'.proposals, evalCases := s'.evalCases
      evalRuns := s'.evalRuns })
    (hf : ∀ r, (f r).id = r.id ∧ (f r).name = r.name ∧ (f r).currentVersionId = r.currentVersionId)
    (harchived : ∀ r ∈ s.skills, s.forgotten r.id = true → (f r).state = .archived)
    (hg : ∀ v, plain (g v) = plain v)
    (hscrubbed : ∀ v ∈ s.versions, s.forgotten v.skillId = true → g v = v) (hlisted : Listed s.versions s'.proposals)
    (hgated : Gated s'.skills s'.versions s'.evalRuns)
    (htested : ∀ e ∈ s'.evalRuns, e.versionId ∈ s.versions.map SkillVersion.id)
    (hproposals : ∀ p ∈ s.proposals, ∃ p' ∈ s'.proposals, p'.id = p.id ∧ Leads p p') :
    Sound lib s' ∧ Evolves lib s s' := by
  rw [← map_rewrite fun v _ => (fields_of_plain (hg v)).1] at htested
  have hfields := fun v => fields_of_plain (hg v)
  have hkey : ∀ v, (g v).id = v.id ∧ (g v).skillId = v.skillId := fun v => ⟨(hfields v).1, (hfields v).2.1⟩
  have hon : Onward s.versions (s.versions.map g) := fun v hv =>
    ⟨g v, List.mem_map_of_mem hv, (hkey v).1, (hkey v).2⟩
  have hcurrent : ∀ r ∈ s.skills, (f r).currentVersionId = if s.forgotten r.id then none else r.currentVersionId := by
    intro r hr
    rw [(hf r).2.2, h.ordered.current r hr]
    cases s.forgotten r.id <;> rfl
  have hnames : ((s.skills.map f).map SkillRow.name).Nodup := by
    rw [map_rewrite fun r _ => (hf r).2.1]
    exact h.ordered.names
  have hordered : Ordered s.forgotten (s.skills.map f) (s.versions.map g) :=
    h.ordered.rewrite (fun v => ⟨(hkey v).1, (hkey v).2, (hfields v).2.2.1, (hfields v).2.2.2.1⟩) (fun _ => id)
      (fun r hr => ⟨(hf r).1, hcurrent r hr⟩) hnames
  have hshells : Shells lib s.forgotten (s.skills.map f) (s.versions.map g) s.index := by
    refine (h.shells.rows fun r hr => ⟨(hf r).1, fun hk _ => harchived r hr hk⟩).versions_map fun v hv => ?_
    refine ⟨(hkey v).2, (hfields v).2.2.2.2, fun hk => ?_⟩
    rw [hscrubbed v hv hk]
    exact h.shells.scrubbed v hv hk
  have hwritten : ∀ r ∈ s.skills.map f, versionsIn (s.versions.map g) r.id ≠ [] := by
    intro x hx
    obtain ⟨r, hr, rfl⟩ := List.mem_map.1 hx
    rw [versionsIn_map fun v => (hkey v).2, (hf r).1]
    exact mt List.map_eq_nil_iff.1 (h.written r hr)
  constructor
  · rw [hs'] at hgated ⊢
    exact ⟨hordered, hwritten, hshells, h.stored.versions_map hkey, h.held, hlisted.onward hon, hgated, htested⟩
  · rw [hs']
    refine ⟨fun _ => id, fun r hr => ⟨f r, List.mem_map_of_mem hr, (hf r).1, fun _ => (hf r).2.1⟩, fun x hx _ => ?_,
      fun r _ hk hk' => ?_, ?_, fun _ _ _ => rfl, hproposals⟩
    · obtain ⟨r, hr, rfl⟩ := List.mem_map.1 hx
      exact .inr ⟨r, hr, (hf r).1.symm, (hf r).2.1.symm⟩
    · rw [show s.forgotten r.id = true from hk'] at hk
      cases hk
    · have hstamp : (s.versions.map g).map (stamp lib s) = s.versions.map (stamp lib s) := map_rewrite fun v hv => by
        rw [stamp, stamp, (hkey v).2, hg v]
        cases hk : s.forgotten v.skillId with
        | true => rw [hscrubbed v hv hk]
        | false => rfl
      exact hstamp ▸ List.prefix_rfl

/-! ## Writes that add a version -/

theorem Gated.mono {skills skills' : List SkillRow} {versions versions' : List SkillVersion} {runs runs' : List EvalRun}
    (h : Gated skills versions runs) (hskills : ∀ r' ∈ skills', r'.state = .stable →
      ∃ r ∈ skills, r.state = .stable ∧ r.id = r'.id ∧ r.name = r'.name)
    (hversions : ∀ v ∈ versions, v ∈ versions') (hruns : ∀ e ∈ runs, e ∈ runs') : Gated skills' versions' runs' := by
  intro r' hr' hstable
  obtain ⟨r, hr, hstable, hid, hname⟩ := hskills r' hr' hstable
  obtain ⟨v, hv, hskill, e, he, heval⟩ := h r hr hstable
  exact ⟨v, hversions v hv, hskill.trans hid, e, hruns e he, heval.1.trans hname, heval.2⟩

variable (v : SkillVersion) (set : SkillRow → SkillRow)

theorem wrote (h : Sound lib s) {skills : List SkillRow} (ho : Ordered s.forgotten skills s.versions)
    (hsh : Shells lib s.forgotten skills s.versions s.index) (hold : ∀ r ∈ s.skills, r ∈ skills)
    (hnew : ∀ r ∈ skills, r ∈ s.skills ∨ r.id = v.skillId ∧ r.state = .trial ∧
      s.nameDeleted (privacyNameHash lib r.name) = false)
    (hset : ∀ r, (set r).id = r.id ∧ (set r).name = r.name ∧ (set r).currentVersionId = r.currentVersionId)
    (hstable : ∀ r, (set r).state = .stable → r.state = .stable) (hid : v.id = s.versions.length + 1)
    (howned : v.skillId ∈ skills.map SkillRow.id) (hgone : s.forgotten v.skillId = false)
    (hnumber : v.version = (versionsIn s.versions v.skillId).length + 1)
    (hparent : v.parentVersionId = (versionsIn s.versions v.skillId).getLast?.map SkillVersion.id)
    (hatt : ∀ t, t = { s with skills := skills }.writeVersion v set →
      Stored lib s.forgotten t.versions t.resources t.blobs → Held t.blobs t.resources →
      (∃ w ∈ t.versions, w.id = v.id ∧ s.forgotten w.skillId = false) → Attached lib s.forgotten v.id t s') :
    Sound lib s' ∧ Evolves lib s s' := by
  obtain ⟨hstored, hheld, hsame, hfiles⟩ := hatt _ rfl (h.stored.write v) h.held
    ⟨v, List.mem_append_right _ List.mem_cons_self, rfl, hgone⟩
  have hon : Onward s.versions (s.versions ++ [v]) := fun w hw => ⟨w, List.mem_append_left _ hw, rfl, rfl⟩
  let f := fun r : SkillRow => set { r with currentVersionId := some v.id }
  have hrow : ∀ x ∈ updateKey SkillRow.id v.skillId f skills, ∃ r ∈ skills, x.id = r.id ∧ x.name = r.name ∧
      (x.state = .stable → r.state = .stable) := by
    intro x hx
    obtain ⟨r, hr, rfl⟩ := mem_updateKey.1 hx
    refine ⟨r, hr, ?_⟩
    split
    · exact ⟨(hset _).1, (hset _).2.1, hstable { r with currentVersionId := some v.id }⟩
    · exact ⟨rfl, rfl, id⟩
  have hwritten : ∀ x ∈ updateKey SkillRow.id v.skillId f skills, versionsIn (s.versions ++ [v]) x.id ≠ [] := by
    intro x hx
    obtain ⟨r, hr, hxr, -, -⟩ := hrow x hx
    rw [versionsIn_snoc, hxr]
    by_cases hk : v.skillId = r.id
    · simp [hk]
    · have hr' := (hnew r hr).resolve_right fun hn => hk hn.1.symm
      simp [h.written r hr']
  have hgated : Gated (updateKey SkillRow.id v.skillId f skills) (s.versions ++ [v]) s.evalRuns := by
    refine h.gated.mono (fun x hx hst => ?_) (fun w hw => List.mem_append_left _ hw) fun _ => id
    obtain ⟨r, hr, hxr, hname, hst'⟩ := hrow x hx
    have hr' := (hnew r hr).resolve_right fun hn => by rw [hst' hst] at hn; cases hn.2.1
    exact ⟨r, hr', hst' hst, hxr.symm, hname.symm⟩
  have htested : ∀ e ∈ s.evalRuns, e.versionId ∈ (s.versions ++ [v]).map SkillVersion.id := fun e he => by
    rw [List.map_append]
    exact List.mem_append_left _ (h.tested e he)
  constructor
  · rw [hsame]
    exact ⟨ho.write hset hid howned hgone hnumber hparent, hwritten, hsh.write hgone fun r => (hset _).1, hstored, hheld,
      h.listed.onward hon, hgated, htested⟩
  · rw [hsame]
    refine ⟨fun _ => id, fun r hr => ?_, fun x hx _ => ?_, fun r _ hk hk' => ?_, ?_, fun w hw _ => ?_,
      fun p hp => ⟨p, hp, rfl, .refl p⟩⟩
    · refine ⟨if r.id = v.skillId then f r else r, List.mem_map_of_mem (hold r hr), ?_⟩
      split
      · exact ⟨(hset _).1, fun _ => (hset _).2.1⟩
      · exact ⟨rfl, fun _ => rfl⟩
    · obtain ⟨r, hr, hxr, hname, -⟩ := hrow x hx
      rcases hnew r hr with hr | ⟨-, -, hdel⟩
      · exact .inr ⟨r, hr, hxr.symm, hname.symm⟩
      · exact .inl (hname ▸ hdel)
    · rw [show s.forgotten r.id = true from hk'] at hk
      cases hk
    · exact (List.prefix_append s.versions [v]).map _
    · have hne : w.id ≠ v.id := fun heq => by
        refine next_notMem h.ordered.versionIds ?_
        rw [← hid, ← heq]
        exact List.mem_map_of_mem hw
      exact hfiles w.id hne

theorem wroteOn (h : Sound lib s) {name : String} {r : SkillRow} {current : Nat} (hr : s.skillNamed name = some r)
    (hcurrent : r.currentVersionId = some current)
    (hset : ∀ r, (set r).id = r.id ∧ (set r).name = r.name ∧ (set r).currentVersionId = r.currentVersionId)
    (hstable : ∀ r, (set r).state = .stable → r.state = .stable) (hid : v.id = s.versions.length + 1)
    (hskill : v.skillId = r.id) (hnumber : v.version = s.maxVersion r.id + 1)
    (hparent : v.parentVersionId = some current)
    (hatt : ∀ t, t = s.writeVersion v set → Stored lib s.forgotten t.versions t.resources t.blobs →
      Held t.blobs t.resources → (∃ w ∈ t.versions, w.id = v.id ∧ s.forgotten w.skillId = false) →
      Attached lib s.forgotten v.id t s') :
    Sound lib s' ∧ Evolves lib s s' := by
  have hmem := mem_of_byKey hr
  obtain ⟨hgone, hlast⟩ := h.ordered.of_current hmem hcurrent
  rw [← hskill] at hgone hlast hnumber
  have hmax : s.maxVersion v.skillId = (versionsIn s.versions v.skillId).length := (h.ordered.linear _).max_eq
  exact wrote v set h h.ordered h.shells (fun _ => id) (fun _ => .inl) hset hstable hid (hskill ▸ List.mem_map_of_mem hmem)
    hgone (hmax ▸ hnumber) (hparent.trans hlast.symm) hatt

theorem ensure_eq_ok {name : String} (h : s.ensureNameNotPrivacyDeleted lib name = .ok ()) :
    s.nameDeleted (privacyNameHash lib name) = false := by
  unfold ensureNameNotPrivacyDeleted at h
  dsimp only at h
  split at h
  · cases h
  · next hdel => exact Bool.eq_false_iff.2 hdel

variable {new : NewSkill}

theorem move_insertSkill (h : Sound lib s) {now : Int} {a : Nat}
    (hdel : s.nameDeleted (privacyNameHash lib new.name) = false) (hnone : s.skillNamed new.name = none)
    (hins : s.insertSkill lib new now = .ok (a, s')) : Sound lib s' ∧ Evolves lib s s' := by
  unfold insertSkill at hins
  obtain ⟨t, hatt, hins⟩ := bind_eq_ok.1 hins
  cases hins
  have hfresh : s.skills.length + 1 ∉ s.skills.map SkillRow.id := next_notMem h.ordered.ids
  have hgone : s.forgotten (s.skills.length + 1) = false :=
    Bool.eq_false_iff.2 fun hk => hfresh (h.shells.known _ hk)
  have hempty : versionsIn s.versions (s.skills.length + 1) = [] :=
    List.filter_eq_nil_iff.2 fun v hv heq => hfresh (of_decide_eq_true heq ▸ h.ordered.owned v hv)
  have hname : new.name ∉ s.skills.map SkillRow.name := byKey_eq_none.1 hnone
  refine wrote _ id h (h.ordered.push rfl hname rfl) (h.shells.push hfresh)
    (fun r hr => List.mem_append_left _ hr) (fun r hr => ?_) (fun _ => ⟨rfl, rfl, rfl⟩) (fun _ => id) rfl ?_ hgone ?_ ?_
    fun u hu hstored hheld hv => (attached_attachAll hstored hheld hv (hu ▸ hatt)).1
  · exact (List.mem_append.1 hr).imp_right fun hr => by rw [List.mem_singleton.1 hr]; exact ⟨rfl, rfl, hdel⟩
  · simp [NewSkillVersion.row]
  · simp [NewSkillVersion.row, hempty]
  · simp [NewSkillVersion.row, hempty]

/-! ## The transactions -/

variable {name : String} {now : Int} {a : Nat}

theorem move_create (h : Sound lib s) (hrun : s.createBody lib new now = .ok (a, s')) :
    Sound lib s' ∧ Evolves lib s s' := by
  obtain ⟨_, hname, hrun⟩ := bind_eq_ok.1 hrun
  cases hnamed : s.skillNamed new.name with
  | some r =>
    rw [hnamed] at hrun
    cases hrun
  | none =>
    rw [hnamed] at hrun
    exact move_insertSkill h (ensure_eq_ok hname) hnamed hrun

theorem move_addVersion (h : Sound lib s) {new : NewSkillVersion}
    (hrun : s.addVersionBody lib name new now = .ok (a, s')) : Sound lib s' ∧ Evolves lib s s' := by
  unfold addVersionBody at hrun
  split at hrun
  · cases hrun
  · next r hr =>
    split at hrun
    · cases hrun
    · next current hcurrent =>
      split at hrun
      · cases hrun
      · cases hrun
        refine wroteOn (new.row lib s r.id now (some current)) id h hr hcurrent (fun _ => ⟨rfl, rfl, rfl⟩) (fun _ => id) rfl
          rfl rfl rfl
          fun t ht hstored hheld _ => ?_
        rw [← ht]
        exact ⟨hstored, hheld, rfl, fun _ _ => rfl⟩

theorem move_rollback (h : Sound lib s) {target : Nat} {author : String}
    (hrun : s.rollbackBody name target author now = .ok (a, s')) : Sound lib s' ∧ Evolves lib s s' := by
  unfold rollbackBody at hrun
  split at hrun
  · cases hrun
  · next r hr =>
    split at hrun
    · cases hrun
    · next current hcurrent =>
      split at hrun
      · cases hrun
      · split at hrun
        · cases hrun
        · next v hv =>
          split at hrun
          · cases hrun
          · obtain ⟨t, hatt, hrun⟩ := bind_eq_ok.1 hrun
            cases hrun
            refine wroteOn (v.copyRow s r.id target author now current) (fun r => { r with state := .trial }) h hr hcurrent
              (fun _ => ⟨rfl, rfl, rfl⟩) (fun _ hst => by cases hst) rfl rfl rfl rfl
              fun u hu hstored hheld hmem => (attached_copyAll hstored hheld hmem (fun x hx => ?_) (hu ▸ hatt)).1
            rw [hu]
            exact h.stored.counted.named _ (List.mem_map_of_mem (List.mem_filter.1 hx).1)

theorem move_import (h : Sound lib s) {owning : String} (hrun : s.importBody lib new owning now = .ok (a, s')) :
    Sound lib s' ∧ Evolves lib s s' := by
  obtain ⟨_, hname, hrun⟩ := bind_eq_ok.1 hrun
  split at hrun
  · next hnone => exact move_insertSkill h (ensure_eq_ok hname) hnone hrun
  · next r hr =>
    split at hrun
    · cases hrun
    · next current hcurrent =>
      split at hrun
      · cases hrun
      · obtain ⟨t, hatt, hrun⟩ := bind_eq_ok.1 hrun
        cases hrun
        refine wroteOn (new.initialVersion.row lib s r.id now (some current))
          (fun r => if r.state = .archived then { r with state := .trial, archivedAt := none } else r) h hr hcurrent
          (fun r => ?_) (fun r hst => ?_) rfl rfl rfl rfl
          fun u hu hstored hheld hv => (attached_attachAll hstored hheld hv (hu ▸ hatt)).1
        · split <;> exact ⟨rfl, rfl, rfl⟩
        · split at hst
          · cases hst
          · exact hst

theorem move_rows (h : Sound lib s) (f : SkillRow → SkillRow)
    (hf : ∀ r, (f r).id = r.id ∧ (f r).name = r.name ∧ (f r).currentVersionId = r.currentVersionId)
    (hstate : ∀ r, ((f r).state = .stable → r.state = .stable) ∧ (r.state = .archived → (f r).state = .archived)) :
    Sound lib { s with skills := s.skills.map f } ∧ Evolves lib s { s with skills := s.skills.map f } := by
  refine quiet h f id (by rw [List.map_id]) hf (fun r hr hk => (hstate r).2 (h.shells.archived r hr hk)) (fun _ => rfl)
    (fun _ _ _ => rfl) h.listed (h.gated.mono (fun x hx hst => ?_) (fun _ => id) fun _ => id)
    h.tested fun p hp => ⟨p, hp, rfl, .refl p⟩
  obtain ⟨r, hr, rfl⟩ := List.mem_map.1 hx
  exact ⟨r, hr, (hstate r).1 hst, (hf r).1.symm, (hf r).2.1.symm⟩

theorem move_rest (h : Sound lib s) {proposals : List SkillProposal} {cases : List EvalCase} {runs : List EvalRun}
    (hlisted : Listed s.versions proposals) (hproposals : ∀ p ∈ s.proposals, ∃ p' ∈ proposals, p'.id = p.id ∧ Leads p p')
    (hruns : ∀ e ∈ s.evalRuns, e ∈ runs) (htested : ∀ e ∈ runs, e.versionId ∈ s.versions.map SkillVersion.id) :
    Sound lib { s with proposals := proposals, evalCases := cases, evalRuns := runs } ∧
      Evolves lib s { s with proposals := proposals, evalCases := cases, evalRuns := runs } := by
  refine quiet h id id (by rw [List.map_id, List.map_id]) (fun _ => ⟨rfl, rfl, rfl⟩) h.shells.archived (fun _ => rfl)
    (fun _ _ _ => rfl) hlisted (h.gated.mono (fun r hr hst => ⟨r, hr, hst, rfl, rfl⟩) (fun _ => id) hruns) htested hproposals

theorem archiveRow_keeps (now : Int) (c : SkillRow → Prop) [DecidablePred c] (r : SkillRow) :
    let r' := if c r then archiveRow now r else r
    (r'.id = r.id ∧ r'.name = r.name ∧ r'.currentVersionId = r.currentVersionId) ∧
      (r'.state = .stable → r.state = .stable) ∧ (r.state = .archived → r'.state = .archived) := by
  by_cases h : c r <;> simp [h, archiveRow]

theorem move_archive (h : Sound lib s) {b : Bool} (hrun : s.archiveBody name now = .ok (b, s')) :
    Sound lib s' ∧ Evolves lib s s' := by
  unfold archiveBody at hrun
  split at hrun
  · cases hrun
  · split at hrun
    · cases hrun
      exact ⟨h, .refl lib s⟩
    · cases hrun
      have hkeeps := archiveRow_keeps now fun r => r.name = name
      exact move_rows h _ (fun r => (hkeeps r).1) fun r => (hkeeps r).2

theorem move_archiveForPlugin (h : Sound lib s) {plugin : String} {names : List String}
    (hrun : s.archiveForPluginBody plugin now = .ok (names, s')) : Sound lib s' ∧ Evolves lib s s' := by
  cases hrun
  have hkeeps := archiveRow_keeps now fun r => decide (r.owningPluginId = some plugin ∧ r.state ≠ .archived) = true
  exact move_rows h _ (fun r => (hkeeps r).1) fun r => (hkeeps r).2

theorem Sound.current (h : Sound lib s) {r : SkillRow} {v : SkillVersion} (hr : r ∈ s.skills)
    (hv : (r.currentVersionId.bind fun id => byKey SkillVersion.id id s.versions) = some v) :
    v ∈ s.versions ∧ v.skillId = r.id ∧ s.forgotten r.id = false ∧ (versionsIn s.versions r.id).getLast? = some v := by
  obtain ⟨id, hid, hkey⟩ := Option.bind_eq_some_iff.1 hv
  obtain ⟨hgone, hlast⟩ := h.ordered.of_current hr hid
  obtain ⟨w, hw, hwid⟩ := Option.map_eq_some_iff.1 hlast
  obtain ⟨hmem, hskill⟩ := List.mem_filter.1 (List.mem_of_getLast? hw)
  obtain rfl := eq_of_key (nodup_range h.ordered.versionIds) hmem (mem_of_byKey hkey) (hwid.trans (key_of_byKey hkey).symm)
  exact ⟨hmem, of_decide_eq_true hskill, hgone, hw⟩

variable {notes : Option String}

theorem move_promote (h : Sound lib s) {b : Bool} (hrun : s.promoteBody lib name notes = .ok (b, s')) :
    Sound lib s' ∧ Evolves lib s s' := by
  unfold promoteBody at hrun
  dsimp only at hrun
  split at hrun
  · cases hrun
  · next r hr =>
    have hmem := mem_of_byKey hr
    have hname : r.name = name := key_of_byKey hr
    split at hrun
    · cases hrun
      exact ⟨h, .refl lib s⟩
    · cases hrun
    · next htrial =>
      split at hrun
      · cases hrun
      · next v hv =>
        obtain ⟨hvmem, hskill, hgone, -⟩ := h.current hmem hv
        split at hrun
        · cases hrun
        · split at hrun
          · cases hrun
          · split at hrun
            · cases hrun
            · next hpass =>
              -- the notes are those of the current version
              obtain ⟨g, hg, hplain, hother⟩ : ∃ g : SkillVersion → SkillVersion,
                  s' = { s.setState name fun r => { r with state := .stable } with versions := s.versions.map g } ∧
                  (∀ w, plain (g w) = plain w) ∧ ∀ w, w.id ≠ v.id → g w = w := by
                cases notes with
                | none =>
                  cases hrun
                  exact ⟨id, by rw [List.map_id]; rfl, fun _ => rfl, fun _ _ => rfl⟩
                | some text =>
                  cases hrun
                  refine ⟨fun w => if w.id = v.id then { w with promotionNotes := some text } else w, rfl, fun w => ?_,
                    fun w hw => if_neg hw⟩
                  dsimp only
                  split <;> rfl
              have hnames : ∀ x ∈ s.skills, x.name = name → x = r := fun x hx hx' =>
                eq_of_key h.ordered.names hx hmem (hx'.trans hname.symm)
              have hgated : Gated (updateKey SkillRow.name name (fun r => { r with state := .stable }) s.skills)
                  (s.versions.map g) s.evalRuns := by
                intro x' hx' hst
                obtain ⟨x, hx, rfl⟩ := mem_updateKey.1 hx'
                have hfields := fun w => (congrArg SkillVersion.bodySha256 (hplain w) :)
                by_cases hxn : x.name = name
                · obtain rfl := hnames x hx hxn
                  simp only [hxn, if_true]
                  obtain ⟨e, hlast, hpassed⟩ : ∃ e, (s.evalRuns.filter (evaluates lib name v (s.suiteOf name))).getLast? =
                      some e ∧ e.passed = true := by
                    simpa [passingEval, Option.any_eq_true] using hpass
                  obtain ⟨he, heval⟩ := List.mem_filter.1 (List.mem_of_getLast? hlast)
                  obtain ⟨⟨hen, hev, heb, -, hevalVersion⟩, -⟩ :=
                    (Bool.and_eq_true_iff.1 heval).imp_left of_decide_eq_true
                  exact ⟨g v, List.mem_map_of_mem hvmem, (fields_of_plain (hplain v)).2.1.trans hskill, e, he,
                    hen, hev.trans (fields_of_plain (hplain v)).1.symm, heb.trans (hfields v).symm, hevalVersion, hpassed⟩
                · rw [if_neg hxn] at hst ⊢
                  obtain ⟨w, hw, hwk, e, he, hen, hev, heb, hrest⟩ := h.gated x hx hst
                  exact ⟨g w, List.mem_map_of_mem hw, (fields_of_plain (hplain w)).2.1.trans hwk, e, he, hen,
                    hev.trans (fields_of_plain (hplain w)).1.symm, heb.trans (hfields w).symm, hrest⟩
              rw [hg]
              refine quiet h _ g rfl (fun x => ?_) (fun x hx hk => ?_) hplain (fun w hw hk => hother w fun heq => ?_) h.listed
                hgated h.tested fun p hp => ⟨p, hp, rfl, .refl p⟩
              · split <;> exact ⟨rfl, rfl, rfl⟩
              · have hxn : x.name ≠ name := fun hxn => by
                  rw [hnames x hx hxn, hgone] at hk
                  cases hk
                rw [if_neg hxn]
                exact h.shells.archived x hx hk
              · obtain rfl := eq_of_key (nodup_range h.ordered.versionIds) hw hvmem heq
                rw [hskill, hgone] at hk
                cases hk

theorem supersedeForks_eq (new : NewProposal) (now : Int) : ∃ f : SkillProposal → SkillProposal,
    (∀ proposals, supersedeForks new now proposals = proposals.map f) ∧
      (∀ t, new.kind = .versionFork → new.targetSkillId = some t → ∀ p, superseded t (f p) = false) ∧
      ∀ p, f p = p ∨ f p = { p with state := .superseded, reviewedAt := some now } ∧ p.state = .pending := by
  unfold supersedeForks
  split
  · next t _ ht =>
    refine ⟨_, fun _ => rfl, fun t' _ ht' p => ?_, fun p => ?_⟩
    · cases ht.symm.trans ht'
      split
      · simp [superseded]
      · next hp => exact Bool.eq_false_iff.2 hp
    · split
      · next hp => exact .inr ⟨rfl, (of_decide_eq_true hp).2.1⟩
      · exact .inl rfl
  · next hno =>
    exact ⟨id, fun _ => (List.map_id _).symm, fun t hk ht => (hno t hk ht).elim, fun _ => .inl rfl⟩

theorem move_submit (h : Sound lib s) {new : NewProposal} (hrun : s.submitBody lib new now = .ok (a, s')) :
    Sound lib s' ∧ Evolves lib s s' := by
  obtain ⟨_, -, hrun⟩ := bind_eq_ok.1 hrun
  obtain ⟨f, hf, hnone, hkept⟩ := supersedeForks_eq new now
  rw [hf] at hrun
  split at hrun
  · cases hrun
  · cases hrun
    have hdecided : Listed s.versions (s.proposals.map f) := h.listed.decide fun p _ =>
      (hkept p).imp_right fun hp => by rw [hp.1]; exact ⟨rfl, nofun, nofun⟩
    refine move_rest h (hdecided.snoc (by rw [List.length_map]) rfl fun t ht => ?_) (fun p hp => ?_) (fun _ => id) h.tested
    · obtain ⟨htarget, -, hkind⟩ := of_decide_eq_true ht
      rw [List.countP_eq_zero]
      intro x hx
      obtain ⟨p, -, rfl⟩ := List.mem_map.1 hx
      rw [hnone t hkind htarget p]
      exact Bool.false_ne_true
    · refine ⟨f p, List.mem_append_left _ (List.mem_map_of_mem hp), ?_⟩
      rcases hkept p with hp | ⟨hp, hpending⟩
      · rw [hp]
        exact ⟨rfl, .refl p⟩
      · rw [hp]
        exact ⟨rfl, .of_pending hpending rfl rfl⟩

theorem move_decide (h : Sound lib s) (f : SkillProposal → SkillProposal)
    (hf : ∀ p ∈ s.proposals, f p = p ∨ (f p).id = p.id ∧ (f p).state ≠ .pending ∧
      ((f p).state = .approved → Linked s.versions (f p)) ∧ Leads p (f p)) :
    Sound lib { s with proposals := s.proposals.map f } ∧ Evolves lib s { s with proposals := s.proposals.map f } := by
  refine move_rest h (h.listed.decide fun p hp => ?_) (fun p hp => ⟨f p, List.mem_map_of_mem hp, ?_⟩) (fun _ => id)
    h.tested
  · exact (hf p hp).imp_right fun hd => ⟨hd.1, hd.2.1, hd.2.2.1⟩
  · rcases hf p hp with heq | hd
    · rw [heq]
      exact ⟨rfl, .refl p⟩
    · exact ⟨hd.1, hd.2.2.2⟩

theorem move_mark (h : Sound lib s) {pid skillId versionId : Nat} {reviewer : String}
    (hversion : ∃ v ∈ s.versions, v.id = versionId ∧ v.skillId = skillId)
    (htarget : ∀ p ∈ s.proposals, p.id = pid → p.kind = .versionFork → p.targetSkillId = some skillId) :
    Sound lib (s.markApproved pid skillId versionId reviewer notes now) ∧
      Evolves lib s (s.markApproved pid skillId versionId reviewer notes now) := by
  obtain ⟨v, hv, rfl, rfl⟩ := hversion
  refine move_decide h _ fun p hp => ?_
  by_cases hid : p.id = pid
  · rw [if_pos hid]
    dsimp only
    split
    · next hpending =>
      exact .inr ⟨rfl, nofun, fun _ => ⟨v, hv, rfl, rfl, htarget p hp hid⟩, .of_pending hpending rfl rfl⟩
    · exact .inl rfl
  · exact .inl (if_neg hid)

theorem move_reject (h : Sound lib s) {pid : Nat} {reviewer : String}
    (hrun : s.rejectBody pid reviewer notes now = .ok ((), s')) : Sound lib s' ∧ Evolves lib s s' := by
  unfold rejectBody at hrun
  split at hrun
  · cases hrun
  · next q hq =>
    split at hrun
    · cases hrun
    · cases hrun
      exact ⟨h, .refl lib s⟩
    · next hnotApproved _ =>
      cases hrun
      refine move_decide h _ fun p hp => ?_
      by_cases hid : p.id = pid
      · obtain rfl := eq_of_key (nodup_range h.listed.ids) hp (mem_of_byKey hq) (hid.trans (key_of_byKey hq).symm)
        rw [if_pos hid]
        exact .inr ⟨rfl, nofun, nofun, ⟨rfl, rfl⟩, fun hst => absurd hst hnotApproved, fun _ => rfl, fun _ => .inr rfl⟩
      · exact .inl (if_neg hid)

theorem forgotten_scrub (tombstone : SkillTombstone) (placeholder : String) :
    (s.scrub lib tombstone placeholder name now).forgotten = fun j => s.forgotten j || tombstone.skillId == j := by
  funext j
  simp [forgotten, scrub, List.any_append]

theorem scrubbed_proposal (placeholder : String) (c : SkillProposal → Bool) (p : SkillProposal) :
    let p' := if c p then scrubProposal placeholder p else p
    p'.id = p.id ∧ Leads p p' ∧ (∀ t, superseded t p' = superseded t p) ∧ p'.state = p.state ∧
      ∀ versions, Linked versions p → Linked versions p' := by
  cases h : c p with
  | true => exact ⟨rfl, ⟨⟨rfl, rfl⟩, fun h => ⟨h, rfl, rfl, rfl⟩, id, .inl⟩, fun _ => rfl, rfl, fun _ => id⟩
  | false => exact ⟨rfl, .refl p, fun _ => rfl, rfl, fun _ => id⟩

theorem move_scrub (h : Sound lib s) {r : SkillRow} (hr : s.skillNamed name = some r)
    {placeholder : String} (hplace : ∀ x ∈ s.skills, x.name = placeholder → x.id = r.id) (requestedBy : String)
    (now : Int) :
    let s' := s.scrub lib ⟨r.id, privacyNameHash lib name, requestedBy, now⟩ placeholder name now
    Sound lib s' ∧ Evolves lib s s' := by
  intro s'
  have hmem := mem_of_byKey hr
  have hname : r.name = name := key_of_byKey hr
  have hgone' : s'.forgotten = fun j => s.forgotten j || r.id == j := forgotten_scrub _ _
  have hrow : ∀ x ∈ s.skills, x.id = r.id → x = r := fun x hx hid => eq_of_key h.ordered.nodup hx hmem hid
  have hnamed : ∀ x ∈ s.skills, x.name = name → x = r := fun x hx hx' =>
    eq_of_key h.ordered.names hx hmem (hx'.trans hname.symm)
  have hlive' : ∀ k, s'.forgotten k = false → k ≠ r.id := by
    rintro k hk rfl
    simp [hgone'] at hk
  have hids : ∀ v ∈ s.versions, v.skillId ≠ r.id → v.id ∉ (versionsIn s.versions r.id).map SkillVersion.id := by
    intro v hv hvk hin
    obtain ⟨w, hw, hid⟩ := List.mem_map.1 hin
    obtain ⟨hw, hwk⟩ := List.mem_filter.1 hw
    obtain rfl := eq_of_key (nodup_range h.ordered.versionIds) hw hv hid
    exact hvk (of_decide_eq_true hwk)
  let f := fun v : SkillVersion => if v.skillId = r.id then scrubVersion lib v else v
  let g := fun x : SkillRow => if x.id = r.id then shellRow placeholder now x else x
  have hf : ∀ v, (f v).id = v.id ∧ (f v).skillId = v.skillId ∧ (f v).version = v.version ∧
      (f v).parentVersionId = v.parentVersionId := fun v => by
    dsimp only [f]
    split <;> exact ⟨rfl, rfl, rfl, rfl⟩
  have hgid : ∀ x, (g x).id = x.id := fun x => by
    dsimp only [g]
    split <;> rfl
  have hon : Onward s.versions s'.versions := fun v hv => ⟨f v, List.mem_map_of_mem hv, (hf v).1, (hf v).2.1⟩
  obtain ⟨hstored, hheld, hfiles⟩ :=
    h.stored.forget h.held ⟨r.id, privacyNameHash lib name, requestedBy, now⟩ placeholder name now
  have hproposal := scrubbed_proposal placeholder (concerns r.id name)
  constructor
  · refine ⟨?_, fun x' hx' => ?_, ?_, hgone' ▸ hstored, hheld, ?_, fun x' hx' hst => ?_, fun e' he' => ?_⟩
    · rw [hgone']
      refine h.ordered.rewrite hf (fun k hk => by simp [hk]) (fun x hx => ⟨hgid x, ?_⟩) ?_
      · by_cases hx' : x.id = r.id
        · simp [hx', shellRow]
        · have hcurrent := h.ordered.current x hx
          simp only [if_neg hx', Bool.or_eq_true, beq_iff_eq, Ne.symm hx', or_false]
          rw [hcurrent]
          split <;> rfl
      · rw [List.map_map, List.nodup_map_iff_inj_on h.ordered.names.of_map]
        intro x hx y hy heq
        by_cases hx' : x.id = r.id <;> by_cases hy' : y.id = r.id
        · rw [hrow x hx hx', hrow y hy hy']
        · simp only [Function.comp_apply, if_pos hx', if_neg hy'] at heq
          exact absurd (hplace y hy heq.symm) hy'
        · simp only [Function.comp_apply, if_neg hx', if_pos hy'] at heq
          exact absurd (hplace x hx heq) hx'
        · simp only [Function.comp_apply, if_neg hx', if_neg hy'] at heq
          exact eq_of_key h.ordered.names hx hy heq
    · obtain ⟨x, hx, rfl⟩ := List.mem_map.1 hx'
      have hwritten := h.written x hx
      rw [← hgid x] at hwritten
      exact fun hnil => hwritten (List.map_eq_nil_iff.1 ((versionsIn_map (fun v => (hf v).2.1) _).symm.trans hnil))
    · rw [hgone']
      exact h.shells.forget (List.mem_map_of_mem hmem) (fun x => ⟨rfl, rfl⟩) (nodup_range h.ordered.versionIds)
    · refine (h.listed.map fun p _ => ?_).onward hon
      obtain ⟨hid, -, hsuper, hstate, hlinked⟩ := hproposal p
      exact ⟨hid, fun t ht => hsuper t ▸ ht, fun _ _ => hlinked _, fun hst hst' => absurd (hstate ▸ hst) hst'⟩
    · obtain ⟨x, hx, rfl⟩ := List.mem_map.1 hx'
      by_cases hxr : x.id = r.id
      · rw [if_pos hxr] at hst
        cases hst
      · rw [if_neg hxr] at hst ⊢
        obtain ⟨v, hv, hvk, e, he, hen, hev, hrest⟩ := h.gated x hx hst
        have hvr : v.skillId ≠ r.id := hvk ▸ hxr
        refine ⟨v, List.mem_map.2 ⟨v, hv, if_neg hvr⟩, hvk, e, List.mem_map.2 ⟨e, he, ?_⟩, hen, hev, hrest⟩
        have hnot : evaluated ((s.versionsOf r.id).map SkillVersion.id) name e = false :=
          decide_eq_false fun hor => hor.elim (fun hn => hxr (hnamed x hx (hen.symm.trans hn) ▸ rfl))
            fun hin => hids v hv hvr (hev ▸ hin)
        rw [hnot]
        rfl
    · obtain ⟨e, he, rfl⟩ := List.mem_map.1 he'
      have hkept : s'.versions.map SkillVersion.id = s.versions.map SkillVersion.id := map_rewrite fun v _ => (hf v).1
      rw [hkept]
      split <;> exact h.tested e he
  · refine ⟨fun t ht => List.mem_append_left _ ht, fun x hx => ⟨g x, List.mem_map_of_mem hx, hgid x, fun hk => ?_⟩,
      fun x' hx' hk => ?_, fun x hx hk hk' => ?_, ?_, fun v hv hk => hfiles v.id (hids v hv (hlive' _ hk)),
      fun p hp => ⟨_, List.mem_map_of_mem hp, (hproposal p).1, (hproposal p).2.1⟩⟩
    · dsimp only [g]
      rw [if_neg (hlive' _ hk)]
    · obtain ⟨x, hx, rfl⟩ := List.mem_map.1 hx'
      have hxr : x.id ≠ r.id := hgid x ▸ hlive' _ hk
      rw [if_neg hxr]
      exact .inr ⟨x, hx, rfl, rfl⟩
    · have hxr : x.id = r.id := by
        simp only [hgone', hk, Bool.false_or, beq_iff_eq] at hk'
        exact hk'.symm
      rw [hrow x hx hxr, hname]
      refine ⟨List.any_eq_true.2 ⟨_, List.mem_append_right _ List.mem_cons_self, beq_self_eq_true _⟩, fun y' hy' hy => ?_⟩
      obtain ⟨y, hy₀, rfl⟩ := List.mem_map.1 hy'
      by_cases hyr : y.id = r.id
      · rw [if_pos hyr, hgone']
        simp [shellRow, hyr]
      · rw [if_neg hyr] at hy
        exact absurd (hnamed y hy₀ hy ▸ rfl) hyr
    · have hstamp : s'.versions.map (stamp lib s') = s.versions.map (stamp lib s') := map_rewrite fun v _ => by
        by_cases hv : v.skillId = r.id
        · rw [if_pos hv, stamp, stamp, hgone']
          simp [scrubVersion, hv]
        · rw [if_neg hv]
      exact hstamp ▸ List.prefix_rfl

theorem move_forget (h : Sound lib s) {requestedBy uuid : String} {report : SkillPrivacyDeletionReport}
    (hrun : s.forgetBody lib name requestedBy uuid now = .ok (report, s')) : Sound lib s' ∧ Evolves lib s s' := by
  unfold forgetBody at hrun
  dsimp only at hrun
  split at hrun
  · split at hrun <;> cases hrun
    exact ⟨h, .refl lib s⟩
  · next r hr =>
    split at hrun
    · cases hrun
      exact ⟨h, .refl lib s⟩
    · next _ =>
      split at hrun
      · cases hrun
      · split at hrun
        · cases hrun
        · next hplace =>
          cases hrun
          refine move_scrub h hr (fun x hx hx' => ?_) requestedBy now
          by_contra hid
          exact hplace (List.any_eq_true.2 ⟨x, hx, by simp [hx', hid]⟩)

end SkillStore

end Execlaw
