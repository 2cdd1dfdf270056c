import Execlaw.SkillCalls
/-!
# SkillHistory — what holds of a skill over a run

Read off the invariant and `Evolves`: a skill's versions are a history that only grows, counts are the references there
are, a forgotten name is gone for good, a name names one skill, and a proposal is decided once.
-/
namespace Execlaw

open Table Interleave

namespace SkillStore

variable {lib : SkillLib} {s s' : SkillStore} {p p' : SkillPool}
  {es es' : List (Event SkillCall (Except SkillError SkillReply) Empty)}

/-! ## Calls one after another -/

def after (lib : SkillLib) (calls : List SkillCall) (s : SkillStore) : SkillStore :=
  calls.foldl (fun s c => ((SkillCall.prog lib 0 c).alone s).2) s

theorem run_after (lib : SkillLib) : ∀ (calls : List SkillCall) (s : SkillStore),
    ∃ es, SkillRun lib ⟨s, fun _ => none⟩ es ⟨after lib calls s, fun _ => none⟩
  | [], _ => ⟨[], rfl⟩
  | c :: calls, s => by
    obtain ⟨n, hn⟩ := @Pool.run_alone _ _ _ Empty (SkillCall.prog lib) (fun s _ => s) ⟨s, fun _ => none⟩ 0 c rfl
    obtain ⟨es, hes⟩ := run_after lib calls ((SkillCall.prog lib 0 c).alone s).2
    exact ⟨_, Steps.run_append.2 ⟨_, hn, hes⟩⟩

def sampleLib : SkillLib where
  sha256Hex bytes := String.ofList (Wire.hexEncode bytes)
  parseJson _ := .ok ()
  findings _ _ _ _ := []
  suiteSha256 _ := ""
  fullText rows _ := rows.map SearchRow.rowid
  debug owner := owner.elim "None" fun id => "Some(\"" ++ id ++ "\")"

def notes (description body : String) : NewSkillVersion := ⟨description, body, "\x7b\x7d", "admin", none⟩

def notesSkill : NewSkill :=
  ⟨"ops/log", "admin", .authored, none, notes "Log" "One.", [⟨"a.txt", "text/plain", [65]⟩]⟩

def life : List SkillCall :=
  [.create notesSkill .warn 0, .addVersion "ops/log" (notes "Log" "Two.") .warn 1,
    .submitProposal ⟨.versionFork, some 1, "ops/log", "Log", "Six.", "\x7b\x7d", "run", none, 7⟩ 2,
    .approveProposal 1 "admin" none 3,
    .saveEvalSuite "ops/log"
      [⟨"", "case", "Note it.", "[]", "[]", 0, 9, 9, "\x7b\x7d", "\x7b\"a.txt\": \"\"\x7d", "[]", "[]", "[]"⟩],
    .recordEvalRun ⟨"ops/log", 3, sampleLib.sha256Text "Six.", skillEvalVersion, true, "[]", "", some "model",
      some "backend"⟩,
    .promote "ops/log" none, .rollbackVersion "ops/log" 1 "admin" 8, .forget "ops/log" "admin" "0" 9]

def stage (n : Nat) : SkillStore := after sampleLib (life.take n) .empty

theorem run_stage {n m : Nat} (h : n ≤ m) : ∃ es es', SkillRun sampleLib .start es ⟨stage n, fun _ => none⟩ ∧
    SkillRun sampleLib ⟨stage n, fun _ => none⟩ es' ⟨stage m, fun _ => none⟩ := by
  obtain ⟨es, hes⟩ := run_after sampleLib (life.take n) .empty
  obtain ⟨es', hes'⟩ := run_after sampleLib ((life.take m).drop n) (stage n)
  refine ⟨es, es', hes, ?_⟩
  have htake : life.take m = life.take n ++ (life.take m).drop n := by
    conv_lhs => rw [← List.take_append_drop n (life.take m), List.take_take, Nat.min_eq_left h]
  have hstage : stage m = after sampleLib ((life.take m).drop n) (stage n) :=
    (congrArg (fun calls => after sampleLib calls .empty) htake).trans List.foldl_append
  rw [hstage]
  exact hes'

/-! ## Versions -/

def history (s : SkillStore) (k : Nat) : List (SkillVersion × List (ResourceRow × Option (String × List UInt8))) :=
  (s.versionsOf k).map fun v => (plain v, filesOf s.resources s.blobs v.id)

/-- What the stages hold, where a sample reads it. -/
@[mk_iff] structure Lived : Prop where
  created : SkillStore.empty.createBody sampleLib notesSkill 0 = .ok (1, stage 1)
  named : ∃ r ∈ (stage 1).skills, (stage 1).forgotten r.id = false
  written : (stage 1).history 1 ≠ []
  live : (stage 8).forgotten 1 = false
  proposed : (stage 4).proposals ≠ []
  stable : ∃ r ∈ (stage 7).skills, r.state = .stable ∧ r.name = "ops/log"
  first : ∀ w ∈ (stage 7).versions, w.version = 1 → w.bodyMd = "One."
  added : (stage 7).addVersionBody sampleLib "ops/log" (notes "Log" "New.") 7 =
    .ok (4, after sampleLib [.addVersion "ops/log" (notes "Log" "New.") .warn 7] (stage 7))
  rolled : (stage 7).rollbackBody "ops/log" 1 "admin" 8 = .ok (4, stage 8)
  kept : ∃ r ∈ (stage 8).skills, (stage 8).forgotten r.id = false
  stored : (stage 8).blobs ≠ []
  gone : ∃ r ∈ (stage 9).skills, (stage 9).forgotten r.id = true
  deleted : ((SkillCall.prog sampleLib 0 (.forget "ops/log" "admin" "0" 9)).alone (stage 8)).1 =
    .ok (.report ⟨false, 4, 1, 1, 1, 2, 1⟩)

-- Decided in one evaluation, which reaches each stage once.
theorem lived : Lived := lived_iff.2 (by decide +kernel)

/-- No reader shows a skill of the name. -/
structure Unseen (lib : SkillLib) (name : String) (s : SkillStore) : Prop where
  get : s.get name = .ok none
  view : s.view name = none
  resource : ∀ path, s.resource name path = none
  listed : ∀ e ∈ s.listIndex, e.name ≠ name
  found : ∀ u query k, ∀ e ∈ search lib u query k s, e.name ≠ name

theorem history_prefix (h : Evolves lib s s') {k : Nat} (hk : s'.forgotten k = false) :
    s.history k <+: s'.history k := by
  have hplain : ∀ l : List SkillVersion,
      (versionsIn l k).map plain = (l.map (stamp lib s')).filter fun v => decide (v.skillId = k) := by
    intro l
    have hskill : ((fun v : SkillVersion => decide (v.skillId = k)) ∘ stamp lib s') = fun v => decide (v.skillId = k) :=
      funext fun v => by rw [Function.comp_apply, (stamp_key s' v).2]
    rw [List.filter_map, hskill]
    refine List.map_congr_left fun v hv => ?_
    rw [stamp, of_decide_eq_true (List.mem_filter.1 hv).2, hk]
    rfl
  have hprefix : (versionsIn s.versions k).map plain <+: (versionsIn s'.versions k).map plain := by
    rw [hplain, hplain]
    exact h.versions.filter _
  have hfiles : s.history k = ((versionsIn s.versions k).map plain).map fun v =>
      (v, filesOf s'.resources s'.blobs v.id) := by
    rw [List.map_map]
    refine List.map_congr_left fun v hv => ?_
    obtain ⟨hv, hvk⟩ := List.mem_filter.1 hv
    rw [← h.files v hv (by rw [of_decide_eq_true hvk]; exact hk)]
    rfl
  have hlater : s'.history k = ((versionsIn s'.versions k).map plain).map fun v =>
      (v, filesOf s'.resources s'.blobs v.id) := by
    rw [List.map_map]
    rfl
  rw [hfiles, hlater]
  exact hprefix.map _

/-- **The history of a skill only grows**: until it is forgotten, no version and no file of one changes or goes. -/
theorem history_grows (hrun : SkillRun lib .start es p) (hlater : SkillRun lib p es' p') {k : Nat}
    (hk : p'.shared.forgotten k = false) : p.shared.history k <+: p'.shared.history k :=
  history_prefix (flights_run (reached hrun) hlater).2.1 hk

theorem history_grows_notes : (stage 1).history 1 <+: (stage 8).history 1 ∧ (stage 1).history 1 ≠ [] := by
  obtain ⟨es, es', hrun, hlater⟩ := run_stage (show 1 ≤ 8 by decide)
  exact ⟨history_grows hrun hlater lived.live, lived.written⟩

/-- **Versions are numbered from 1 without gaps**, each with the one before it as its parent, and the newest is current. -/
theorem versions_in_line (hrun : SkillRun lib .start es p) {r : SkillRow} (hr : r ∈ p.shared.skills) :
    p.shared.versionsOf r.id ≠ [] ∧ Linear (p.shared.versionsOf r.id) ∧ r.currentVersionId =
      if p.shared.forgotten r.id then none else (p.shared.versionsOf r.id).getLast?.map SkillVersion.id :=
  have h := (reached hrun).sound
  ⟨h.written r hr, h.ordered.linear r.id, h.ordered.current r hr⟩

theorem versions_in_line_notes : ∃ r ∈ (stage 8).skills, (stage 8).versionsOf r.id ≠ [] ∧
    Linear ((stage 8).versionsOf r.id) := by
  obtain ⟨es, -, hrun, -⟩ := run_stage (Nat.le_refl 8)
  obtain ⟨r, hr, -⟩ := lived.kept
  have h := versions_in_line hrun hr
  exact ⟨r, hr, h.1, h.2.1⟩

/-- **A blob's count is the number of resources that refer to it**, and never zero; a blob lies under its hash, and every
resource has its blob. -/
theorem refcounts_exact (hrun : SkillRun lib .start es p) : (∀ b ∈ p.shared.blobs,
      b.refcount = (p.shared.resources.map ResourceRow.blobSha).count b.sha256 ∧ 0 < b.refcount ∧
        b.sha256 = lib.sha256Hex b.bytes) ∧
    (p.shared.blobs.map BlobRow.sha256).Nodup ∧
      ∀ x ∈ p.shared.resources, x.blobSha ∈ p.shared.blobs.map BlobRow.sha256 := by
  have h := (reached hrun).sound
  refine ⟨fun b hb => ?_, h.stored.counted.unique, fun x hx => h.stored.counted.named _ (List.mem_map_of_mem hx)⟩
  have hcount : b.refcount = (p.shared.resources.map ResourceRow.blobSha).count b.sha256 := h.stored.counted.counts b hb
  have hpos := List.count_pos_iff.2 (h.held b hb)
  exact ⟨hcount, by omega, h.stored.hashed b hb⟩

theorem refcounts_exact_notes : ∃ b ∈ (stage 8).blobs,
    b.refcount = ((stage 8).resources.map ResourceRow.blobSha).count b.sha256 := by
  obtain ⟨es, -, hrun, -⟩ := run_stage (Nat.le_refl 8)
  obtain ⟨b, hb⟩ := List.exists_mem_of_ne_nil _ lived.stored
  exact ⟨b, hb, ((refcounts_exact hrun).1 b hb).1⟩

/-- **A stable skill was evaluated**: a version of it passed under the evaluator's present version. -/
theorem stable_was_evaluated (hrun : SkillRun lib .start es p) {r : SkillRow} (hr : r ∈ p.shared.skills)
    (hstable : r.state = .stable) : ∃ v ∈ p.shared.versionsOf r.id, ∃ e ∈ p.shared.evalRuns, e.skillName = r.name ∧
      e.versionId = v.id ∧ e.bodySha256 = v.bodySha256 ∧ e.evaluatorVersion = skillEvalVersion ∧ e.passed = true := by
  obtain ⟨v, hv, hskill, heval⟩ := (reached hrun).sound.gated r hr hstable
  exact ⟨v, List.mem_filter.2 ⟨hv, decide_eq_true hskill⟩, heval⟩

theorem stable_was_evaluated_notes : ∃ r ∈ (stage 7).skills, ∃ e ∈ (stage 7).evalRuns, e.skillName = r.name := by
  obtain ⟨es, -, hrun, -⟩ := run_stage (Nat.le_refl 7)
  obtain ⟨r, hr, hstable, -⟩ := lived.stable
  obtain ⟨-, -, e, he, hname, -⟩ := stable_was_evaluated hrun hr hstable
  exact ⟨r, hr, e, he, hname⟩

/-- **A version added to a stable skill is in service untested**: the skill stays stable, the version is current, and no
evaluation names it. -/
theorem added_version_untested (hrun : SkillRun lib .start es p) {r : SkillRow} (hr : r ∈ p.shared.skills)
    (hstable : r.state = .stable) {new : NewSkillVersion} {now : Int} {vid : Nat}
    (hadd : p.shared.addVersionBody lib r.name new now = .ok (vid, s')) :
    { r with currentVersionId := some vid } ∈ s'.skills ∧ ∀ e ∈ s'.evalRuns, e.versionId ≠ vid := by
  have h := (reached hrun).sound
  unfold addVersionBody at hadd
  split at hadd
  · cases hadd
  · next q hq =>
    obtain rfl := eq_of_key h.ordered.names (mem_of_byKey hq) hr (key_of_byKey hq)
    split at hadd
    · cases hadd
    · split at hadd
      · cases hadd
      · cases hadd
        refine ⟨mem_updateKey.2 ⟨q, hr, if_pos rfl⟩, fun e he heq => next_notMem h.ordered.versionIds ?_⟩
        exact (show e.versionId = p.shared.versions.length + 1 from heq) ▸ h.tested e he

theorem added_version_untested_notes : ∃ s',
    (stage 7).addVersionBody sampleLib "ops/log" (notes "Log" "New.") 7 = .ok (4, s') ∧
      ∀ e ∈ s'.evalRuns, e.versionId ≠ 4 := by
  obtain ⟨es, -, hrun, -⟩ := run_stage (Nat.le_refl 7)
  obtain ⟨r, hr, hstable, hname⟩ := lived.stable
  exact ⟨_, lived.added, (added_version_untested hrun hr hstable (by rw [hname]; exact lived.added)).2⟩

/-- **A proposal is decided once**: an approved one keeps its reviewer, skill and version, a rejected one stays so, a
superseded one is not approved.  Each skill has one pending fork at most, and what is approved names a version. -/
theorem proposals_decided_once (hrun : SkillRun lib .start es p) (hlater : SkillRun lib p es' p') :
    (∀ q ∈ p.shared.proposals, ∃ q' ∈ p'.shared.proposals, q'.id = q.id ∧ Leads q q') ∧
      (p'.shared.proposals.map SkillProposal.id).Nodup ∧ (∀ t, p'.shared.proposals.countP (superseded t) ≤ 1) ∧
        ∀ q ∈ p'.shared.proposals, q.state = .approved → Linked p'.shared.versions q := by
  obtain ⟨⟨h, -⟩, hevolves, -⟩ := flights_run (reached hrun) hlater
  exact ⟨hevolves.proposals, nodup_range h.listed.ids, h.listed.single, h.listed.links⟩

theorem proposals_decided_once_notes :
    ∃ q ∈ (stage 4).proposals, ∃ q' ∈ (stage 9).proposals, q'.id = q.id ∧ Leads q q' := by
  obtain ⟨es, es', hrun, hlater⟩ := run_stage (show 4 ≤ 9 by decide)
  obtain ⟨q, hq⟩ := List.exists_mem_of_ne_nil _ lived.proposed
  exact ⟨q, hq, (proposals_decided_once hrun hlater).1 q hq⟩

/-- **A name names one skill**, also over time: skills that are not forgotten have one name if and only if they are one. -/
theorem name_names_one_skill (hrun : SkillRun lib .start es p) (hlater : SkillRun lib p es' p') {r r' : SkillRow}
    (hr : r ∈ p.shared.skills) (hlive : p.shared.forgotten r.id = false) (hr' : r' ∈ p'.shared.skills)
    (hlive' : p'.shared.forgotten r'.id = false) : r.name = r'.name ↔ r.id = r'.id := by
  obtain ⟨⟨h, -⟩, hevolves, -⟩ := flights_run (reached hrun) hlater
  obtain ⟨q, hq, hid, hname⟩ := hevolves.names r hr
  constructor
  · intro heq
    cases hk : p'.shared.forgotten r.id with
    | true =>
      have hgone := (hevolves.leaves r hr hlive hk).2 r' hr' heq.symm
      rw [hlive'] at hgone
      cases hgone
    | false =>
      rw [← hid, eq_of_key h.ordered.names hq hr' ((hname hk).trans heq)]
  · intro heq
    obtain rfl := eq_of_key h.ordered.nodup hq hr' (hid.trans heq)
    rw [← hname (heq ▸ hlive')]

theorem name_names_one_skill_notes :
    ∃ r ∈ (stage 1).skills, ∃ r' ∈ (stage 8).skills, (r.name = r'.name ↔ r.id = r'.id) := by
  obtain ⟨es, es', hrun, hlater⟩ := run_stage (show 1 ≤ 8 by decide)
  obtain ⟨r, hr, hlive⟩ := lived.named
  obtain ⟨r', hr', hlive'⟩ := lived.kept
  exact ⟨r, hr, r', hr', name_names_one_skill hrun hlater hr hlive hr' hlive'⟩

/-! ## What a write leaves to read -/

theorem filter_attached (h : Sound lib s) {rows : List ResourceRow} {id : Nat} (hid : id = s.versions.length + 1)
    (hrows : ∀ x ∈ rows, x.skillVersionId = id) :
    (s.resources ++ rows).filter (fun x => decide (x.skillVersionId = id)) = rows := by
  rw [List.filter_append, List.filter_eq_self.2 fun x hx => decide_eq_true (hrows x hx), List.filter_eq_nil_iff.2,
    List.nil_append]
  intro x hx hx'
  obtain ⟨w, hw, hwid, -⟩ := h.stored.attached x hx
  refine next_notMem h.ordered.versionIds ?_
  rw [← hid, ← of_decide_eq_true hx', ← hwid]
  exact List.mem_map_of_mem hw

theorem byKey_next (h : Sound lib s) {v : SkillVersion} (hid : v.id = s.versions.length + 1) :
    byKey SkillVersion.id v.id (s.versions ++ [v]) = some v := by
  rw [byKey_append, byKey_eq_none.2 (hid ▸ next_notMem h.ordered.versionIds), byKey_cons, if_pos rfl]
  rfl

theorem skillNamed_written {skills : List SkillRow} {name : String} {r : SkillRow} {f : SkillRow → SkillRow}
    (hf : ∀ x, (f x).name = x.name) (hr : byKey SkillRow.name name skills = some r) :
    byKey SkillRow.name name (updateKey SkillRow.id r.id f skills) = some (f r) := by
  rw [updateKey, byKey_map (fun x => by split <;> simp [hf]), hr]
  simp

/-- **A rollback restores**: the new version is current, its skill on trial, and it has the content of the version asked
for and its files. -/
theorem rollback_restores (hrun : SkillRun lib .start es p) {name author : String} {n vid : Nat} {now : Int}
    (hroll : p.shared.rollbackBody name n author now = .ok (vid, s')) : ∃ r v target, p.shared.skillNamed name = some r ∧
      target ∈ p.shared.versionsOf r.id ∧ target.version = n ∧ v.id = vid ∧ v.description = target.description ∧
      v.bodyMd = target.bodyMd ∧ v.frontmatterJson = target.frontmatterJson ∧
      s'.get name = .ok (some ({ r with currentVersionId := some vid, state := .trial }, v)) ∧
      (filesOf s'.resources s'.blobs vid).map (fun f => (f.1.path, f.2)) =
        (filesOf p.shared.resources p.shared.blobs target.id).map fun f => (f.1.path, f.2) := by
  have h := (reached hrun).sound
  unfold rollbackBody at hroll
  split at hroll
  · cases hroll
  · next r hr =>
    split at hroll
    · cases hroll
    · next current hcurrent =>
      split at hroll
      · cases hroll
      · split at hroll
        · cases hroll
        · next target htarget =>
          split at hroll
          · cases hroll
          · obtain ⟨t, hatt, hroll⟩ := bind_eq_ok.1 hroll
            cases hroll
            let v := target.copyRow p.shared r.id n author now current
            have hlive := (h.ordered.of_current (mem_of_byKey hr) hcurrent).1
            let t₀ := p.shared.writeVersion v fun r => { r with state := .trial }
            have hstored : Stored lib p.shared.forgotten t₀.versions t₀.resources t₀.blobs := h.stored.write v
            obtain ⟨hattached, hres, hcontent⟩ := attached_copyAll hstored h.held
              ⟨v, List.mem_append_right _ List.mem_cons_self, rfl, hlive⟩
              (fun x hx => h.stored.counted.named _ (List.mem_map_of_mem (List.mem_filter.1 hx).1)) hatt
            refine ⟨r, v, target, hr, List.mem_of_find?_eq_some htarget, ?_, rfl, rfl, rfl, rfl, ?_, ?_⟩
            · simpa using List.find?_some htarget
            · have hnamed : s'.skillNamed name = some { r with currentVersionId := some v.id, state := .trial } := by
                rw [hattached.same]
                exact skillNamed_written (fun _ => rfl) hr
              have hforgotten : s'.forgotten r.id = false := by
                rw [hattached.same]
                exact hlive
              have hversion : byKey SkillVersion.id v.id s'.versions = some v := by
                rw [hattached.same]
                exact byKey_next h rfl
              rw [SkillStore.get, hnamed]
              simp only [hforgotten, Bool.false_eq_true, if_false, hversion]
              rfl
            · rw [filesOf, hres]
              erw [filter_attached h rfl fun x hx => ?_]
              · rw [filesOf, List.map_map, List.map_map, List.map_map]
                exact List.map_congr_left fun x _ => congrArg (Prod.mk x.path) (hcontent x.blobSha)
              · obtain ⟨y, -, rfl⟩ := List.mem_map.1 hx
                rfl

theorem rollback_restores_notes : ∃ r v, v.bodyMd = "One." ∧ (stage 8).get "ops/log" = .ok (some (r, v)) := by
  obtain ⟨es, -, hrun, -⟩ := run_stage (Nat.le_refl 7)
  obtain ⟨r, v, target, -, hmem, hversion, -, -, hbody, -, hget, -⟩ := rollback_restores hrun lived.rolled
  exact ⟨_, v, hbody.trans (lived.first target (List.mem_filter.1 hmem).1 hversion), hget⟩

/-- **What is created is what is read**, where no other content has the hash of a resource. -/
theorem created_reads_back (hrun : SkillRun lib .start es p) {new : NewSkill} {now : Int} {k : Nat}
    (hcreate : p.shared.createBody lib new now = .ok (k, s'))
    (hhash : ∀ b ∈ new.resources, ∀ bytes, lib.sha256Hex bytes = lib.sha256Hex b.bytes → bytes = b.bytes) :
    s'.view new.name = some ⟨new.name, new.initialVersion.description, .trial, 1, new.initialVersion.bodyMd,
        new.initialVersion.frontmatterJson, orderBy id (new.resources.map ResourceBlob.path)⟩ ∧
      ∀ b ∈ new.resources, ∃ mime, s'.resource new.name b.path = some (mime, b.bytes) := by
  have h := (reached hrun).sound
  obtain ⟨hsound, -⟩ := move_create h hcreate
  obtain ⟨_, -, hcreate⟩ := bind_eq_ok.1 hcreate
  split at hcreate
  · cases hcreate
  · next hnone =>
    obtain ⟨t, hatt, hcreate⟩ := bind_eq_ok.1 hcreate
    cases hcreate
    let v : SkillVersion := { new.initialVersion.row lib p.shared (p.shared.skills.length + 1) now none with version := 1 }
    let row : SkillRow :=
      { id := p.shared.skills.length + 1, name := new.name, currentVersionId := none, state := .trial
        source := new.source, registrationKind := new.registrationKind, owningPluginId := new.owningPluginId
        createdAt := now, archivedAt := none }
    let t₀ := { p.shared with skills := p.shared.skills ++ [row] }.writeVersion v id
    have hstored : Stored lib p.shared.forgotten t₀.versions t₀.resources t₀.blobs := h.stored.write v
    have hlive : p.shared.forgotten v.skillId = false :=
      Bool.eq_false_iff.2 fun hk => next_notMem h.ordered.ids (h.shells.known _ hk)
    obtain ⟨hattached, hres⟩ := attached_attachAll hstored h.held
      ⟨v, List.mem_append_right _ List.mem_cons_self, rfl, hlive⟩ hatt
    have hnamed : s'.skillNamed new.name = some { row with currentVersionId := some v.id } := by
      rw [hattached.same]
      refine skillNamed_written (r := row) (fun _ => rfl) ?_
      rw [skillNamed] at hnone
      rw [byKey_append, hnone, byKey_cons, if_pos rfl]
      rfl
    have hactive : s'.activeVersion { row with currentVersionId := some v.id } = some v := by
      rw [hattached.same]
      exact byKey_next h rfl
    refine ⟨?_, fun b hb => ?_⟩
    · simp only [view, hnamed, hactive, Option.bind_eq_bind, Option.bind_some, hres]
      erw [filter_attached h rfl fun x hx => ?_]
      · rw [List.map_map]
        rfl
      · obtain ⟨y, -, rfl⟩ := List.mem_map.1 hx
        rfl
    · let x : ResourceRow := ⟨v.id, b.path, lib.sha256Hex b.bytes⟩
      have hx : x ∈ s'.resources := hres ▸ List.mem_append_right _ (List.mem_map_of_mem hb)
      have hkey : byKey ResourceRow.key (v.id, b.path) s'.resources = some x := byKey_eq_of_mem hsound.stored.paths hx
      obtain ⟨y, hy, hsha⟩ := List.mem_map.1 (hsound.stored.counted.named _ (List.mem_map_of_mem hx))
      have hblob : byKey BlobRow.sha256 x.blobSha s'.blobs = some y :=
        hsha ▸ byKey_eq_of_mem hsound.stored.counted.unique hy
      have hbytes : y.bytes = b.bytes := hhash b hb y.bytes ((hsound.stored.hashed y hy).symm.trans hsha)
      refine ⟨y.mime, ?_⟩
      simp only [SkillStore.resource, hnamed, hactive, Option.bind_eq_bind, Option.bind_some, hkey, hblob, hbytes]
      rfl

theorem created_reads_back_notes : ∃ mime, (stage 1).resource "ops/log" "a.txt" = some (mime, [65]) := by
  refine (created_reads_back (p := .start) (Steps.run_nil.2 rfl) lived.created fun b _ bytes hbytes => ?_).2 _
    List.mem_cons_self
  exact Wire.hexEncode_inj (String.ofList_injective hbytes)

/-! ## Forgotten skills -/

theorem unseen_of_forgotten (h : Sound lib s) {name : String}
    (hgone : ∀ r ∈ s.skills, r.name = name → s.forgotten r.id = true) : Unseen lib name s := by
  have hactive : ∀ r ∈ s.skills, r.name = name → s.activeVersion r = none := fun r hr hname => by
    rw [activeVersion, if_pos (h.shells.archived r hr (hgone r hr hname))]
  have hentry : ∀ r ∈ s.skills, ∀ e, s.indexEntry r = some e → e.name ≠ name := by
    intro r hr e he hname
    obtain ⟨v, hv, rfl⟩ := Option.map_eq_some_iff.1 he
    rw [hactive r hr hname] at hv
    cases hv
  refine ⟨?_, ?_, fun path => ?_, fun e he => ?_, fun u query k e he => ?_⟩
  · rw [SkillStore.get]
    split
    · rfl
    · next r hr => rw [if_pos (hgone r (mem_of_byKey hr) (key_of_byKey hr))]
  · cases hr : s.skillNamed name with
    | none => simp [view, hr]
    | some r => simp [view, hr, hactive r (mem_of_byKey hr) (key_of_byKey hr)]
  · cases hr : s.skillNamed name with
    | none => simp [SkillStore.resource, hr]
    | some r => simp [SkillStore.resource, hr, hactive r (mem_of_byKey hr) (key_of_byKey hr)]
  · obtain ⟨r, hr, he⟩ := List.mem_filterMap.1 ((mem_orderBy _).1 he)
    exact hentry r hr e he
  · unfold search at he
    dsimp only at he
    split at he
    · cases he
    · obtain ⟨rowid, -, hhit⟩ := List.mem_filterMap.1 (List.mem_of_mem_take he)
      obtain ⟨r, hr, he⟩ := Option.bind_eq_some_iff.1 hhit
      exact hentry r (List.mem_of_find?_eq_some hr) e he

/-- **What is left of a forgotten skill is blank**: no content in its versions, no files, no row of the search index, and
no reader shows it. -/
theorem forgotten_blank (hrun : SkillRun lib .start es p) {r : SkillRow} (hr : r ∈ p.shared.skills)
    (hk : p.shared.forgotten r.id = true) : r.state = .archived ∧ Unseen lib r.name p.shared ∧
      ∀ v ∈ p.shared.versionsOf r.id, scrubVersion lib v = v ∧ (∀ x ∈ p.shared.resources, x.skillVersionId ≠ v.id) ∧
        ∀ row ∈ p.shared.index, row.rowid ≠ v.id := by
  have h := (reached hrun).sound
  have hunseen : Unseen lib r.name p.shared := unseen_of_forgotten h fun x hx hname => by
    rw [eq_of_key h.ordered.names hx hr hname]
    exact hk
  refine ⟨h.shells.archived r hr hk, hunseen, fun v hv => ?_⟩
  obtain ⟨hv, hvk⟩ := List.mem_filter.1 hv
  rw [← of_decide_eq_true hvk] at hk
  have hother : ∀ w ∈ p.shared.versions, p.shared.forgotten w.skillId = false → w.id ≠ v.id := by
    intro w hw hlive hid
    rw [eq_of_key (nodup_range h.ordered.versionIds) hw hv hid, hk] at hlive
    cases hlive
  refine ⟨h.shells.scrubbed v hv hk, fun x hx hid => ?_, fun row hrow => ?_⟩
  · obtain ⟨w, hw, hwid, hlive⟩ := h.stored.attached x hx
    exact hother w hw hlive (hwid.trans hid)
  · rw [h.shells.index_eq] at hrow
    obtain ⟨w, hw, rfl⟩ := List.mem_map.1 hrow
    obtain ⟨hw, hlive⟩ := List.mem_filter.1 hw
    exact hother w hw (by simpa using hlive)

theorem forgotten_blank_notes : ∃ r ∈ (stage 9).skills, r.state = .archived ∧ Unseen sampleLib r.name (stage 9) := by
  obtain ⟨es, -, hrun, -⟩ := run_stage (Nat.le_refl 9)
  obtain ⟨r, hr, hgone⟩ := lived.gone
  have h := forgotten_blank hrun hr hgone
  exact ⟨r, hr, h.1, h.2.1⟩

def Refused {α : Type} (call : SkillProg α) (s : SkillStore) : Prop := ∃ e, Prog.alone call.run s = (.error e, s)

theorem refused_bind {α β : Type} {call : SkillProg α} {f : α → SkillProg β} (hstill : ∀ s, (call.run.alone s).2 = s)
    (hf : ∀ a, Refused (f a) s) : Refused (call >>= f) s := by
  unfold Refused
  rw [alone_exceptT_bind]
  have hs := hstill s
  rcases hres : call.run.alone s with ⟨e | a, t⟩
  · rw [hres] at hs
    exact ⟨e, by rw [← hs]⟩
  · rw [hres] at hs
    obtain rfl : t = s := hs
    exact hf a

theorem refused_transaction {α : Type} {fails : DbError → SkillError}
    {body : SkillStore → Except DbError (α × SkillStore)} {e : DbError} (h : body s = .error e) :
    Refused (transaction fails body) s :=
  ⟨fails e, by simp [transaction, ExceptT.run, ExceptT.mk, h]⟩

/-- **A forgotten name is gone for good**: after `forget` has deleted it, over any later run, no reader shows it, and no
call makes, imports or proposes a skill of that name. -/
theorem forgotten_for_good (hrun : SkillRun lib .start es p) {i : Nat} {name requestedBy uuid : String} {now : Int}
    {report : SkillPrivacyDeletionReport}
    (hdone : .returns i (.forget name requestedBy uuid now) (.ok (.report report)) ∈ es)
    (hfirst : report.alreadyForgotten = false) : Unseen lib name p.shared ∧
      (∀ new strictness now', new.name = name → Refused (create lib new strictness now') p.shared) ∧
      (∀ new now', new.name = name → Refused (importShipped lib new now') p.shared) ∧
        ∀ new now', new.proposedName = name → Refused (submitProposal lib new now') p.shared := by
  obtain ⟨⟨h, -⟩, -, hpromised⟩ := flights_run (flights_start lib) hrun
  obtain ⟨hdeleted, hgone⟩ : Gone lib name p.shared := hpromised i _ _ hdone hfirst
  obtain ⟨e, he⟩ : ∃ e, p.shared.ensureNameNotPrivacyDeleted lib name = .error e :=
    ⟨_, by rw [ensureNameNotPrivacyDeleted, if_pos hdeleted]⟩
  refine ⟨unseen_of_forgotten h hgone, fun new strictness now' hname => ?_, fun new now' hname => ?_,
    fun new now' hname => ?_⟩ <;> subst hname
  · refine refused_bind (fun _ => rfl) fun _ => refused_transaction (e := e) ?_
    rw [createBody, he]
    rfl
  · refine refused_bind (fun _ => rfl) fun _ => refused_bind (fun _ => rfl) fun owning => refused_transaction (e := e) ?_
    rw [importBody, he]
    rfl
  · refine refused_bind (fun _ => rfl) fun _ => refused_transaction (e := e) ?_
    rw [submitBody, he]
    rfl

theorem forgotten_for_good_notes : Unseen sampleLib "ops/log" (stage 9) := by
  obtain ⟨es, -, hrun, -⟩ := run_stage (Nat.le_refl 8)
  let c : SkillCall := .forget "ops/log" "admin" "0" 9
  obtain ⟨n, hn⟩ :=
    @Pool.run_alone _ _ _ Empty (SkillCall.prog sampleLib) (fun s _ => s) ⟨stage 8, fun _ => none⟩ 0 c rfl
  rw [lived.deleted] at hn
  have hdone : ∀ pre : List (Event SkillCall (Except SkillError SkillReply) Empty),
      .returns 0 c (.ok (.report ⟨false, 4, 1, 1, 1, 2, 1⟩)) ∈ pre ++ (.call 0 c :: (List.replicate n (.step 0) ++
        [.returns 0 c (.ok (.report ⟨false, 4, 1, 1, 1, 2, 1⟩))])) := by simp
  exact (forgotten_for_good (Steps.run_append.2 ⟨_, hrun, hn⟩) (hdone es) rfl).1

end SkillStore

end Execlaw
