import Execlaw.Histories
import Execlaw.Refcounts
import Execlaw.SkillStore
/-!
# SkillTables — what the writes of the skill store keep

The invariant is in five parts, each about the tables it names: the skills and their versions (`Ordered`), the shells
that `forget` leaves (`Shells`), resources and blobs (`Stored`), proposals (`Listed`) and evaluations (`Gated`).
-/
namespace Execlaw

open Table

namespace SkillStore

variable {lib : SkillLib}

/-! ## Skills and versions -/

def versionsIn (versions : List SkillVersion) (k : Nat) : List SkillVersion :=
  versions.filter fun v => decide (v.skillId = k)

abbrev Linear : List SkillVersion → Prop :=
  Histories.Linear SkillVersion.version SkillVersion.id SkillVersion.parentVersionId

/-- Skills and versions, `gone` being forgotten: **the current version is the newest**. -/
structure Ordered (gone : Nat → Bool) (skills : List SkillRow) (versions : List SkillVersion) : Prop where
  ids : skills.map SkillRow.id = List.range' 1 skills.length
  names : (skills.map SkillRow.name).Nodup
  versionIds : versions.map SkillVersion.id = List.range' 1 versions.length
  owned : ∀ v ∈ versions, v.skillId ∈ skills.map SkillRow.id
  linear : ∀ k, Linear (versionsIn versions k)
  current : ∀ r ∈ skills, r.currentVersionId =
    if gone r.id then none else (versionsIn versions r.id).getLast?.map SkillVersion.id

variable {gone : Nat → Bool} {skills : List SkillRow} {versions : List SkillVersion}

theorem next_notMem {l : List Nat} {n : Nat} (h : l = List.range' 1 n) : n + 1 ∉ l := by
  rw [h, List.mem_range'_1]
  omega

theorem range_snoc {ρ : Type} {key : ρ → Nat} {l : List ρ} {r : ρ} (h : l.map key = List.range' 1 l.length)
    (hr : key r = l.length + 1) : (l ++ [r]).map key = List.range' 1 (l ++ [r]).length := by
  rw [List.map_append, List.map_singleton, List.length_append, List.length_singleton, h, hr, List.range'_concat,
    Nat.mul_comm, Nat.mul_one, Nat.add_comm]

theorem map_rewrite {α β : Type} {g : α → β} {f : α → α} {l : List α} (h : ∀ a ∈ l, g (f a) = g a) :
    (l.map f).map g = l.map g := by
  rw [List.map_map]
  exact List.map_congr_left h

theorem nodup_range {l : List Nat} {n : Nat} (h : l = List.range' 1 n) : l.Nodup := h ▸ List.nodup_range'

theorem versionsIn_snoc (v : SkillVersion) (k : Nat) :
    versionsIn (versions ++ [v]) k = versionsIn versions k ++ if v.skillId = k then [v] else [] := by
  rw [versionsIn, List.filter_append, List.filter_singleton]
  by_cases h : v.skillId = k <;> simp [h, versionsIn]

theorem versionsIn_map {f : SkillVersion → SkillVersion} (hf : ∀ v, (f v).skillId = v.skillId) (k : Nat) :
    versionsIn (versions.map f) k = (versionsIn versions k).map f := by
  simp [versionsIn, List.filter_map, Function.comp_def, hf]

namespace Ordered

theorem nodup (h : Ordered gone skills versions) : (skills.map SkillRow.id).Nodup := nodup_range h.ids

theorem rewrite (h : Ordered gone skills versions) {f : SkillVersion → SkillVersion} {g : SkillRow → SkillRow}
    {gone' : Nat → Bool} (hf : ∀ v, (f v).id = v.id ∧ (f v).skillId = v.skillId ∧ (f v).version = v.version ∧
      (f v).parentVersionId = v.parentVersionId)
    (hgone : ∀ k, gone k = true → gone' k = true) (hg : ∀ r ∈ skills, (g r).id = r.id ∧
      (g r).currentVersionId = if gone' r.id then none else r.currentVersionId)
    (hnames : ((skills.map g).map SkillRow.name).Nodup) : Ordered gone' (skills.map g) (versions.map f) := by
  have hids : (skills.map g).map SkillRow.id = skills.map SkillRow.id := map_rewrite fun r hr => (hg r hr).1
  have hid : (SkillVersion.id ∘ f) = SkillVersion.id := funext fun v => (hf v).1
  refine ⟨?_, hnames, ?_, ?_, fun j => ?_, fun x hx => ?_⟩
  · rw [hids, List.length_map]
    exact h.ids
  · rw [map_rewrite fun v _ => (hf v).1, List.length_map]
    exact h.versionIds
  · rw [hids]
    intro x hx
    obtain ⟨v, hv, rfl⟩ := List.mem_map.1 hx
    rw [(hf v).2.1]
    exact h.owned v hv
  · rw [versionsIn_map fun v => (hf v).2.1]
    exact (h.linear j).map (fun v => (hf v).2.2.1) (fun v => (hf v).1) (fun v => (hf v).2.2.2)
  · obtain ⟨r, hr, rfl⟩ := List.mem_map.1 hx
    rw [versionsIn_map fun v => (hf v).2.1, List.getLast?_map, Option.map_map, hid, (hg r hr).1, (hg r hr).2,
      h.current r hr]
    cases hnow : gone' r.id with
    | true => rfl
    | false =>
      rw [Bool.eq_false_iff.2 fun hold => Bool.eq_false_iff.1 hnow (hgone r.id hold)]
      rfl

theorem push (h : Ordered gone skills versions) {r : SkillRow} (hid : r.id = skills.length + 1)
    (hname : r.name ∉ skills.map SkillRow.name) (hcurrent : r.currentVersionId = none) :
    Ordered gone (skills ++ [r]) versions := by
  refine ⟨range_snoc h.ids hid, nodup_snoc h.names hname, h.versionIds, fun v hv => ?_, h.linear, fun x hx => ?_⟩
  · rw [List.map_append]
    exact List.mem_append_left _ (h.owned v hv)
  · rcases List.mem_append.1 hx with hx | hx
    · exact h.current x hx
    · obtain rfl := List.mem_singleton.1 hx
      have hnone : versionsIn versions x.id = [] := by
        refine List.filter_eq_nil_iff.2 fun v hv heq => next_notMem h.ids ?_
        rw [← hid, ← of_decide_eq_true heq]
        exact h.owned v hv
      rw [hcurrent, hnone]
      simp

theorem write (h : Ordered gone skills versions) {v : SkillVersion} {set : SkillRow → SkillRow}
    (hset : ∀ r, (set r).id = r.id ∧ (set r).name = r.name ∧ (set r).currentVersionId = r.currentVersionId)
    (hid : v.id = versions.length + 1) (howned : v.skillId ∈ skills.map SkillRow.id) (hgone : gone v.skillId = false)
    (hnumber : v.version = (versionsIn versions v.skillId).length + 1)
    (hparent : v.parentVersionId = (versionsIn versions v.skillId).getLast?.map SkillVersion.id) :
    Ordered gone (updateKey SkillRow.id v.skillId (fun r => set { r with currentVersionId := some v.id }) skills)
      (versions ++ [v]) := by
  let f := fun r : SkillRow => set { r with currentVersionId := some v.id }
  have hids : (updateKey SkillRow.id v.skillId f skills).map SkillRow.id = skills.map SkillRow.id :=
    keys_updateKey v.skillId f (fun r => (hset _).1) skills
  refine ⟨?_, ?_, ?_, ?_, fun k => ?_, fun x hx => ?_⟩
  · rw [hids, updateKey, List.length_map]
    exact h.ids
  · rw [map_updateKey SkillRow.name v.skillId f fun r => (hset _).2.1]
    exact h.names
  · exact range_snoc h.versionIds hid
  · rw [hids]
    intro w hw
    rcases List.mem_append.1 hw with hw | hw
    · exact h.owned w hw
    · rwa [List.mem_singleton.1 hw]
  · rw [versionsIn_snoc]
    by_cases hk : v.skillId = k
    · subst hk
      rw [if_pos rfl]
      exact (h.linear _).snoc hnumber hparent
    · rw [if_neg hk, List.append_nil]
      exact h.linear k
  · obtain ⟨r, hr, rfl⟩ := mem_updateKey.1 hx
    rw [versionsIn_snoc]
    by_cases hk : r.id = v.skillId
    · simp only [if_pos hk, (hset _).1, (hset _).2.2]
      rw [if_pos hk.symm, hk, hgone]
      simp
    · simp only [if_neg hk, if_neg (Ne.symm hk), List.append_nil]
      exact h.current r hr

theorem of_current (h : Ordered gone skills versions) {r : SkillRow} (hr : r ∈ skills) {id : Nat}
    (hid : r.currentVersionId = some id) :
    gone r.id = false ∧ (versionsIn versions r.id).getLast?.map SkillVersion.id = some id := by
  have hcurrent := h.current r hr
  rw [hid] at hcurrent
  cases hgone : gone r.id with
  | true => simp [hgone] at hcurrent
  | false => exact ⟨rfl, by simpa [hgone] using hcurrent.symm⟩

end Ordered

/-! ## Shells -/

/-- **What `forget` leaves of a skill**: an archived row and blank versions that no search finds. -/
structure Shells (lib : SkillLib) (gone : Nat → Bool) (skills : List SkillRow) (versions : List SkillVersion)
    (index : List SearchRow) : Prop where
  known : ∀ k, gone k = true → k ∈ skills.map SkillRow.id
  archived : ∀ r ∈ skills, gone r.id = true → r.state = .archived
  scrubbed : ∀ v ∈ versions, gone v.skillId = true → scrubVersion lib v = v
  index_eq : index = (versions.filter fun v => !gone v.skillId).map SkillVersion.searchRow

namespace Shells

variable {index : List SearchRow} {f : SkillRow → SkillRow}

theorem rows (h : Shells lib gone skills versions index)
    (hf : ∀ r ∈ skills, (f r).id = r.id ∧ (gone r.id = true → r.state = .archived → (f r).state = .archived)) :
    Shells lib gone (skills.map f) versions index := by
  refine ⟨fun k hk => ?_, fun x hx hgone => ?_, h.scrubbed, h.index_eq⟩
  · rw [map_rewrite fun r hr => (hf r hr).1]
    exact h.known k hk
  · obtain ⟨r, hr, rfl⟩ := List.mem_map.1 hx
    rw [(hf r hr).1] at hgone
    exact (hf r hr).2 hgone (h.archived r hr hgone)

theorem push (h : Shells lib gone skills versions index) {r : SkillRow} (hnew : r.id ∉ skills.map SkillRow.id) :
    Shells lib gone (skills ++ [r]) versions index := by
  refine ⟨fun k hk => ?_, fun x hx hgone => ?_, h.scrubbed, h.index_eq⟩
  · rw [List.map_append]
    exact List.mem_append_left _ (h.known k hk)
  · rcases List.mem_append.1 hx with hx | hx
    · exact h.archived x hx hgone
    · rw [List.mem_singleton.1 hx] at hgone
      exact absurd (h.known _ hgone) hnew

theorem write (h : Shells lib gone skills versions index) {v : SkillVersion} (hgone : gone v.skillId = false)
    (hf : ∀ r, (f r).id = r.id) :
    Shells lib gone (updateKey SkillRow.id v.skillId f skills) (versions ++ [v]) (index ++ [v.searchRow]) := by
  have hrows : Shells lib gone (updateKey SkillRow.id v.skillId f skills) versions index := by
    refine h.rows fun r _ => ?_
    by_cases hk : r.id = v.skillId
    · rw [if_pos hk]
      exact ⟨hf r, fun hg => by rw [hk, hgone] at hg; cases hg⟩
    · rw [if_neg hk]
      exact ⟨rfl, fun _ harchived => harchived⟩
  refine ⟨hrows.known, hrows.archived, fun w hw hg => ?_, ?_⟩
  · rcases List.mem_append.1 hw with hw | hw
    · exact h.scrubbed w hw hg
    · rw [List.mem_singleton.1 hw, hgone] at hg
      cases hg
  · rw [h.index_eq, List.filter_append, List.map_append, List.filter_singleton, hgone]
    rfl

theorem versions_map (h : Shells lib gone skills versions index) {f : SkillVersion → SkillVersion}
    (hf : ∀ v ∈ versions, (f v).skillId = v.skillId ∧ (f v).searchRow = v.searchRow ∧
      (gone v.skillId = true → scrubVersion lib (f v) = f v)) : Shells lib gone skills (versions.map f) index := by
  refine ⟨h.known, h.archived, fun x hx hgone => ?_, ?_⟩
  · obtain ⟨v, hv, rfl⟩ := List.mem_map.1 hx
    rw [(hf v hv).1] at hgone
    exact (hf v hv).2.2 hgone
  · have hfilter : versions.filter ((fun v => !gone v.skillId) ∘ f) = versions.filter fun v => !gone v.skillId :=
      List.filter_congr fun v hv => by rw [Function.comp_apply, (hf v hv).1]
    rw [h.index_eq, List.filter_map, hfilter, map_rewrite fun v hv => (hf v (List.mem_filter.1 hv).1).2.1]

theorem forget (h : Shells lib gone skills versions index) {k : Nat} {g : SkillRow → SkillRow}
    (hk : k ∈ skills.map SkillRow.id) (hg : ∀ r, (g r).id = r.id ∧ (g r).state = .archived)
    (hids : (versions.map SkillVersion.id).Nodup) :
    Shells lib (fun j => gone j || k == j) (updateKey SkillRow.id k g skills)
      (versions.map fun v => if v.skillId = k then scrubVersion lib v else v)
      (index.filter fun row => !decide (row ∈ (versionsIn versions k).map SkillVersion.searchRow)) := by
  have hskill : ∀ v : SkillVersion, (if v.skillId = k then scrubVersion lib v else v).skillId = v.skillId := fun v => by
    split <;> rfl
  have hkeys : (updateKey SkillRow.id k g skills).map SkillRow.id = skills.map SkillRow.id :=
    keys_updateKey k g (fun r => (hg r).1) skills
  refine ⟨fun j hj => ?_, fun x hx hgone => ?_, fun x hx hgone => ?_, ?_⟩
  · rw [hkeys]
    rcases Bool.or_eq_true_iff.1 hj with hj | hj
    · exact h.known j hj
    · exact beq_iff_eq.1 hj ▸ hk
  · obtain ⟨r, hr, rfl⟩ := mem_updateKey.1 hx
    by_cases hrk : r.id = k
    · rw [if_pos hrk]
      exact (hg r).2
    · rw [if_neg hrk] at hgone ⊢
      exact h.archived r hr (by simpa [Ne.symm hrk] using hgone)
  · obtain ⟨v, hv, rfl⟩ := List.mem_map.1 hx
    by_cases hvk : v.skillId = k
    · rw [if_pos hvk]
      rfl
    · rw [if_neg hvk] at hgone ⊢
      exact h.scrubbed v hv (by simpa [Ne.symm hvk] using hgone)
  · -- a row of the index is one of the skill's versions if and only if its version is
    have hrow : ∀ v ∈ versions, v.searchRow ∈ (versionsIn versions k).map SkillVersion.searchRow ↔ v.skillId = k := by
      intro v hv
      constructor
      · intro hmem
        obtain ⟨w, hw, heq⟩ := List.mem_map.1 hmem
        obtain ⟨hw, hwk⟩ := List.mem_filter.1 hw
        obtain rfl := eq_of_key hids hw hv (congrArg SearchRow.rowid heq)
        exact of_decide_eq_true hwk
      · exact fun hvk => List.mem_map_of_mem (List.mem_filter.2 ⟨hv, decide_eq_true hvk⟩)
    rw [h.index_eq, List.filter_map, List.filter_map, List.filter_filter, List.map_map]
    have hfilter : versions.filter (fun v => (!decide (v.searchRow ∈
        (versionsIn versions k).map SkillVersion.searchRow)) && !gone v.skillId) =
        versions.filter (fun v => !(gone v.skillId || k == v.skillId)) := by
      refine List.filter_congr fun v hv => ?_
      by_cases hvk : v.skillId = k
      · simp [(hrow v hv).2 hvk, hvk]
      · simp [mt (hrow v hv).1 hvk, Ne.symm hvk]
    simp only [Function.comp_def, hskill]
    rw [hfilter]
    refine List.map_congr_left fun v hv => ?_
    have hvk : v.skillId ≠ k := by
      have hkept := (List.mem_filter.1 hv).2
      simp only [Bool.not_or, Bool.and_eq_true, Bool.not_eq_true', beq_eq_false_iff_ne] at hkept
      exact Ne.symm hkept.2
    rw [if_neg hvk]

end Shells

/-! ## Resources and blobs -/

def blobCounter : Refcounts.Counter BlobRow String where
  key := BlobRow.sha256
  count := BlobRow.refcount
  add d b := { b with refcount := b.refcount + d }
  key_add _ _ := rfl
  count_add _ _ := rfl

structure Stored (lib : SkillLib) (gone : Nat → Bool) (versions : List SkillVersion) (resources : List ResourceRow)
    (blobs : List BlobRow) : Prop where
  attached : ∀ x ∈ resources, ∃ v ∈ versions, v.id = x.skillVersionId ∧ gone v.skillId = false
  paths : (resources.map ResourceRow.key).Nodup
  counted : Refcounts.Counted blobCounter blobs (resources.map ResourceRow.blobSha)
  hashed : ∀ b ∈ blobs, b.sha256 = lib.sha256Hex b.bytes

def Held (blobs : List BlobRow) (resources : List ResourceRow) : Prop :=
  ∀ b ∈ blobs, b.sha256 ∈ resources.map ResourceRow.blobSha

def contentOf (blobs : List BlobRow) (sha : String) : Option (String × List UInt8) :=
  (byKey BlobRow.sha256 sha blobs).map fun b => (b.mime, b.bytes)

def filesOf (resources : List ResourceRow) (blobs : List BlobRow) (id : Nat) :
    List (ResourceRow × Option (String × List UInt8)) :=
  (resources.filter fun x => decide (x.skillVersionId = id)).map fun x => (x, contentOf blobs x.blobSha)

variable {resources : List ResourceRow} {blobs : List BlobRow} {s s' : SkillStore} {sha : String}

theorem contentOf_count (f : BlobRow → BlobRow)
    (hf : ∀ b, (f b).sha256 = b.sha256 ∧ (f b).mime = b.mime ∧ (f b).bytes = b.bytes) (k : String) :
    contentOf (updateKey BlobRow.sha256 k f blobs) sha = contentOf blobs sha := by
  rw [contentOf, byKey_updateKey k sha f (fun b => (hf b).1), Option.map_map, contentOf]
  refine congrArg (fun g => (byKey BlobRow.sha256 sha blobs).map g) (funext fun b => ?_)
  by_cases hb : b.sha256 = k
  · simp [hb, (hf b).2.1, (hf b).2.2]
  · simp [hb]

theorem Stored.write (h : Stored lib gone versions resources blobs) (v : SkillVersion) :
    Stored lib gone (versions ++ [v]) resources blobs := by
  refine ⟨fun x hx => ?_, h.paths, h.counted, h.hashed⟩
  obtain ⟨w, hw, hid⟩ := h.attached x hx
  exact ⟨w, List.mem_append_left _ hw, hid⟩

theorem Stored.versions_map (h : Stored lib gone versions resources blobs) {f : SkillVersion → SkillVersion}
    (hf : ∀ v, (f v).id = v.id ∧ (f v).skillId = v.skillId) : Stored lib gone (versions.map f) resources blobs := by
  refine ⟨fun x hx => ?_, h.paths, h.counted, h.hashed⟩
  obtain ⟨w, hw, hid, hgone⟩ := h.attached x hx
  exact ⟨f w, List.mem_map_of_mem hw, (hf w).1.trans hid, by rw [(hf w).2]; exact hgone⟩

structure Attached (lib : SkillLib) (gone : Nat → Bool) (vid : Nat) (s s' : SkillStore) : Prop where
  stored : Stored lib gone s.versions s'.resources s'.blobs
  held : Held s'.blobs s'.resources
  same : s' = { s with resources := s'.resources, blobs := s'.blobs }
  files : ∀ id, id ≠ vid → filesOf s'.resources s'.blobs id = filesOf s.resources s.blobs id

variable {vid : Nat}

theorem contentOf_append (h : sha ∈ blobs.map BlobRow.sha256) (b : BlobRow) :
    contentOf (blobs ++ [b]) sha = contentOf blobs sha := by
  obtain ⟨x, hx⟩ := Option.ne_none_iff_exists'.1 (mt byKey_eq_none.1 (not_not.2 h))
  rw [contentOf, byKey_append, hx, contentOf, hx]
  rfl

theorem filesOf_congr {blobs' : List BlobRow} {id : Nat}
    (h : ∀ x ∈ resources, x.skillVersionId = id → contentOf blobs' x.blobSha = contentOf blobs x.blobSha) :
    filesOf resources blobs' id = filesOf resources blobs id :=
  List.map_congr_left fun x hx => by
    rw [h x (List.mem_filter.1 hx).1 (of_decide_eq_true (List.mem_filter.1 hx).2)]

theorem filesOf_snoc {r : ResourceRow} {id : Nat} (h : id ≠ r.skillVersionId) :
    filesOf (resources ++ [r]) blobs id = filesOf resources blobs id := by
  rw [filesOf, List.filter_append, List.filter_singleton, decide_eq_false (Ne.symm h)]
  simp [filesOf]

theorem Attached.trans {t : SkillStore} (h : Attached lib gone vid s s') (h' : Attached lib gone vid s' t) :
    Attached lib gone vid s t := by
  refine ⟨?_, h'.held, ?_, fun id hid => (h'.files id hid).trans (h.files id hid)⟩
  · have hversions : s'.versions = s.versions := by rw [h.same]
    exact hversions ▸ h'.stored
  · rw [h'.same, h.same]

theorem attached_insert {r : ResourceRow} (hins : s.insertResource r = .ok s')
    (h : Stored lib gone s.versions s.resources s.blobs)
    (hheld : ∀ b ∈ s.blobs, b.sha256 ∈ s.resources.map ResourceRow.blobSha ∨ b.sha256 = r.blobSha)
    (hv : ∃ v ∈ s.versions, v.id = r.skillVersionId ∧ gone v.skillId = false)
    (hblob : r.blobSha ∈ s.blobs.map BlobRow.sha256) :
    Attached lib gone r.skillVersionId s s' ∧ s'.resources = s.resources ++ [r] ∧
      s'.blobs.map BlobRow.sha256 = s.blobs.map BlobRow.sha256 ∧
      ∀ sha, contentOf s'.blobs sha = contentOf s.blobs sha := by
  unfold insertResource at hins
  split at hins
  · cases hins
  · next hfresh =>
    cases hins
    have hpath : r.key ∉ s.resources.map ResourceRow.key := by
      rintro hmem
      obtain ⟨x, hx, heq⟩ := List.mem_map.1 hmem
      exact hfresh (List.any_eq_true.2 ⟨x, hx, beq_iff_eq.2 heq⟩)
    let f := fun b : BlobRow => { b with refcount := b.refcount + 1 }
    have hcontent : ∀ sha, contentOf (updateKey BlobRow.sha256 r.blobSha f s.blobs) sha = contentOf s.blobs sha :=
      fun sha => contentOf_count f (fun b => ⟨rfl, rfl, rfl⟩) r.blobSha
    refine ⟨⟨⟨fun x hx => ?_, nodup_snoc h.paths hpath, ?_, fun b hb => ?_⟩, fun b hb => ?_, rfl, fun id hid => ?_⟩, rfl,
      keys_updateKey r.blobSha f (fun _ => rfl) s.blobs, hcontent⟩
    · rcases List.mem_append.1 hx with hx | hx
      · exact h.attached x hx
      · rwa [List.mem_singleton.1 hx]
    · rw [List.map_append, List.map_singleton]
      exact h.counted.refer hblob
    · obtain ⟨b', hb', rfl⟩ := mem_updateKey.1 hb
      split <;> exact h.hashed b' hb'
    · obtain ⟨b', hb', rfl⟩ := mem_updateKey.1 hb
      rw [List.map_append, List.map_singleton, List.mem_append, List.mem_singleton]
      split <;> exact hheld b' hb'
    · rw [filesOf_snoc hid]
      exact filesOf_congr fun x _ _ => hcontent x.blobSha

theorem stored_upsertBlob (h : Stored lib gone s.versions s.resources s.blobs) (hheld : Held s.blobs s.resources)
    (bytes : List UInt8) (mime : String) : ∃ blobs, s.upsertBlob lib bytes mime = { s with blobs := blobs } ∧
      Stored lib gone s.versions s.resources blobs ∧ lib.sha256Hex bytes ∈ blobs.map BlobRow.sha256 ∧
      (∀ b ∈ blobs, b.sha256 ∈ s.resources.map ResourceRow.blobSha ∨ b.sha256 = lib.sha256Hex bytes) ∧
      ∀ x ∈ s.resources, contentOf blobs x.blobSha = contentOf s.blobs x.blobSha := by
  unfold upsertBlob
  split
  · next hany =>
    obtain ⟨b, hb, hsha⟩ := List.any_eq_true.1 hany
    exact ⟨s.blobs, rfl, h, beq_iff_eq.1 hsha ▸ List.mem_map_of_mem hb, fun b hb => .inl (hheld b hb), fun _ _ => rfl⟩
  · next hany =>
    have hfresh : lib.sha256Hex bytes ∉ s.blobs.map BlobRow.sha256 := fun hmem => by
      obtain ⟨b, hb, hsha⟩ := List.mem_map.1 hmem
      exact hany (List.any_eq_true.2 ⟨b, hb, beq_iff_eq.2 hsha⟩)
    refine ⟨_, rfl, ⟨h.attached, h.paths, h.counted.insert hfresh rfl, fun b hb => ?_⟩, ?_, fun b hb => ?_,
      fun x hx => contentOf_append (h.counted.named _ (List.mem_map_of_mem hx)) _⟩
    · rcases List.mem_append.1 hb with hb | hb
      · exact h.hashed b hb
      · rw [List.mem_singleton.1 hb]
    · simp
    · rcases List.mem_append.1 hb with hb | hb
      · exact .inl (hheld b hb)
      · rw [List.mem_singleton.1 hb]
        exact .inr rfl

theorem attached_attachAll : ∀ {rs : List ResourceBlob} {s : SkillStore}, Stored lib gone s.versions s.resources s.blobs →
    Held s.blobs s.resources → (∃ v ∈ s.versions, v.id = vid ∧ gone v.skillId = false) →
      attachAll lib vid rs s = .ok s' → Attached lib gone vid s s' ∧
        s'.resources = s.resources ++ rs.map fun r => ⟨vid, r.path, lib.sha256Hex r.bytes⟩
  | [], s, h, hheld, _, hrun => by
    cases hrun
    exact ⟨⟨h, hheld, rfl, fun _ _ => rfl⟩, by simp⟩
  | r :: rs, s, h, hheld, hv, hrun => by
    obtain ⟨t, ht, hrun⟩ := bind_eq_ok.1 hrun
    obtain ⟨blobs, hup, hstored, hmem, hheld', hcontent⟩ := stored_upsertBlob h hheld r.bytes r.mime
    rw [hup] at ht
    obtain ⟨hins, hres, -, -⟩ := attached_insert ht hstored hheld' hv hmem
    have hfirst : Attached lib gone vid s t := by
      refine ⟨hins.stored, hins.held, by rw [hins.same], fun id hid => ?_⟩
      rw [hins.files id hid]
      exact filesOf_congr fun x hx _ => hcontent x hx
    have hversions : t.versions = s.versions := by rw [hins.same]
    rw [← hversions] at hv
    obtain ⟨hrest, hrows⟩ := attached_attachAll (hversions ▸ hins.stored) hins.held hv hrun
    refine ⟨hfirst.trans hrest, ?_⟩
    rw [hrows, hres, List.append_assoc]
    rfl

theorem attached_copyAll : ∀ {rs : List ResourceRow} {s : SkillStore}, Stored lib gone s.versions s.resources s.blobs →
    Held s.blobs s.resources → (∃ v ∈ s.versions, v.id = vid ∧ gone v.skillId = false) →
      (∀ r ∈ rs, r.blobSha ∈ s.blobs.map BlobRow.sha256) → copyAll vid rs s = .ok s' → Attached lib gone vid s s' ∧
        s'.resources = s.resources ++ (rs.map fun r => { r with skillVersionId := vid }) ∧
        ∀ sha, contentOf s'.blobs sha = contentOf s.blobs sha
  | [], s, h, hheld, _, _, hrun => by
    cases hrun
    exact ⟨⟨h, hheld, rfl, fun _ _ => rfl⟩, by simp, fun _ => rfl⟩
  | r :: rs, s, h, hheld, hv, hblobs, hrun => by
    obtain ⟨t, ht, hrun⟩ := bind_eq_ok.1 hrun
    obtain ⟨hr, hrs⟩ := List.forall_mem_cons.1 hblobs
    obtain ⟨hfirst, hres, hkeys, hcontent⟩ := attached_insert ht h (fun b hb => .inl (hheld b hb)) hv hr
    have hversions : t.versions = s.versions := by rw [hfirst.same]
    rw [← hversions] at hv
    obtain ⟨hrest, hrows, hcontent'⟩ := attached_copyAll (hversions ▸ hfirst.stored) hfirst.held hv
      (fun x hx => hkeys ▸ hrs x hx) hrun
    refine ⟨hfirst.trans hrest, ?_, fun sha => (hcontent' sha).trans (hcontent sha)⟩
    rw [hrows, hres, List.append_assoc]
    rfl

theorem byKey_filter {l : List BlobRow} {p : BlobRow → Bool} (h : ∀ b ∈ l, b.sha256 = sha → p b = true) :
    byKey BlobRow.sha256 sha (l.filter p) = byKey BlobRow.sha256 sha l := by
  induction l with
  | nil => rfl
  | cons b l ih =>
    obtain ⟨hb, hl⟩ := List.forall_mem_cons.1 h
    by_cases hsha : b.sha256 = sha
    · rw [List.filter_cons_of_pos (hb hsha), byKey_cons, byKey_cons, if_pos hsha, if_pos hsha]
    · cases hp : p b with
      | true => rw [List.filter_cons_of_pos hp, byKey_cons, byKey_cons, if_neg hsha, if_neg hsha, ih hl]
      | false => rw [List.filter_cons_of_neg (by simp [hp]), byKey_cons, if_neg hsha, ih hl]

theorem bump_down (rs : List ResourceRow) (blobs : List BlobRow) :
    let blobs' := rs.foldl (fun blobs r => updateKey BlobRow.sha256 r.blobSha
      (fun b => { b with refcount := b.refcount - 1 }) blobs) blobs
    (∀ b ∈ blobs', ∃ b₀ ∈ blobs, b.sha256 = b₀.sha256 ∧ b.bytes = b₀.bytes) ∧
      ∀ sha, contentOf blobs' sha = contentOf blobs sha := by
  induction rs generalizing blobs with
  | nil => exact ⟨fun b hb => ⟨b, hb, rfl, rfl⟩, fun _ => rfl⟩
  | cons r rs ih =>
    let f := fun b : BlobRow => { b with refcount := b.refcount - 1 }
    obtain ⟨hrows, hcontent⟩ := ih (updateKey BlobRow.sha256 r.blobSha f blobs)
    refine ⟨fun b hb => ?_, fun sha => (hcontent sha).trans (contentOf_count f (fun b => ⟨rfl, rfl, rfl⟩) r.blobSha)⟩
    obtain ⟨b₁, hb₁, hsha, hbytes⟩ := hrows b hb
    obtain ⟨b₀, hb₀, rfl⟩ := mem_updateKey.1 hb₁
    refine ⟨b₀, hb₀, hsha.trans ?_, hbytes.trans ?_⟩ <;> split <;> rfl

theorem Stored.forget (h : Stored lib s.forgotten s.versions s.resources s.blobs) (hheld : Held s.blobs s.resources)
    (tombstone : SkillTombstone) (placeholder name : String) (now : Int) :
    let s' := s.scrub lib tombstone placeholder name now
    Stored lib (fun j => s.forgotten j || tombstone.skillId == j) s'.versions s'.resources s'.blobs ∧
      Held s'.blobs s'.resources ∧ ∀ id, id ∉ (versionsIn s.versions tombstone.skillId).map SkillVersion.id →
        filesOf s'.resources s'.blobs id = filesOf s.resources s.blobs id := by
  intro s'
  let ids := (versionsIn s.versions tombstone.skillId).map SkillVersion.id
  let takes := fun r : ResourceRow => decide (r.skillVersionId ∈ ids)
  let dropped := (s.resources.filter takes).map ResourceRow.blobSha
  let kept := (s.resources.filter fun r => !takes r).map ResourceRow.blobSha
  obtain ⟨hrows, hcontent⟩ := bump_down (s.resources.filter takes) s.blobs
  have hperm : (s.resources.map ResourceRow.blobSha).Perm (dropped ++ kept) := by
    rw [← List.map_append]
    exact ((List.filter_append_perm takes s.resources).map _).symm
  have hcounted := (h.counted.perm hperm).drop
  rw [List.foldl_map] at hcounted
  have hmem : ∀ b ∈ s'.blobs, ∃ b₀ ∈ s.blobs, b.sha256 = b₀.sha256 ∧ b.bytes = b₀.bytes := fun b hb =>
    hrows b (List.mem_filter.1 hb).1
  refine ⟨⟨fun x hx => ?_, h.paths.sublist (List.filter_sublist.map _), hcounted.sweep dropped.dedup, fun b hb => ?_⟩,
    hcounted.held_sweep fun b hb => ?_, fun id hid => ?_⟩
  · obtain ⟨hx, hkeep⟩ := List.mem_filter.1 hx
    obtain ⟨v, hv, hvid, hgone⟩ := h.attached x hx
    have hvk : v.skillId ≠ tombstone.skillId := fun heq => by
      have htakes : takes x = true :=
        decide_eq_true (hvid ▸ List.mem_map_of_mem (List.mem_filter.2 ⟨hv, decide_eq_true heq⟩))
      have hnot : (!takes x) = true := hkeep
      rw [htakes] at hnot
      cases hnot
    refine ⟨v, List.mem_map.2 ⟨v, hv, if_neg hvk⟩, hvid, ?_⟩
    simp [hgone, Ne.symm hvk]
  · obtain ⟨b₀, hb₀, hsha, hbytes⟩ := hmem b hb
    rw [hsha, hbytes]
    exact h.hashed b₀ hb₀
  · obtain ⟨b₀, hb₀, hsha, -⟩ := hrows b hb
    have hrefs := hperm.mem_iff.1 (hheld b₀ hb₀)
    rw [List.mem_append, ← hsha] at hrefs
    exact hrefs.symm.imp_right List.mem_dedup.2
  · have hfilter : s'.resources.filter (fun x => decide (x.skillVersionId = id)) =
        s.resources.filter fun x => decide (x.skillVersionId = id) := by
      refine (List.filter_filter ..).trans (List.filter_congr fun x _ => ?_)
      by_cases hx : x.skillVersionId = id
      · have htakes : takes x = false := decide_eq_false (hx ▸ hid)
        exact (congrArg (fun b => decide (x.skillVersionId = id) && !b) htakes).trans (Bool.and_true _)
      · simp [hx]
    rw [filesOf, hfilter]
    refine List.map_congr_left fun x hx => ?_
    obtain ⟨hx, hxid⟩ := List.mem_filter.1 hx
    have hkept : x.blobSha ∈ kept := by
      refine List.mem_map_of_mem (List.mem_filter.2 ⟨hx, ?_⟩)
      have hnot : x.skillVersionId ∉ ids := of_decide_eq_true hxid ▸ hid
      simp [takes, hnot]
    -- a blob still referred to is not swept
    have hsweep : contentOf s'.blobs x.blobSha = contentOf (s.deleteResources takes).blobs x.blobSha := by
      refine congrArg (Option.map _) (byKey_filter fun b hb hsha => ?_)
      have hcount : b.refcount = kept.count b.sha256 := hcounted.counts b hb
      have hpos : 0 < kept.count b.sha256 := List.count_pos_iff.2 (hsha ▸ hkept)
      have hnot : ¬ b.refcount ≤ 0 := by omega
      simp [hnot]
    rw [hsweep]
    exact congrArg (Prod.mk x) (hcontent x.blobSha)

/-! ## Proposals and evaluations -/

def Linked (versions : List SkillVersion) (p : SkillProposal) : Prop :=
  ∃ v ∈ versions, p.promotedVersionId = some v.id ∧ p.promotedSkillId = some v.skillId ∧
    (p.kind = .versionFork → p.targetSkillId = some v.skillId)

/-- **At most one pending fork a skill**, and approved proposals linked. -/
structure Listed (versions : List SkillVersion) (proposals : List SkillProposal) : Prop where
  ids : proposals.map SkillProposal.id = List.range' 1 proposals.length
  single : ∀ t, proposals.countP (superseded t) ≤ 1
  links : ∀ p ∈ proposals, p.state = .approved → Linked versions p

def Onward (versions versions' : List SkillVersion) : Prop :=
  ∀ v ∈ versions, ∃ v' ∈ versions', v'.id = v.id ∧ v'.skillId = v.skillId

variable {versions' : List SkillVersion}

theorem Linked.onward (hon : Onward versions versions') {p : SkillProposal} (h : Linked versions p) :
    Linked versions' p := by
  obtain ⟨v, hv, hversion, hskill, hfork⟩ := h
  obtain ⟨v', hv', hid, hskillId⟩ := hon v hv
  exact ⟨v', hv', hid ▸ hversion, hskillId ▸ hskill, hskillId ▸ hfork⟩

variable {proposals : List SkillProposal}

theorem Listed.onward (hon : Onward versions versions') (h : Listed versions proposals) : Listed versions' proposals :=
  ⟨h.ids, h.single, fun p hp hstate => (h.links p hp hstate).onward hon⟩

theorem Listed.map (h : Listed versions proposals) {f : SkillProposal → SkillProposal}
    (hf : ∀ p ∈ proposals, (f p).id = p.id ∧ (∀ t, superseded t (f p) = true → superseded t p = true) ∧
      ((f p).state = .approved → p.state = .approved → Linked versions p → Linked versions (f p)) ∧
      ((f p).state = .approved → p.state ≠ .approved → Linked versions (f p))) :
    Listed versions (proposals.map f) := by
  refine ⟨?_, fun t => ?_, fun x hx hstate => ?_⟩
  · rw [map_rewrite fun p hp => (hf p hp).1, List.length_map]
    exact h.ids
  · rw [List.countP_map]
    exact (List.countP_mono_left fun p hp => (hf p hp).2.1 t).trans (h.single t)
  · obtain ⟨p, hp, rfl⟩ := List.mem_map.1 hx
    by_cases hbefore : p.state = .approved
    · exact (hf p hp).2.2.1 hstate hbefore (h.links p hp hbefore)
    · exact (hf p hp).2.2.2 hstate hbefore

theorem superseded_state {t : Nat} {p q : SkillProposal} (hq : q.state ≠ .pending) :
    superseded t q = true → superseded t p = true :=
  fun hs => absurd (of_decide_eq_true hs).2.1 hq

theorem Listed.decide (h : Listed versions proposals) {f : SkillProposal → SkillProposal}
    (hf : ∀ p ∈ proposals, f p = p ∨ (f p).id = p.id ∧ (f p).state ≠ .pending ∧
      ((f p).state = .approved → Linked versions (f p))) : Listed versions (proposals.map f) := by
  refine h.map fun p hp => ?_
  rcases hf p hp with heq | ⟨hid, hstate, hlinked⟩
  · rw [heq]
    exact ⟨rfl, fun _ => id, fun _ _ => id, fun hst hst' => absurd hst hst'⟩
  · exact ⟨hid, fun _ => superseded_state hstate, fun hst _ _ => hlinked hst, fun hst _ => hlinked hst⟩

theorem Listed.snoc (h : Listed versions proposals) {p : SkillProposal} (hid : p.id = proposals.length + 1)
    (hstate : p.state = .pending) (hnone : ∀ t, superseded t p = true → proposals.countP (superseded t) = 0) :
    Listed versions (proposals ++ [p]) := by
  refine ⟨range_snoc h.ids hid, fun t => ?_, fun x hx hx' => ?_⟩
  · rw [List.countP_append, List.countP_singleton]
    split
    · next hp => rw [hnone t hp]
    · exact h.single t
  · rcases List.mem_append.1 hx with hx | hx
    · exact h.links x hx hx'
    · rw [List.mem_singleton.1 hx, hstate] at hx'
      cases hx'

/-- **A stable skill was evaluated**: an evaluation of one of its versions passed. -/
def Gated (skills : List SkillRow) (versions : List SkillVersion) (evalRuns : List EvalRun) : Prop :=
  ∀ r ∈ skills, r.state = .stable → ∃ v ∈ versions, v.skillId = r.id ∧ ∃ e ∈ evalRuns, e.skillName = r.name ∧
    e.versionId = v.id ∧ e.bodySha256 = v.bodySha256 ∧ e.evaluatorVersion = skillEvalVersion ∧ e.passed = true

end SkillStore

end Execlaw
