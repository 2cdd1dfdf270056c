import Execlaw.Attachments
/-!
# AttachmentFiles — no row loses its file

A row's file stands while the row does: whoever changes the files at a path holds its write lock, and whoever removes a
file has counted no row under the lock.  What breaks this are rows that are stored without the lock, or under it when
the file has gone: `insert` and `insert_artifact` store what they are given, when they come to it.  The discipline of
the locks (`attachmentLocks`) carries the invariant through all runs in which these steps fit the state they meet.
-/
namespace Execlaw

open Table Locks

/-! ## Files and rows -/

def Temporary (root path : String) : Prop := ∃ name, path = joinPath root name ∧ isTemporaryName name = true

namespace Blobs

def Refers (s : Blobs) (path sha256 : String) : Prop :=
  (∃ r ∈ s.attachments.rows, r.path = path ∧ r.sha256 = sha256) ∨
    ∃ r ∈ s.artifacts.rows, r.path = path ∧ r.sha256 = sha256

variable (sha : Sha256) (root : String)

def Holds (s : Blobs) (path sha256 : String) : Prop := ∃ f, s.file path = some f ∧ sha.hex f.bytes = sha256

/-- **Every row refers to a file of its digest**, and none to a temporary one. -/
structure Backed (s : Blobs) : Prop where
  files : ∀ path d, s.Refers path d → s.Holds sha path d
  named : ∀ path d, s.Refers path d → ¬ Temporary root path

variable {sha root} {s : Blobs} {path : String}

theorem references_eq_zero : s.references path = 0 ↔ ∀ d, ¬ s.Refers path d := by
  unfold references Refers
  rw [Nat.add_eq_zero_iff, List.countP_eq_zero, List.countP_eq_zero]
  simp only [beq_iff_eq]
  constructor
  · rintro ⟨hartifacts, hattachments⟩ d (⟨r, hr, hpath, -⟩ | ⟨r, hr, hpath, -⟩)
    · exact hattachments r hr hpath
    · exact hartifacts r hr hpath
  · intro h
    exact ⟨fun r hr hpath => h r.sha256 (.inr ⟨r, hr, hpath, rfl⟩), fun r hr hpath => h r.sha256 (.inl ⟨r, hr, hpath, rfl⟩)⟩

@[simp] theorem file_put_self (f : StoredFile) : (s.put path f).file path = some f := get_upsert_self path f s.files

theorem file_put_of_ne {other : String} (h : other ≠ path) (f : StoredFile) :
    (s.put path f).file other = s.file other :=
  get_upsert_of_ne h f s.files

@[simp] theorem file_unlink_self : (s.unlink path).file path = none := by
  unfold file unlink
  rw [get_eq_none_iff]
  simp

theorem file_unlink_of_ne {other : String} (h : other ≠ path) : (s.unlink path).file other = s.file other := by
  unfold file unlink
  induction s.files with
  | nil => rfl
  | cons e l ih =>
    obtain ⟨k, f⟩ := e
    by_cases hk : k = path
    · subst hk
      simpa [Table.get, Ne.symm h] using ih
    · by_cases hother : k = other
      · simp [Table.get, hother, h]
      · simpa [Table.get, hk, hother] using ih

theorem refers_deleteAttachment {id other d : String} (h : (s.deleteAttachment id).Refers other d) :
    s.Refers other d := by
  rcases h with ⟨r, hr, h⟩ | h
  · exact .inl ⟨r, (List.mem_filter.1 hr).1, h⟩
  · exact .inr h

theorem refers_deleteArtifact {id other d : String} (h : (s.deleteArtifact id).Refers other d) : s.Refers other d := by
  rcases h with h | ⟨r, hr, h⟩
  · exact .inl h
  · exact .inr ⟨r, (List.mem_filter.1 hr).1, h⟩

end Blobs

theorem joinPath_inj {root a b : String} (h : joinPath root a = joinPath root b) : a = b := by
  have h := congrArg String.toList h
  simp only [joinPath, String.toList_append, List.append_assoc, List.append_cancel_left_eq] at h
  exact String.toList_inj.1 h

theorem toList_joinPath (root name : String) :
    (joinPath root name).toList = (joinPath root "").toList ++ name.toList := by
  simp [joinPath, String.toList_append]

theorem entryName_eq_some {root path name : String} : entryName root path = some name ↔ path = joinPath root name := by
  unfold entryName
  constructor
  · intro h
    split at h
    · next hprefix =>
      obtain ⟨rest, hrest⟩ := List.isPrefixOf_iff_prefix.1 hprefix
      rw [← hrest, List.drop_left] at h
      cases h
      rw [← String.toList_inj, toList_joinPath, String.toList_ofList, hrest]
    · cases h
  · rintro rfl
    rw [if_pos (List.isPrefixOf_iff_prefix.2 ⟨name.toList, (toList_joinPath root name).symm⟩), toList_joinPath root name,
      List.drop_left, String.ofList_toList]

theorem not_temporary_of_sha256 {name : String} (h : isSha256Filename name = true) : isTemporaryName name = false := by
  rw [isSha256Filename, Bool.and_eq_true, List.all_eq_true] at h
  cases hname : name.toList with
  | nil =>
    rw [hname] at h
    simp at h
  | cons c l =>
    have hdigit := h.2 c (by rw [hname]; exact List.mem_cons_self)
    have hdot : c ≠ '.' := by
      rintro rfl
      revert hdigit
      decide
    simp [isTemporaryName, hname, hdot.symm]

theorem not_temporary_hex (sha : Sha256) (root : String) (bytes : List UInt8) :
    ¬ Temporary root (joinPath root (sha.hex bytes)) := by
  rintro ⟨name, hpath, htemp⟩
  rw [← joinPath_inj hpath, not_temporary_of_sha256 (sha.named bytes)] at htemp
  cases htemp

theorem temporary_publish (root sha256 uuid : String) :
    Temporary root (joinPath root ("." ++ sha256 ++ "." ++ uuid ++ ".tmp")) := by
  refine ⟨_, rfl, ?_⟩
  have hsuffix : ".tmp".toList.isSuffixOf ("." ++ sha256 ++ "." ++ uuid ++ ".tmp").toList = true := by
    rw [List.isSuffixOf_iff_suffix, String.toList_append]
    exact List.suffix_append _ _
  have hprefix : ".".toList.isPrefixOf ("." ++ sha256 ++ "." ++ uuid ++ ".tmp").toList = true := by
    rw [List.isPrefixOf_iff_prefix]
    simp only [String.toList_append, List.append_assoc]
    exact List.prefix_append _ _
  rw [isTemporaryName, hsuffix, hprefix]
  rfl

theorem temporary_stream (root uuid : String) : Temporary root (joinPath root (".tmp-" ++ uuid)) := by
  refine ⟨_, rfl, ?_⟩
  have htmp : ".tmp-".toList.isPrefixOf (".tmp-" ++ uuid).toList = true := by
    rw [List.isPrefixOf_iff_prefix, String.toList_append]
    exact List.prefix_append _ _
  have hdot : ".".toList.isPrefixOf (".tmp-" ++ uuid).toList = true := by
    rw [List.isPrefixOf_iff_prefix, String.toList_append]
    exact List.IsPrefix.trans (by decide) (List.prefix_append ".tmp-".toList _)
  rw [isTemporaryName, htmp, hdot]
  simp

/-! ## The discipline -/

section Discipline

variable (sha : Sha256) (root : String)

def Placed (path : String) (f : StoredFile) : Prop := ∀ name, path = joinPath root name → sha.hex f.bytes = name

/-- **What a process relies on**: at the paths it has locked no file changes, unless one is placed where there was none;
and where it has write-locked a path nothing refers to, and is about to remove the file, nothing comes to refer to it. -/
structure BlobsRely (h : Held String) (m : Option Mark) (s s' : Blobs) : Prop where
  files : ∀ path, path ∈ h.writes ∨ path ∈ h.reads →
    s'.file path = s.file path ∨ s.file path = none ∧ ∃ f, s'.file path = some f ∧ Placed sha root path f
  rows : ∀ path ∈ h.writes, m = some (.unlinks path) → (∀ d, ¬ s.Refers path d) → ∀ d, ¬ s'.Refers path d

/-- **What a step guarantees**: it changes files under their write locks, stores rows under locks, but for `insert`,
removes no file that a row refers to, and keeps the rows backed. -/
structure BlobsGuar (h : Held String) (m : Option Mark) (s s' : Blobs) : Prop where
  files : ∀ path, path ∉ h.writes → s'.file path = s.file path
  rows : ∀ path d, s'.Refers path d →
    s.Refers path d ∨ path ∈ h.writes ∨ path ∈ h.reads ∨ m = some (.stores path d)
  gone : s.Backed sha root → ∀ path, s.file path ≠ none → s'.file path = none → ∀ d, ¬ s.Refers path d
  keeps : s.Backed sha root → s'.Backed sha root

def MarkFits : Option Mark → Blobs → Prop
  | some (.stores path d), s | some (.registers path d), s => s.Holds sha path d ∧ ¬ Temporary root path
  | some (.purges id path), s => ∀ r, s.attachments.row id = some r → r.path = path
  | _, _ => True

def MarkClashes : Option Mark → Option Mark → Prop
  | some (.stores path _), some (.unlinks path') => path = path'
  | _, _ => False

theorem BlobsRely.trans {sha : Sha256} {root : String} {h : Held String} {m : Option Mark} {s s' s'' : Blobs}
    (h₁ : BlobsRely sha root h m s s') (h₂ : BlobsRely sha root h m s' s'') : BlobsRely sha root h m s s'' where
  files := by
    intro path hpath
    rcases h₁.files path hpath with heq | ⟨hnone, f, hf, hplaced⟩
    · rw [← heq]
      exact h₂.files path hpath
    · rcases h₂.files path hpath with heq | ⟨hnone', -⟩
      · exact .inr ⟨hnone, f, heq.trans hf, hplaced⟩
      · rw [hf] at hnone'
        cases hnone'
  rows := fun path hpath hm hfree => h₂.rows path hpath hm (h₁.rows path hpath hm hfree)

theorem mem_add_writes {κ : Type} {mode : Mode} {k path : κ} {h : Held κ} (hmem : path ∈ h.writes) :
    path ∈ (h.add mode k).writes := by
  cases mode with
  | write => exact List.mem_cons_of_mem k hmem
  | read => exact hmem

theorem mem_add_reads {κ : Type} {mode : Mode} {k path : κ} {h : Held κ} (hmem : path ∈ h.reads) :
    path ∈ (h.add mode k).reads := by
  cases mode with
  | write => exact hmem
  | read => exact List.mem_cons_of_mem k hmem

def attachmentLocks : Discipline Blobs String Mark where
  inv := Blobs.Backed sha root
  fit := MarkFits sha root
  clash := MarkClashes
  rely := BlobsRely sha root
  guar := BlobsGuar sha root
  rely_refl := fun _ _ _ => ⟨fun _ _ => .inl rfl, fun _ _ _ hfree => hfree⟩
  rely_trans := BlobsRely.trans
  rely_drop := fun hrely => ⟨fun path hpath => hrely.files path (hpath.imp mem_add_writes mem_add_reads),
    fun path hpath => hrely.rows path (mem_add_writes hpath)⟩
  inv_guar := fun hinv hguar => hguar.keeps hinv
  rely_guar := by
    intro h m h' m' s s' hapart hclash _ hguar
    constructor
    · intro path hpath
      refine .inl (hguar.files path fun hmem => ?_)
      exact hpath.elim (hapart.1 path hmem).1 (hapart.1 path hmem).2
    · rintro path hpath rfl hfree d hd
      rcases hguar.rows path d hd with hold | hwrite | hread | rfl
      · exact hfree d hold
      · exact (hapart.1 path hwrite).1 hpath
      · exact hapart.2 path hpath hread
      · exact hclash rfl

end Discipline

section Operations

variable {sha : Sha256} {root : String} {h : Held String} {m : Option Mark} {s : Blobs} {path : String}

theorem guar_same : BlobsGuar sha root h m s s where
  files := fun _ _ => rfl
  rows := fun _ _ hd => .inl hd
  gone := fun _ _ hthere hnone => absurd hnone hthere
  keeps := id

theorem guar_delete {s' : Blobs} (hfiles : ∀ path, s'.file path = s.file path)
    (hrows : ∀ path d, s'.Refers path d → s.Refers path d) : BlobsGuar sha root h m s s' where
  files := fun path _ => hfiles path
  rows := fun path d hd => .inl (hrows path d hd)
  gone := fun _ path hthere hnone => absurd ((hfiles path).symm.trans hnone) hthere
  keeps := by
    intro hbacked
    refine ⟨fun path d hd => ?_, fun path d hd => hbacked.named path d (hrows path d hd)⟩
    obtain ⟨f, hf, hd⟩ := hbacked.files path d (hrows path d hd)
    exact ⟨f, (hfiles path).trans hf, hd⟩

variable {d : String}

theorem guar_store {s' : Blobs} (hfiles : ∀ path, s'.file path = s.file path)
    (hrows : ∀ other d', s'.Refers other d' → s.Refers other d' ∨ other = path ∧ d' = d) (hheld : s.Holds sha path d)
    (hnamed : ¬ Temporary root path) (hlock : path ∈ h.writes ∨ path ∈ h.reads ∨ m = some (.stores path d)) :
    BlobsGuar sha root h m s s' where
  files := fun path _ => hfiles path
  rows := by
    intro other d' hd'
    rcases hrows other d' hd' with hold | ⟨rfl, rfl⟩
    · exact .inl hold
    · exact .inr hlock
  gone := fun _ path hthere hnone => absurd ((hfiles path).symm.trans hnone) hthere
  keeps := by
    intro hbacked
    refine ⟨fun other d' hd' => ?_, fun other d' hd' => ?_⟩
    · obtain ⟨f, hf, hdigest⟩ : s.Holds sha other d' := by
        rcases hrows other d' hd' with hold | ⟨rfl, rfl⟩
        · exact hbacked.files other d' hold
        · exact hheld
      exact ⟨f, (hfiles other).trans hf, hdigest⟩
    · rcases hrows other d' hd' with hold | ⟨rfl, rfl⟩
      · exact hbacked.named other d' hold
      · exact hnamed

theorem guar_change {s' : Blobs} (hwrite : path ∈ h.writes)
    (hfiles : ∀ other, other ≠ path → s'.file other = s.file other)
    (hrows : ∀ other d, s'.Refers other d ↔ s.Refers other d) (hfree : s.Backed sha root → ∀ d, ¬ s.Refers path d) :
    BlobsGuar sha root h m s s' where
  files := fun other hother => hfiles other fun heq => hother (heq ▸ hwrite)
  rows := fun other d hd => .inl ((hrows other d).1 hd)
  gone := by
    intro hbacked other hthere hnone
    by_cases heq : other = path
    · rw [heq]
      exact hfree hbacked
    · exact absurd ((hfiles other heq).symm.trans hnone) hthere
  keeps := by
    intro hbacked
    refine ⟨fun other d hd => ?_, fun other d hd => hbacked.named other d ((hrows other d).1 hd)⟩
    have hd := (hrows other d).1 hd
    obtain ⟨f, hf, hdigest⟩ := hbacked.files other d hd
    have hne : other ≠ path := fun heq => hfree hbacked d (heq ▸ hd)
    exact ⟨f, (hfiles other hne).trans hf, hdigest⟩

theorem keeps_step {α : Type} {f : Answer → Blobs → Except AttachmentError α × Blobs} {Q : α → Blobs → Prop}
    (hf : ∀ a s', BlobsRely sha root h m s s' → s'.Backed sha root → MarkFits sha root m s' →
      BlobsGuar sha root h m s' (f a s').2 ∧ ∀ x, (f a s').1 = .ok x → Q x (f a s').2) :
    Keeps (attachmentLocks sha root) h Q (atomically m f) s :=
  keeps_atomically hf

theorem keeps_query {α : Type} {f : Blobs → α} {Q : α → Blobs → Prop}
    (hQ : ∀ s', BlobsRely sha root h none s s' → Q (f s') s') :
    Keeps (attachmentLocks sha root) h Q (dbQuery f) s := by
  refine keeps_step fun a s' hs _ _ => ⟨guar_same, fun x hx => ?_⟩
  split at hx
  · cases hx
    exact hQ s' hs
  · cases hx

variable {Q : Unit → Blobs → Prop}

theorem keeps_systemCall (e : AttachmentError) (hQ : ∀ s', BlobsRely sha root h none s s' → Q () s') :
    Keeps (attachmentLocks sha root) h Q (systemCall e) s :=
  keeps_step fun _ s' hs _ _ => ⟨guar_same, fun _ _ => hQ s' hs⟩

theorem keeps_fileExists {Q : Bool → Blobs → Prop}
    (hQ : ∀ s', BlobsRely sha root h none s s' → Q (s'.file path).isSome s') :
    Keeps (attachmentLocks sha root) h Q (fileExists path) s := by
  refine keeps_step fun _ s' hs _ _ => ⟨guar_same, fun x hx => ?_⟩
  cases hx
  exact hQ s' hs

theorem keeps_verify {n : Nat} (hQ : ∀ s', BlobsRely sha root h none s s' → s'.Holds sha path d → Q () s') :
    Keeps (attachmentLocks sha root) h Q (verifyContentAddressed sha path d n) s := by
  refine keeps_step fun a s' hs _ _ => ?_
  have hkept : BlobsGuar sha root h none s' s' := guar_same
  cases hf : s'.file path with
  | none => exact ⟨hkept, nofun⟩
  | some f =>
    dsimp only
    split
    · exact ⟨hkept, nofun⟩
    · split
      · exact ⟨hkept, nofun⟩
      · split
        · exact ⟨hkept, nofun⟩
        · next hdigest => exact ⟨hkept, fun _ _ => hQ s' hs ⟨f, hf, not_not.1 hdigest⟩⟩

theorem keeps_transaction {α : Type} {f : Blobs → Except AttachmentError (α × Blobs)} {Q : α → Blobs → Prop}
    (hf : ∀ s' x s'', BlobsRely sha root h m s s' → MarkFits sha root m s' → f s' = .ok (x, s'') →
      BlobsGuar sha root h m s' s'' ∧ Q x s'') :
    Keeps (attachmentLocks sha root) h Q (dbTransaction m f) s := by
  refine keeps_step fun a s' hs _ hfit => ?_
  have hkept : BlobsGuar sha root h m s' s' := guar_same
  cases a.ok with
  | false => exact ⟨hkept, nofun⟩
  | true =>
    cases hr : f s' with
    | error e => exact ⟨hkept, nofun⟩
    | ok r =>
      obtain ⟨x, s''⟩ := r
      obtain ⟨hguar, hQ⟩ := hf s' x s'' hs hfit hr
      exact ⟨hguar, fun y hy => Except.ok.inj hy ▸ hQ⟩

theorem keeps_removeFile {Q : Bool → Blobs → Prop} (hwrite : path ∈ h.writes)
    (hfree : ∀ s', BlobsRely sha root h (some (.unlinks path)) s s' → s'.Backed sha root → ∀ d, ¬ s'.Refers path d)
    (hQ : ∀ s' b, BlobsRely sha root h (some (.unlinks path)) s s' → Q b s' ∧ Q b (s'.unlink path)) :
    Keeps (attachmentLocks sha root) h Q (removeFile path) s := by
  refine keeps_step fun a s' hs hinv _ => ?_
  have hkept : BlobsGuar sha root h (some (.unlinks path)) s' s' := guar_same
  cases s'.file path with
  | none => exact ⟨hkept, fun b _ => (hQ s' b hs).1⟩
  | some f =>
    cases a.ok with
    | false => exact ⟨hkept, nofun⟩
    | true =>
      refine ⟨?_, fun b _ => (hQ s' b hs).2⟩
      exact guar_change hwrite (fun other hne => Blobs.file_unlink_of_ne hne) (fun other d => Iff.rfl)
        (fun _ => hfree s' hs hinv)

theorem keeps_discardFile (htemp : Temporary root path) (hwrite : path ∈ h.writes)
    (hQ : ∀ s', BlobsRely sha root h (some (.unlinks path)) s s' → Q () s' ∧ Q () (s'.unlink path)) :
    Keeps (attachmentLocks sha root) h Q (discardFile path) s := by
  refine keeps_step fun a s' hs _ _ => ?_
  cases a.ok with
  | false => exact ⟨guar_same, fun _ _ => (hQ s' hs).1⟩
  | true =>
    refine ⟨?_, fun _ _ => (hQ s' hs).2⟩
    exact guar_change hwrite (fun other hne => Blobs.file_unlink_of_ne hne) (fun other d => Iff.rfl)
      (fun hbacked d hd => hbacked.named path d hd htemp)

variable {f : StoredFile}

theorem guar_put (htemp : Temporary root path) (hwrite : path ∈ h.writes) :
    BlobsGuar sha root h none s (s.put path f) :=
  guar_change hwrite (fun _ hne => Blobs.file_put_of_ne hne f) (fun _ _ => Iff.rfl)
    fun hbacked d hd => hbacked.named path d hd htemp

theorem keeps_put {P : StoredFile → Prop} {f : Answer → Blobs → Except AttachmentError Unit × Blobs}
    (htemp : Temporary root path) (hwrite : path ∈ h.writes)
    (hf : ∀ a s', (∃ g, P g ∧ f a s' = (.ok (), s'.put path g)) ∨ ∃ e, f a s' = (.error e, s'))
    (hQ : ∀ s' g, BlobsRely sha root h none s s' → P g → Q () (s'.put path g)) :
    Keeps (attachmentLocks sha root) h Q (atomically none f) s := by
  refine keeps_step fun a s' hs _ _ => ?_
  obtain ⟨g, hg, hr⟩ | ⟨e, hr⟩ := hf a s'
  · rw [hr]
    exact ⟨guar_put htemp hwrite, fun _ _ => hQ s' g hs hg⟩
  · rw [hr]
    exact ⟨guar_same, nofun⟩

theorem keeps_createNew (htemp : Temporary root path) (hwrite : path ∈ h.writes)
    (hQ : ∀ s' f, BlobsRely sha root h none s s' → Q () (s'.put path f)) :
    Keeps (attachmentLocks sha root) h Q (createNew path) s := by
  refine keeps_put (P := fun _ => True) htemp hwrite (fun a s' => ?_) fun s' f hs _ => hQ s' f hs
  split
  · exact .inl ⟨_, trivial, rfl⟩
  · exact .inr ⟨_, rfl⟩

theorem keeps_createFile (htemp : Temporary root path) (hwrite : path ∈ h.writes)
    (hQ : ∀ s' f, BlobsRely sha root h none s s' → Q () (s'.put path f)) :
    Keeps (attachmentLocks sha root) h Q (createFile path) s := by
  refine keeps_put (P := fun _ => True) htemp hwrite (fun a s' => ?_) fun s' f hs _ => hQ s' f hs
  split
  · exact .inl ⟨_, trivial, rfl⟩
  · exact .inr ⟨_, rfl⟩

variable {bytes : List UInt8}

theorem keeps_writeAll (htemp : Temporary root path) (hwrite : path ∈ h.writes)
    (hQ : ∀ s' f, BlobsRely sha root h none s s' → f.bytes = bytes → Q () (s'.put path f)) :
    Keeps (attachmentLocks sha root) h Q (writeAll path bytes) s := by
  refine keeps_put htemp hwrite (fun a s' => ?_) hQ
  split
  · exact .inl ⟨_, rfl, rfl⟩
  · exact .inr ⟨_, rfl⟩

/-! ## Publications -/

theorem BlobsRely.file_eq {s' : Blobs} (hrely : BlobsRely sha root h m s s') (hlock : path ∈ h.writes ∨ path ∈ h.reads)
    (hf : s.file path = some f) : s'.file path = some f := by
  rcases hrely.files path hlock with heq | ⟨hnone, -⟩
  · exact heq.trans hf
  · rw [hf] at hnone
    cases hnone

theorem BlobsRely.holds {s' : Blobs} (hrely : BlobsRely sha root h m s s') (hlock : path ∈ h.writes ∨ path ∈ h.reads)
    (hheld : s.Holds sha path d) : s'.Holds sha path d := by
  obtain ⟨f, hf, hd⟩ := hheld
  exact ⟨f, hrely.file_eq hlock hf, hd⟩

def Blobs.Unspoiled (sha : Sha256) (s : Blobs) (path d : String) : Prop := ∀ f, s.file path = some f → sha.hex f.bytes = d

theorem BlobsRely.unspoiled {s' : Blobs} (hrely : BlobsRely sha root h m s s')
    (hlock : path ∈ h.writes ∨ path ∈ h.reads) (hname : path = joinPath root d) (hun : s.Unspoiled sha path d) :
    s'.Unspoiled sha path d := by
  intro f hf
  rcases hrely.files path hlock with heq | ⟨-, g, hg, hplaced⟩
  · exact hun f (heq.symm.trans hf)
  · cases hg.symm.trans hf
    exact hplaced d hname

theorem keeps_rename {t d : String} (htemp : Temporary root t) (ht : t ∈ h.writes) (hpath : path ∈ h.writes)
    (hne : path ≠ t) (hname : path = joinPath root d) (hf : s.file t = some f) (hd : sha.hex f.bytes = d)
    (hun : s.Unspoiled sha path d) :
    Keeps (attachmentLocks sha root) h (fun _ s => s.Holds sha path d) (renameFile t path) s := by
  refine keeps_step fun a s' hs _ _ => ?_
  have hf' := hs.file_eq (.inl ht) hf
  have hun' := hs.unspoiled (.inl hpath) hname hun
  have hkept : BlobsGuar sha root h none s' s' := guar_same
  simp only [hf']
  cases a.ok with
  | false => exact ⟨hkept, nofun⟩
  | true =>
    have hother : ∀ other, other ≠ t → other ≠ path → ((s'.unlink t).put path f).file other = s'.file other := by
      intro other hother hother'
      rw [Blobs.file_put_of_ne hother', Blobs.file_unlink_of_ne hother]
    have hguar : BlobsGuar sha root h none s' ((s'.unlink t).put path f) := by
      refine ⟨fun other hout => hother other (fun heq => hout (heq ▸ ht)) (fun heq => hout (heq ▸ hpath)),
        fun _ _ hd => .inl hd, fun hbacked other hthere hnone => ?_,
        fun hbacked => ⟨fun other d' hd' => ?_, hbacked.named⟩⟩
      · by_cases hnt : other = t
        · exact fun d' hd' => hbacked.named other d' hd' (hnt ▸ htemp)
        · by_cases heq : other = path
          · subst heq
            rw [Blobs.file_put_self] at hnone
            cases hnone
          · exact absurd ((hother other hnt heq).symm.trans hnone) hthere
      · obtain ⟨g, hg, hdigest⟩ := hbacked.files other d' hd'
        by_cases heq : other = path
        · subst heq
          exact ⟨f, Blobs.file_put_self f, hd.trans ((hun' g hg).symm.trans hdigest)⟩
        · have hnt : other ≠ t := fun heq => hbacked.named other d' hd' (heq ▸ htemp)
          exact ⟨g, (hother other hnt heq).trans hg, hdigest⟩
    exact ⟨hguar, fun _ _ => ⟨f, Blobs.file_put_self f, hd⟩⟩

theorem ne_temporary {t d : String} (htemp : Temporary root t) (hd : isSha256Filename d = true) :
    joinPath root d ≠ t := by
  rintro rfl
  obtain ⟨name, hpath, hname⟩ := htemp
  rw [← joinPath_inj hpath, not_temporary_of_sha256 hd] at hname
  cases hname

section Publish

variable {t d : String} {bytes : List UInt8} {total : Nat}

theorem keeps_settle (htemp : Temporary root t) (ht : t ∈ h.writes) (hpath : path ∈ h.writes)
    (hne : path ≠ t) : Keeps (attachmentLocks sha root) h (fun _ s => s.Holds sha path d) (do
      verifyContentAddressed sha path d total
      discardFile t) s := by
  refine (keeps_verify (Q := fun _ s => s.Holds sha path d) fun _ _ hheld => hheld).bind fun _ s hheld => ?_
  refine keeps_discardFile htemp ht fun s' hs => ?_
  have hheld' := hs.holds (.inl hpath) hheld
  obtain ⟨f, hf, hd⟩ := hheld'
  exact ⟨⟨f, hf, hd⟩, f, (Blobs.file_unlink_of_ne hne).trans hf, hd⟩

theorem keeps_writeAndRename (htemp : Temporary root t) (ht : t ∈ h.writes) (hpath : path ∈ h.writes)
    (hname : path = joinPath root (sha.hex bytes)) (hun : s.Unspoiled sha path (sha.hex bytes)) :
    Keeps (attachmentLocks sha root) h (fun _ s => s.Holds sha path (sha.hex bytes))
      (writeAndRename sha t path bytes (sha.hex bytes)) s := by
  have hne : path ≠ t := by
    rw [hname]
    exact ne_temporary htemp (sha.named bytes)
  have hput : ∀ (s : Blobs) (f : StoredFile), s.Unspoiled sha path (sha.hex bytes) →
      (s.put t f).Unspoiled sha path (sha.hex bytes) := by
    intro s f hun g hg
    rw [Blobs.file_put_of_ne hne] at hg
    exact hun g hg
  refine Keeps.bind (Q := fun _ s => s.Unspoiled sha path (sha.hex bytes))
    (keeps_createNew htemp ht fun s' f hs => hput s' f (hs.unspoiled (.inl hpath) hname hun)) fun _ s hun => ?_
  refine Keeps.bind (Q := fun _ s => s.Unspoiled sha path (sha.hex bytes) ∧ ∃ f, s.file t = some f ∧ f.bytes = bytes)
    (keeps_writeAll htemp ht fun s' f hs hbytes =>
      ⟨hput s' f (hs.unspoiled (.inl hpath) hname hun), f, Blobs.file_put_self f, hbytes⟩) ?_
  rintro _ s ⟨hun, f, hf, rfl⟩
  refine Keeps.bind (keeps_attempt (keeps_rename htemp ht hpath hne hname hf rfl hun) fun _ _ hr => hr) fun r s hr => ?_
  cases r with
  | ok _ => exact keeps_pure (hr _ rfl)
  | error e =>
    refine Keeps.bind (keeps_fileExists (Q := fun _ _ => True) fun _ _ => trivial) fun found s _ => ?_
    cases found with
    | false => exact keeps_throw e
    | true => exact keeps_settle htemp ht hpath hne

theorem keeps_publish {uuid : String} (hpath : path ∈ h.writes) (hname : path = joinPath root (sha.hex bytes)) :
    Keeps (attachmentLocks sha root) h (fun _ s => s.Holds sha path (sha.hex bytes))
      (publishContentAddressed sha path root bytes (sha.hex bytes) uuid) s := by
  refine Keeps.bind (keeps_systemCall _ (Q := fun _ _ => True) fun _ _ => trivial) fun _ s _ => ?_
  refine Keeps.bind (keeps_fileExists (Q := fun b s => b = (s.file path).isSome) fun _ _ => rfl) fun found s hfound => ?_
  cases found with
  | true => exact keeps_verify fun _ _ hheld => hheld
  | false =>
    have hun : s.Unspoiled sha path (sha.hex bytes) := by
      intro f hf
      rw [hf] at hfound
      cases hfound
    have htemp := temporary_publish root (sha.hex bytes) uuid
    refine keeps_locked (fun _ _ _ hs hheld => hs.holds (.inl hpath) hheld) fun s' hs => ?_
    have ht := List.mem_cons_self (a := joinPath root ("." ++ sha.hex bytes ++ "." ++ uuid ++ ".tmp")) (l := h.writes)
    have hpath' : path ∈ (h.add .write (joinPath root ("." ++ sha.hex bytes ++ "." ++ uuid ++ ".tmp"))).writes :=
      List.mem_cons_of_mem _ hpath
    refine Keeps.bind (keeps_attempt (keeps_writeAndRename htemp ht hpath' hname
      (hs.unspoiled (.inl hpath) hname hun)) fun _ _ hr => hr) fun r s hr => ?_
    cases r with
    | ok _ => exact keeps_pure (hr _ rfl)
    | error e =>
      exact Keeps.bind (keeps_discardFile htemp ht (Q := fun _ _ => True) fun _ _ => ⟨trivial, trivial⟩)
        fun _ _ _ => keeps_throw e

theorem keeps_placeStreamed (htemp : Temporary root t) (ht : t ∈ h.writes) (hpath : path ∈ h.writes)
    (hname : path = joinPath root (sha.hex bytes)) {f : StoredFile} (hf : s.file t = some f) (hbytes : f.bytes = bytes) :
    Keeps (attachmentLocks sha root) h (fun _ s => s.Holds sha path (sha.hex bytes))
      (placeStreamed sha t path (sha.hex bytes) total) s := by
  have hne : path ≠ t := by
    rw [hname]
    exact ne_temporary htemp (sha.named bytes)
  refine Keeps.bind (keeps_fileExists (Q := fun b s => b = (s.file path).isSome ∧ s.file t = some f)
    fun _ hs => ⟨rfl, hs.file_eq (.inl ht) hf⟩) ?_
  rintro found s ⟨hfound, hf⟩
  cases found with
  | true => exact keeps_settle htemp ht hpath hne
  | false =>
    have hun : s.Unspoiled sha path (sha.hex bytes) := by
      intro g hg
      rw [hg] at hfound
      cases hfound
    refine Keeps.bind (keeps_attempt (keeps_rename htemp ht hpath hne hname hf (by rw [hbytes]) hun) fun _ _ hr => hr)
      fun r s hr => ?_
    cases r with
    | ok _ => exact keeps_pure (hr _ rfl)
    | error e =>
      exact Keeps.bind (keeps_discardFile htemp ht (Q := fun _ _ => True) fun _ _ => ⟨trivial, trivial⟩)
        fun _ _ _ => keeps_throw _

end Publish

theorem refers_insertAttachment {row : AttachmentRow} {attachments : Keyed AttachmentRow.id (fun _ => True)}
    (hinsert : s.attachments.insert? row trivial = some attachments) {other d : String}
    (hd : ({ s with attachments := attachments } : Blobs).Refers other d) :
    s.Refers other d ∨ other = row.path ∧ d = row.sha256 := by
  rcases hd with ⟨r, hr, hpath, hd⟩ | hd
  · rw [Keyed.rows_insert? hinsert, List.mem_append, List.mem_singleton] at hr
    rcases hr with hr | rfl
    · exact .inl (.inl ⟨r, hr, hpath, hd⟩)
    · exact .inr ⟨hpath.symm, hd.symm⟩
  · exact .inl (.inr hd)

variable {artifacts : Keyed ArtifactRow.id (fun _ => True)}

theorem refers_insertArtifact {row : ArtifactRow} {results : Keyed ToolResultRow.artifactId (fun _ => True)}
    (hinsert : ∀ r ∈ artifacts.rows, r ∈ s.artifacts.rows ∨ r = row) {other d : String}
    (hd : ({ s with artifacts := artifacts, results := results } : Blobs).Refers other d) :
    s.Refers other d ∨ other = row.path ∧ d = row.sha256 := by
  rcases hd with hd | ⟨r, hr, hpath, hd⟩
  · exact .inl (.inl hd)
  · rcases hinsert r hr with hr | rfl
    · exact .inl (.inr ⟨r, hr, hpath, hd⟩)
    · exact .inr ⟨hpath.symm, hd.symm⟩

theorem mem_insert? {row : ArtifactRow} (hinsert : s.artifacts.insert? row trivial = some artifacts) :
    ∀ r ∈ artifacts.rows, r ∈ s.artifacts.rows ∨ r = row := by
  intro r hr
  rw [Keyed.rows_insert? hinsert, List.mem_append, List.mem_singleton] at hr
  exact hr

theorem keeps_label : Keeps (attachmentLocks sha root) h (fun _ _ => True) ensureInformationLabel s :=
  keeps_query fun _ _ => trivial

theorem keeps_insertAttachment {row : AttachmentRow} :
    Keeps (attachmentLocks sha root) h (fun _ _ => True) (insertAttachment row) s := by
  refine Keeps.bind (Q := fun _ _ => True) (keeps_transaction fun s' _ s'' _ hfit hr => ⟨?_, trivial⟩)
    fun _ _ _ => keeps_label
  split at hr
  · next attachments hinsert =>
    cases hr
    exact guar_store (fun _ => rfl) (fun _ _ hd => refers_insertAttachment hinsert hd) hfit.1 hfit.2
      (.inr (.inr rfl))
  · cases hr

theorem keeps_insertArtifact {row : ArtifactRow} :
    Keeps (attachmentLocks sha root) h (fun _ _ => True) (insertArtifact row) s := by
  refine keeps_locked (fun _ _ _ _ _ => trivial) fun s _ => ?_
  refine Keeps.bind (Q := fun _ _ => True) (keeps_transaction fun s' _ s'' _ hfit hr => ⟨?_, trivial⟩)
    fun _ _ _ => keeps_label
  split at hr
  · next artifacts hinsert =>
    cases hr
    exact guar_store (fun _ => rfl) (fun _ _ hd => refers_insertArtifact (mem_insert? hinsert) hd) hfit.1 hfit.2
      (.inr (.inl List.mem_cons_self))
  · cases hr

theorem keeps_storePublished {f : Blobs → Except AttachmentError (Unit × Blobs)} (hpath : path ∈ h.writes)
    (hname : path = joinPath root (sha.hex bytes)) (hheld : s.Holds sha path (sha.hex bytes))
    (hf : ∀ s' s'', f s' = .ok ((), s'') → (∀ path, s''.file path = s'.file path) ∧ ∀ other d, s''.Refers other d →
      s'.Refers other d ∨ other = path ∧ d = sha.hex bytes) :
    Keeps (attachmentLocks sha root) h (fun _ _ => True) (dbTransaction none f) s := by
  refine keeps_transaction fun s' _ s'' hs _ hr => ⟨?_, trivial⟩
  obtain ⟨hfiles, hrows⟩ := hf s' s'' hr
  refine guar_store hfiles hrows (hs.holds (.inl hpath) hheld) ?_ (.inl hpath)
  rw [hname]
  exact not_temporary_hex sha root bytes

theorem insertArtifactMetadata_stores {row : ArtifactRow} {s' s'' : Blobs}
    (hr : (match s'.artifacts.insert? row trivial with
      | some artifacts => Except.ok ((), { s' with artifacts := artifacts })
      | none => .error AttachmentError.sqlite) = .ok ((), s'')) : (∀ path, s''.file path = s'.file path) ∧
      ∀ other d, s''.Refers other d → s'.Refers other d ∨ other = row.path ∧ d = row.sha256 := by
  split at hr
  · next artifacts hinsert =>
    cases hr
    exact ⟨fun _ => rfl, fun _ _ hd => refers_insertArtifact (mem_insert? hinsert) hd⟩
  · cases hr

theorem storeToolResult_stores {row : ArtifactRow} {link : ToolResultRow} {s' s'' : Blobs}
    (hr : storeToolResult row link s' = .ok ((), s'')) : (∀ path, s''.file path = s'.file path) ∧
      ∀ other d, s''.Refers other d → s'.Refers other d ∨ other = row.path ∧ d = row.sha256 := by
  unfold storeToolResult at hr
  cases hartifact : checkArtifact row s' with
  | error e =>
    rw [hartifact] at hr
    cases hr
  | ok _ =>
    cases hlink : checkLink link s' with
    | error e =>
      rw [hartifact, hlink] at hr
      cases hr
    | ok _ =>
      rw [hartifact, hlink] at hr
      cases hr
      exact ⟨fun _ => rfl, fun _ _ hd => refers_insertArtifact (fun r hr => Keyed.mem_insertOrIgnore hr) hd⟩

variable {pluginId uuid attachmentId : String} {now : Int}

theorem keeps_insertPluginArtifact {ttl : Option Int} :
    Keeps (attachmentLocks sha root) h (fun _ _ => True)
      (insertPluginArtifact sha root pluginId bytes ttl now uuid attachmentId) s := by
  refine keeps_locked (fun _ _ _ _ _ => trivial) fun s _ => ?_
  refine Keeps.bind (keeps_publish List.mem_cons_self rfl) fun _ s hheld => ?_
  refine Keeps.bind (keeps_storePublished List.mem_cons_self rfl hheld fun _ _ hr => insertArtifactMetadata_stores hr)
    fun _ s _ => ?_
  exact Keeps.bind keeps_label fun _ _ _ => keeps_pure trivial

theorem keeps_insertPluginArtifactFromPath {content : List UInt8} {ttl : Option Int} :
    Keeps (attachmentLocks sha root) h (fun _ _ => True)
      (insertPluginArtifactFromPath sha root pluginId content ttl now uuid attachmentId) s := by
  refine Keeps.bind (keeps_systemCall _ (Q := fun _ _ => True) fun _ _ => trivial) fun _ s _ => ?_
  refine Keeps.bind (keeps_systemCall _ (Q := fun _ _ => True) fun _ _ => trivial) fun _ s _ => ?_
  have htemp := temporary_stream root uuid
  refine keeps_locked (fun _ _ _ _ _ => trivial) fun s _ => ?_
  have ht : joinPath root (".tmp-" ++ uuid) ∈ (h.add .write (joinPath root (".tmp-" ++ uuid))).writes :=
    List.mem_cons_self
  refine Keeps.bind (keeps_createFile htemp ht (Q := fun _ _ => True) fun _ _ _ => trivial) fun _ s _ => ?_
  refine Keeps.bind (keeps_attempt (keeps_writeAll htemp ht
    (Q := fun _ s => ∃ f, s.file (joinPath root (".tmp-" ++ uuid)) = some f ∧ f.bytes = content)
    fun _ f _ hbytes => ⟨f, Blobs.file_put_self f, hbytes⟩) fun _ _ hr => hr) fun r s hr => ?_
  cases r with
  | error e =>
    exact Keeps.bind (keeps_discardFile htemp ht (Q := fun _ _ => True) fun _ _ => ⟨trivial, trivial⟩)
      fun _ _ _ => keeps_throw _
  | ok _ =>
    obtain ⟨f, hf, hbytes⟩ := hr _ rfl
    refine keeps_locked (fun _ _ _ _ _ => trivial) fun s hs => ?_
    refine Keeps.bind (keeps_placeStreamed htemp (List.mem_cons_of_mem _ ht) List.mem_cons_self rfl
      (hs.file_eq (.inl ht) hf) hbytes) fun _ s hheld => ?_
    refine Keeps.bind (keeps_storePublished List.mem_cons_self rfl hheld
      fun _ _ hr => insertArtifactMetadata_stores hr) fun _ s _ => ?_
    exact Keeps.bind keeps_label fun _ _ _ => keeps_pure trivial

theorem keeps_insertToolResult {conversationId runId artifactId uuid : String} :
    Keeps (attachmentLocks sha root) h (fun _ _ => True)
      (insertToolResultArtifactWithId sha root conversationId runId artifactId bytes now uuid) s := by
  unfold insertToolResultArtifactWithId
  split
  · exact keeps_throw _
  split
  · exact keeps_throw _
  refine keeps_locked (fun _ _ _ _ _ => trivial) fun s _ => ?_
  refine Keeps.bind (keeps_publish List.mem_cons_self rfl) fun _ s hheld => ?_
  refine Keeps.bind (keeps_storePublished List.mem_cons_self rfl hheld fun _ _ hr => storeToolResult_stores hr)
    fun _ s _ => ?_
  exact Keeps.bind keeps_label fun _ _ _ => keeps_pure trivial

theorem keeps_removeUnreferenced (hpath : path ∈ h.writes) (hfree : ∀ d, ¬ s.Refers path d) :
    Keeps (attachmentLocks sha root) h (fun _ _ => True) (removeFile path) s :=
  keeps_removeFile hpath (fun _ hs _ => hs.rows path hpath rfl hfree) fun _ _ _ => ⟨trivial, trivial⟩

theorem keeps_purgeAttachment {id : String} :
    Keeps (attachmentLocks sha root) h (fun _ _ => True) (purgeAttachment id) s := by
  refine Keeps.bind (keeps_query (Q := fun _ _ => True) fun _ _ => trivial) fun before s _ => ?_
  cases before with
  | none => exact keeps_pure trivial
  | some before =>
    refine keeps_locked (fun _ _ _ _ _ => trivial) fun s _ => ?_
    refine Keeps.bind (Q := fun removed s => ∀ path, removed = some (path, true) →
      path = before.path ∧ ∀ d, ¬ s.Refers path d) (keeps_transaction fun s' x s'' _ hfit hr => ?_) ?_
    · unfold deleteAttachmentRow at hr
      cases hrow : s'.attachments.row id with
      | none =>
        rw [hrow] at hr
        cases hr
        exact ⟨guar_same, nofun⟩
      | some row =>
        rw [hrow] at hr
        cases hr
        refine ⟨guar_delete (fun _ => rfl) fun _ _ => Blobs.refers_deleteAttachment, fun path hpath => ?_⟩
        obtain ⟨rfl, hzero⟩ := Prod.mk.inj (Option.some.inj hpath)
        exact ⟨hfit row hrow, Blobs.references_eq_zero.1 (beq_iff_eq.1 hzero)⟩
    · intro removed s hremoved
      match removed with
      | none => exact keeps_pure trivial
      | some (_, false) => exact keeps_pure trivial
      | some (path, true) =>
        obtain ⟨rfl, hfree⟩ := hremoved path rfl
        exact Keeps.bind (keeps_removeUnreferenced List.mem_cons_self hfree) fun _ _ _ => keeps_pure trivial

theorem keeps_removeArtifactRow {id : String} :
    Keeps (attachmentLocks sha root) h (fun _ _ => True) (removeArtifactRow id path) s := by
  refine keeps_locked (fun _ _ _ _ _ => trivial) fun s _ => ?_
  refine Keeps.bind (Q := fun _ _ => True) (keeps_transaction fun s' _ s'' _ _ hr => ?_) fun _ s _ => ?_
  · cases hr
    exact ⟨guar_delete (fun _ => rfl) fun _ _ => Blobs.refers_deleteArtifact, trivial⟩
  · refine Keeps.bind (keeps_query (Q := fun n s => n = s.references path) fun _ _ => rfl) fun n s hn => ?_
    split
    · next hzero =>
      exact Keeps.bind (keeps_removeUnreferenced List.mem_cons_self (Blobs.references_eq_zero.1 (hn ▸ hzero)))
        fun _ _ _ => keeps_pure trivial
    · exact keeps_pure trivial

theorem keeps_removeArtifactRows : ∀ (rows : List (String × String)) (s : Blobs),
    Keeps (attachmentLocks sha root) h (fun _ _ => True) (removeArtifactRows rows) s
  | [], _ => keeps_pure trivial
  | (_, _) :: rest, _ => Keeps.bind keeps_removeArtifactRow fun _ s _ =>
    Keeps.bind (keeps_removeArtifactRows rest s) fun _ _ _ => keeps_pure trivial

theorem keeps_sweepStale {name : String} {now age : Int} (hstale : isStale name f now age = true) :
    Keeps (attachmentLocks sha root) h (fun _ _ => True) (sweepStale name (joinPath root name)) s := by
  refine keeps_locked (fun _ _ _ _ _ => trivial) fun s _ => ?_
  split
  · refine Keeps.bind (keeps_query (Q := fun n s => n = s.references (joinPath root name)) fun _ _ => rfl)
      fun n s hn => ?_
    split
    · exact keeps_pure trivial
    · next hzero =>
      exact keeps_removeUnreferenced List.mem_cons_self (Blobs.references_eq_zero.1 (hn ▸ not_not.1 hzero))
  · next hname =>
    have htemp : isTemporaryName name = true := by
      simp only [isStale, Bool.and_eq_true, Bool.or_eq_true] at hstale
      exact hstale.1.1.resolve_left hname
    exact keeps_removeFile List.mem_cons_self (fun _ _ hbacked d hd => hbacked.named _ d hd ⟨name, rfl, htemp⟩)
      fun _ _ _ => ⟨trivial, trivial⟩

theorem keeps_sweepEntries {now age : Int} : ∀ (names : List String) (s : Blobs),
    Keeps (attachmentLocks sha root) h (fun _ _ => True) (sweepEntries root now age names) s
  | [], _ => keeps_pure trivial
  | name :: rest, s => by
    refine Keeps.bind (Q := fun _ _ => True) ?_ fun f s _ => ?_
    · refine keeps_step fun a s' _ _ _ => ?_
      have hkept : BlobsGuar sha root h none s' s' := guar_same
      cases s'.file (joinPath root name) <;> exact ⟨hkept, fun _ _ => trivial⟩
    · split
      · next hstale =>
        exact Keeps.bind (keeps_sweepStale hstale) fun _ s _ =>
          Keeps.bind (keeps_sweepEntries rest s) fun _ _ _ => keeps_pure trivial
      · exact keeps_sweepEntries rest s

theorem keeps_readDir : Keeps (attachmentLocks sha root) h (fun _ _ => True) (readDir root) s := by
  refine keeps_step fun a s' _ _ _ => ?_
  cases a.ok <;> exact ⟨guar_same, fun _ _ => trivial⟩

theorem keeps_task (call : AttachmentCall) (s : Blobs) :
    Keeps (attachmentLocks sha root) .none (fun _ _ => True) (call.task sha root) s := by
  cases call with
  | insert row => exact Keeps.bind keeps_insertAttachment fun _ _ _ => keeps_pure trivial
  | insertArtifact row => exact Keeps.bind keeps_insertArtifact fun _ _ _ => keeps_pure trivial
  | insertPluginArtifact pluginId bytes ttl now uuid attachmentId =>
    exact Keeps.bind keeps_insertPluginArtifact fun _ _ _ => keeps_pure trivial
  | insertPluginArtifactFromPath pluginId content ttl now uuid attachmentId =>
    exact Keeps.bind keeps_insertPluginArtifactFromPath fun _ _ _ => keeps_pure trivial
  | insertToolResultArtifactWithId conversationId runId artifactId bytes now uuid =>
    exact Keeps.bind keeps_insertToolResult fun _ _ _ => keeps_pure trivial
  | purgeAttachment id => exact Keeps.bind keeps_purgeAttachment fun _ _ _ => keeps_pure trivial
  | purgeArtifactsForPlugin pluginId | sweepExpiredPluginArtifacts now =>
    exact Keeps.bind (Keeps.bind (keeps_query (Q := fun _ _ => True) fun _ _ => trivial)
      fun rows s _ => keeps_removeArtifactRows rows s) fun _ _ _ => keeps_pure trivial
  | sweepOrphanArtifactBlobs now age =>
    exact Keeps.bind (Keeps.bind keeps_readDir fun names s _ => keeps_sweepEntries names s)
      fun _ _ _ => keeps_pure trivial

end Operations

end Execlaw
