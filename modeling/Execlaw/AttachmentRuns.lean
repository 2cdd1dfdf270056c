import Execlaw.AttachmentFiles
/-!
# AttachmentRuns — the store over whole runs

Any number of calls on one artifacts root run in any order, and a crash takes them all.  Where the steps of `insert`,
`insert_artifact` and `purge_attachment` fit the state they meet, no row ever loses its file and no file goes that a row
refers to (`rows_keep_files`); an orphan sweep that succeeds leaves no old file behind that nothing refers to.
-/
namespace Execlaw

open Table Locks Steps

abbrev AttachmentProc : Type := Proc Blobs String Mark Answer (Except AttachmentError AttachmentReply)

abbrev AttachmentPool : Type := Pool Blobs String Mark Answer (Except AttachmentError AttachmentReply)

abbrev AttachmentEvent : Type := Event AttachmentCall Answer PlacedFile

def AttachmentStep (sha : Sha256) (root : String) (p : AttachmentPool) (e : AttachmentEvent) (p' : AttachmentPool) : Prop :=
  Pool.Step (fun call => (AttachmentCall.task sha root call).run) (placeFile sha root) p e p'

/-! ## Orphans -/

def Blobs.Orphan (root name : String) (f : StoredFile) (s : Blobs) : Prop :=
  s.file (joinPath root name) = some f ∧ s.references (joinPath root name) = 0

section Orphans

variable {root name : String} {f : StoredFile} {s : Blobs} {now age : Int}

theorem not_slash_of_sha256 (h : isSha256Filename name = true) : name.toList.contains '/' = false := by
  rw [isSha256Filename, Bool.and_eq_true, List.all_eq_true] at h
  rw [List.contains_eq_mem, decide_eq_false_iff_not]
  intro hmem
  have hdigit := h.2 '/' hmem
  revert hdigit
  decide

theorem mem_entries : name ∈ s.entries root ↔
    (s.file (joinPath root name)).isSome = true ∧ name.toList.contains '/' = false := by
  rw [Option.isSome_iff_ne_none, Blobs.file, ne_eq, get_eq_none_iff, not_not]
  simp only [Blobs.entries, List.mem_dedup, List.mem_filter, List.mem_filterMap, entryName_eq_some, List.mem_map,
    Bool.not_eq_true']

/-! ### While the orphan stands -/

theorem finds_removeFile : Finds (Blobs.Orphan root name f) (fun _ => False) (removeFile (joinPath root name)) := by
  refine finds_atomically fun b s hs hnext removed hremoved => ?_
  simp only [hs.1] at hnext hremoved
  cases hok : b.ok with
  | false =>
    rw [hok] at hremoved
    cases hremoved
  | true =>
    rw [hok] at hnext
    have hgone := hnext.1
    simp at hgone

theorem finds_sweepStale (hname : isSha256Filename name = true) :
    Finds (Blobs.Orphan root name f) (fun _ => False) (sweepStale name (joinPath root name)) := by
  unfold sweepStale
  rw [if_pos hname]
  refine finds_locked (Finds.bind (Q := fun n => n = 0) (finds_atomically fun b s hs _ n hn => ?_) fun n hn => ?_)
  · split at hn
    · exact (Except.ok.inj hn).symm.trans hs.2
    · cases hn
  · rw [if_neg (not_not.2 hn)]
    exact finds_removeFile

theorem finds_sweepEntries (hname : isSha256Filename name = true) (hstale : isStale name f now age = true) :
    ∀ {names : List String}, name ∈ names →
      Finds (Blobs.Orphan root name f) (fun _ => False) (sweepEntries root now age names)
  | other :: rest, hmem => by
    refine Finds.bind (Q := fun g => other = name → g = f) (finds_atomically fun b s hs _ g hg heq => ?_) fun g hg => ?_
    · subst heq
      simp only [hs.1] at hg
      split at hg
      · exact (Except.ok.inj hg).symm
      · cases hg
    · by_cases heq : other = name
      · subst heq
        rw [hg rfl, if_pos hstale]
        exact (finds_sweepStale hname).bind fun _ h => h.elim
      · have hrest := finds_sweepEntries hname hstale ((List.mem_cons.1 hmem).resolve_left (Ne.symm heq))
        split
        · exact finds_trivial.bind fun _ _ => hrest.bind fun _ h => h.elim
        · exact hrest

theorem finds_sweepOrphans (hname : isSha256Filename name = true) (hstale : isStale name f now age = true) :
    Finds (Blobs.Orphan root name f) (fun _ => False) (sweepOrphanArtifactBlobs root now age) := by
  refine Finds.bind (Q := fun names => name ∈ names) (finds_atomically fun b s hs _ names hnames => ?_) fun _ hmem =>
    finds_sweepEntries hname hstale hmem
  split at hnames
  · cases hnames
    exact mem_entries.2 ⟨by rw [hs.1]; rfl, not_slash_of_sha256 hname⟩
  · cases hnames

structure Swept (gone : String → Prop) (s s' : Blobs) : Prop where
  kept : ∀ path, ¬ gone path → s'.file path = s.file path
  rows : ∀ path, s'.references path = s.references path

theorem Swept.refl {gone : String → Prop} : Swept gone s s := ⟨fun _ _ => rfl, fun _ => rfl⟩

variable {b : Answer}

theorem yields_removeFile (path : String) (hb : b.ok = true) :
    ∃ removed s', Yields b (removeFile path) s removed s' ∧ Swept (· = path) s s' ∧ s'.file path = none := by
  cases hf : s.file path with
  | none => exact ⟨false, s, yields_atomically (by simp [hf]), .refl, hf⟩
  | some f =>
    exact ⟨true, s.unlink path, yields_atomically (by simp [hf, hb]),
      ⟨fun _ hne => Blobs.file_unlink_of_ne hne, fun _ => rfl⟩, Blobs.file_unlink_self⟩

theorem yields_query {α : Type} {g : Blobs → α} (hb : b.ok = true) : Yields b (dbQuery g) s (g s) s :=
  yields_atomically (by simp [hb])

theorem yields_sweepStale (name path : String) (hb : b.ok = true) : ∃ removed s',
    Yields b (sweepStale name path) s removed s' ∧ Swept (· = path) s s' ∧
    (isSha256Filename name = true → s.references path = 0 → s'.file path = none) := by
  obtain ⟨removed, s', hremove, hswept, hnone⟩ := yields_removeFile (s := s) path hb
  unfold sweepStale
  by_cases hname : isSha256Filename name = true
  · by_cases hzero : s.references path = 0
    · refine ⟨removed, s', yields_locked ?_, hswept, fun _ _ => hnone⟩
      rw [if_pos hname]
      refine (yields_query hb).bind ?_
      rw [if_neg (not_not.2 hzero)]
      exact hremove
    · refine ⟨false, s, yields_locked ?_, .refl, fun _ h => absurd h hzero⟩
      rw [if_pos hname]
      refine (yields_query hb).bind ?_
      rw [if_pos hzero]
      exact yields_pure
  · refine ⟨removed, s', yields_locked ?_, hswept, fun h => absurd h hname⟩
    rw [if_neg hname]
    exact hremove

theorem yields_sweepEntries (root : String) (now age : Int) (hb : b.ok = true) : ∀ (names : List String) (s : Blobs),
    names.Nodup → (∀ name ∈ names, (s.file (joinPath root name)).isSome = true) → ∃ n s',
      Yields b (sweepEntries root now age names) s n s' ∧ Swept (fun path => ∃ name ∈ names, path = joinPath root name) s s' ∧
      ∀ name ∈ names, ∀ f, isSha256Filename name = true → isStale name f now age = true → s.Orphan root name f →
        s'.file (joinPath root name) = none
  | [], s, _, _ => ⟨0, s, yields_pure, .refl, nofun⟩
  | name :: rest, s, hnd, hfiles => by
    obtain ⟨hfresh, hnd⟩ := List.nodup_cons.1 hnd
    obtain ⟨f, hf⟩ := Option.isSome_iff_exists.1 (hfiles name List.mem_cons_self)
    have hmetadata : Yields b (symlinkMetadata (joinPath root name)) s f s := yields_atomically (by simp [hf, hb])
    have hne : ∀ other ∈ rest, joinPath root other ≠ joinPath root name :=
      fun other hother heq => hfresh (joinPath_inj heq ▸ hother)
    -- the entry is passed over, or swept
    obtain ⟨m, hswept, hgone, hloop⟩ : ∃ m, Swept (· = joinPath root name) s m ∧
        (isSha256Filename name = true → isStale name f now age = true → s.references (joinPath root name) = 0 →
          m.file (joinPath root name) = none) ∧
        ∀ n s', Yields b (sweepEntries root now age rest) m n s' →
          ∃ k, Yields b (sweepEntries root now age (name :: rest)) s k s' := by
      by_cases hstale : isStale name f now age = true
      · obtain ⟨removed, m, hyields, hswept, hgone⟩ := yields_sweepStale (s := s) name (joinPath root name) hb
        refine ⟨m, hswept, fun hname _ => hgone hname, fun n s' hrest => ⟨n + removed.toNat, hmetadata.bind ?_⟩⟩
        rw [if_pos hstale]
        exact hyields.bind (hrest.bind yields_pure)
      · refine ⟨s, .refl, fun _ h => absurd h hstale, fun n s' hrest => ⟨n, hmetadata.bind ?_⟩⟩
        rw [if_neg hstale]
        exact hrest
    have hrest : ∀ other ∈ rest, m.file (joinPath root other) = s.file (joinPath root other) :=
      fun other hother => hswept.kept _ (hne other hother)
    obtain ⟨n, s', hyields, hswept', hgone'⟩ := yields_sweepEntries root now age hb rest m hnd fun other hother => by
      rw [hrest other hother]
      exact hfiles other (List.mem_cons_of_mem _ hother)
    obtain ⟨k, hk⟩ := hloop n s' hyields
    refine ⟨k, s', hk, ⟨fun path hpath => ?_, fun path => (hswept'.rows path).trans (hswept.rows path)⟩, ?_⟩
    · refine (hswept'.kept path ?_).trans (hswept.kept path ?_)
      · rintro ⟨other, hother, heq⟩
        exact hpath ⟨other, List.mem_cons_of_mem _ hother, heq⟩
      · exact fun heq => hpath ⟨name, List.mem_cons_self, heq⟩
    · intro other hother g hname hstale horphan
      rcases List.mem_cons.1 hother with rfl | hother
      · cases hf.symm.trans horphan.1
        refine (hswept'.kept _ ?_).trans (hgone hname hstale horphan.2)
        rintro ⟨other, hother, heq⟩
        exact hne other hother heq.symm
      · exact hgone' other hother g hname hstale
          ⟨(hrest other hother).trans horphan.1, (hswept.rows _).trans horphan.2⟩

theorem yields_sweepOrphans (root : String) (now age : Int) (s : Blobs) (hb : b.ok = true) : ∃ n s',
    Yields b (sweepOrphanArtifactBlobs root now age) s n s' ∧
    ∀ name f, isSha256Filename name = true → isStale name f now age = true → s.Orphan root name f →
      s'.file (joinPath root name) = none := by
  obtain ⟨n, s', hyields, -, hgone⟩ := yields_sweepEntries root now age hb (s.entries root) s
    (List.nodup_dedup _) fun name hname => (mem_entries.1 hname).1
  refine ⟨n, s', Yields.bind (yields_atomically (by simp [hb])) hyields, fun name f hname hstale horphan => ?_⟩
  exact hgone name (mem_entries.2 ⟨by rw [horphan.1]; rfl, not_slash_of_sha256 hname⟩) f hname hstale horphan

end Orphans

section Runs

variable {sha : Sha256} {root : String} {e : PlacedFile} {s s' : Blobs}

theorem placeFile_eq_some (hplace : placeFile sha root e s = some s') :
    s.file e.path = none ∧ Placed sha root e.path ⟨e.bytes, e.now⟩ ∧ s' = s.put e.path ⟨e.bytes, e.now⟩ := by
  unfold placeFile at hplace
  split at hplace
  · next hguard =>
    rw [Bool.and_eq_true, Option.isNone_iff_eq_none] at hguard
    refine ⟨hguard.1, fun name hname => ?_, (Option.some.inj hplace).symm⟩
    have hall := hguard.2
    rw [entryName_eq_some.2 hname, Option.all_some, beq_iff_eq] at hall
    exact hall.symm
  · cases hplace

theorem file_placeFile (hplace : placeFile sha root e s = some s') {path : String} (hthere : s.file path ≠ none) :
    s'.file path = s.file path := by
  obtain ⟨hnone, -, rfl⟩ := placeFile_eq_some hplace
  refine Blobs.file_put_of_ne ?_ _
  rintro rfl
  exact hthere hnone

theorem placeFile_keeps (hplace : placeFile sha root e s = some s') (hbacked : s.Backed sha root) :
    s'.Backed sha root ∧ ∀ h m, BlobsRely sha root h m s s' := by
  have hother : ∀ path, s.file path ≠ none → s'.file path = s.file path := fun _ => file_placeFile hplace
  obtain ⟨hnone, hplaced, rfl⟩ := placeFile_eq_some hplace
  refine ⟨⟨fun path d hd => ?_, hbacked.named⟩, fun h m => ⟨fun path _ => ?_, fun _ _ _ hfree => hfree⟩⟩
  · obtain ⟨f, hf, hdigest⟩ := hbacked.files path d hd
    exact ⟨f, (hother path (by rw [hf]; nofun)).trans hf, hdigest⟩
  · by_cases hpath : path = e.path
    · subst hpath
      exact .inr ⟨hnone, ⟨e.bytes, e.now⟩, Blobs.file_put_self _, hplaced⟩
    · exact .inl (Blobs.file_put_of_ne hpath _)

theorem sound_attachmentStep {p p' : AttachmentPool} {e : AttachmentEvent} (hsound : p.Sound (attachmentLocks sha root))
    (hfits : p.Fits (attachmentLocks sha root) e) (hstep : AttachmentStep sha root p e p') :
    p'.Sound (attachmentLocks sha root) ∧ Pool.Moved (attachmentLocks sha root) p p' e :=
  Pool.sound_step (fun call s => Prog.Ensures.mono (fun _ _ _ => trivial) (keeps_task call s))
    (fun _ _ _ hplace hbacked => placeFile_keeps hplace hbacked) hsound hfits hstep

theorem unreferenced_of_gone {p p' : AttachmentPool} {e : AttachmentEvent} (hbacked : p.shared.Backed sha root)
    (hstep : AttachmentStep sha root p e p') (hmoved : Pool.Moved (attachmentLocks sha root) p p' e) {path : String}
    (hthere : p.shared.file path ≠ none) (hgone : p'.shared.file path = none) : p.shared.references path = 0 := by
  rw [Blobs.references_eq_zero]
  cases hmoved with
  | still same => exact absurd (same ▸ hgone) hthere
  | took at_ move => exact move.gone hbacked path hthere hgone
  | outside =>
    obtain ⟨s', hplace, rfl⟩ := Option.map_eq_some_iff.1 hstep
    exact absurd ((file_placeFile hplace hthere).symm.trans hgone) hthere

/-- An event in a state that fits it: rows are stored while a file of their digest is at their path, which is not a
temporary name; none is stored by `insert` where another call is about to unlink; a purge finds the path it has locked. -/
def FittingStep (sha : Sha256) (root : String) (p : AttachmentPool) (e : AttachmentEvent) (p' : AttachmentPool) : Prop :=
  AttachmentStep sha root p e p' ∧ p.Fits (attachmentLocks sha root) e

theorem sound_attachmentRun {files : List (String × StoredFile)} {events : List AttachmentEvent} {p : AttachmentPool}
    (hrun : Run (FittingStep sha root) ⟨⟨files, .empty, .empty, .empty⟩, []⟩ events p) :
    p.Sound (attachmentLocks sha root) := by
  refine run_invariant hrun ⟨⟨?_, ?_⟩, nofun, nofun⟩ fun p e p' hsound hstep =>
    (sound_attachmentStep hsound hstep.2 hstep.1).1
  all_goals rintro path d (⟨r, hr, -⟩ | ⟨r, hr, -⟩) <;> cases hr

/-- **No row loses its file.**  In every run whose events fit: each row refers to a file of its digest; no event takes a
file away that a row refers to; and orphans go, for a sweep beside other calls does not succeed while an old one stands,
and after a crash it comes to its end and has removed them all. -/
theorem rows_keep_files {files : List (String × StoredFile)} {events : List AttachmentEvent} {p : AttachmentPool}
    (hrun : Run (FittingStep sha root) ⟨⟨files, .empty, .empty, .empty⟩, []⟩ events p) :
    (∀ path d, p.shared.Refers path d → p.shared.Holds sha path d) ∧
    (∀ e p', FittingStep sha root p e p' → ∀ path, p.shared.file path ≠ none → p'.shared.file path = none →
      p.shared.references path = 0) ∧
    (∀ now age name f (i : Nat) events' p', isSha256Filename name = true → isStale name f now age = true →
      p.procs[i]? = some (⟨.none, ((AttachmentCall.sweepOrphanArtifactBlobs now age).task sha root).run⟩ : AttachmentProc) →
      p.shared.Orphan root name f →
      Run (fun p e p' => AttachmentStep sha root p e p' ∧ e ≠ .crash ∧ p'.shared.Orphan root name f) p events' p' →
      ∀ held reply, p'.procs[i]? ≠ some (⟨held, .ret (.ok reply)⟩ : AttachmentProc)) ∧
    (p.procs = [] → ∀ now age t, ∃ k s' held n,
      Pool.execAll (fun call => (AttachmentCall.task sha root call).run) (placeFile sha root)
        (.call (.sweepOrphanArtifactBlobs now age) :: List.replicate k (.step 0 ⟨true, t⟩)) p =
        some ⟨s', [⟨held, .ret (.ok (.count n))⟩]⟩ ∧
      ∀ name f, isSha256Filename name = true → isStale name f now age = true → p.shared.Orphan root name f →
        s'.file (joinPath root name) = none) := by
  have hsound := sound_attachmentRun hrun
  refine ⟨hsound.inv.files, fun e p' hstep path hthere hgone => ?_, ?_, fun hidle now age t => ?_⟩
  · exact unreferenced_of_gone hsound.inv hstep.1 (sound_attachmentStep hsound hstep.2 hstep.1).2 hthere hgone
  · intro now age name f i events' p' hname hstale hi horphan hrun' held reply hdone
    have hfinds : Finds (Blobs.Orphan root name f) (fun _ => False)
        ((AttachmentCall.sweepOrphanArtifactBlobs now age).task sha root) :=
      (finds_sweepOrphans hname hstale).bind fun _ h => h.elim
    obtain ⟨q, hq, hends⟩ := Prog.Ends.run hrun' horphan hi hfinds
    cases hq.symm.trans hdone
    exact hends reply rfl
  · obtain ⟨n, s', hyields, hgone⟩ := yields_sweepOrphans (b := ⟨true, t⟩) root now age p.shared rfl
    have htask : Yields ⟨true, t⟩ ((AttachmentCall.sweepOrphanArtifactBlobs now age).task sha root) p.shared
        (.count n) s' := hyields.bind yields_pure
    obtain ⟨k, held, hexec⟩ := run_alone (fun call => (AttachmentCall.task sha root call).run) (placeFile sha root)
      ⟨true, t⟩ ((AttachmentCall.sweepOrphanArtifactBlobs now age).task sha root).run .none p.shared
    rw [htask] at hexec
    refine ⟨k, s', held, n, ?_, hgone⟩
    obtain ⟨shared, procs⟩ := p
    obtain rfl : procs = [] := hidle
    exact hexec

end Runs

instance Blobs.decidableHolds (sha : Sha256) (s : Blobs) (path d : String) : Decidable (s.Holds sha path d) :=
  decidable_of_iff ((s.file path).any (fun f => sha.hex f.bytes == d) = true) (by simp [Blobs.Holds, Option.any_eq_true])

instance decidableTemporary (root path : String) : Decidable (Temporary root path) :=
  decidable_of_iff ((entryName root path).any isTemporaryName = true) (by
    rw [Option.any_eq_true]
    exact exists_congr fun name => and_congr entryName_eq_some Iff.rfl)

instance decidableMarkFits (sha : Sha256) (root : String) :
    ∀ (m : Option Mark) (s : Blobs), Decidable ((attachmentLocks sha root).fit m s)
  | some (.stores path d), s | some (.registers path d), s =>
    inferInstanceAs (Decidable (s.Holds sha path d ∧ ¬ Temporary root path))
  | some (.purges id path), s => inferInstanceAs (Decidable (∀ r ∈ s.attachments.row id, r.path = path))
  | some (.unlinks _), _ => isTrue trivial
  | none, _ => isTrue trivial

instance decidableMarkClashes (sha : Sha256) (root : String) :
    ∀ m m' : Option Mark, Decidable ((attachmentLocks sha root).clash m m')
  | some (.stores path _), some (.unlinks path') => inferInstanceAs (Decidable (path = path'))
  | some (.stores _ _), some (.stores _ _) | some (.stores _ _), some (.registers _ _)
  | some (.stores _ _), some (.purges _ _) | some (.stores _ _), none => isFalse id
  | some (.registers _ _), _ | some (.purges _ _), _ | some (.unlinks _), _ | none, _ => isFalse id

def emptyDigest : Sha256 where
  hex := fun _ => "e3b0c44298fc1c149afbf4c8996fb92427ae41e4649b934ca495991b7852b855"
  named := fun _ => by decide

def emptyStore : AttachmentPool := ⟨⟨[], .empty, .empty, .empty⟩, []⟩

def reportRow (id : String) : AttachmentRow := ⟨id, "research/report.md", emptyDigest.hex []⟩

def runWhere (check : AttachmentPool → AttachmentEvent → Bool) (events : List AttachmentEvent) : Option AttachmentPool :=
  Pool.execWhere (fun call => (AttachmentCall.task emptyDigest "artifacts" call).run) (placeFile emptyDigest "artifacts")
    check events emptyStore

def sharedEvents : List AttachmentEvent :=
  [.env ⟨"research/report.md", [], 0⟩, .call (.insert (reportRow "a")), .call (.insert (reportRow "b")),
    .step 0 ⟨true, 1⟩, .step 1 ⟨true, 1⟩, .call (.purgeAttachment "a"), .step 2 ⟨true, 2⟩, .step 2 ⟨true, 2⟩,
    .step 2 ⟨true, 2⟩, .step 2 ⟨true, 2⟩, .call (.insertPluginArtifact "p" [] none 3 "u" "c")] ++
    List.replicate 7 (.step 3 ⟨true, 3⟩) ++ [.crash]

theorem rows_keep_files_shared : ∃ p, Run (FittingStep emptyDigest "artifacts") emptyStore sharedEvents p ∧
    p.shared.Refers "research/report.md" (emptyDigest.hex []) ∧
    p.shared.Holds emptyDigest "research/report.md" (emptyDigest.hex []) ∧
    p.shared.Orphan "artifacts" (emptyDigest.hex []) ⟨[], 3⟩ ∧
    ∃ k s' held n, Pool.execAll (fun call => (AttachmentCall.task emptyDigest "artifacts" call).run)
      (placeFile emptyDigest "artifacts") (.call (.sweepOrphanArtifactBlobs 9 1) :: List.replicate k (.step 0 ⟨true, 9⟩)) p =
        some ⟨s', [⟨held, .ret (.ok (.count n))⟩]⟩ ∧
      s'.file (joinPath "artifacts" (emptyDigest.hex [])) = none := by
  have hruns : (runWhere (fun p e => decide (p.Fits (attachmentLocks emptyDigest "artifacts") e)) sharedEvents).any
      (fun p => p.procs.isEmpty && decide (p.shared.attachments.rows = [reportRow "b"]) &&
        decide (p.shared.file (joinPath "artifacts" (emptyDigest.hex [])) = some ⟨[], 3⟩) &&
        decide (p.shared.references (joinPath "artifacts" (emptyDigest.hex [])) = 0)) = true := by
    decide +kernel
  obtain ⟨p, hp, hstate⟩ := (Option.any_eq_true _ _).1 hruns
  simp only [Bool.and_eq_true, List.isEmpty_iff, decide_eq_true_eq] at hstate
  obtain ⟨⟨⟨hidle, hrows⟩, hfile⟩, hzero⟩ := hstate
  have hrun : Run (FittingStep emptyDigest "artifacts") emptyStore sharedEvents p :=
    run_mono (fun _ _ _ h => ⟨h.1, of_decide_eq_true h.2⟩) (run_of_execWhere hp)
  obtain ⟨hheld, -, -, hsweep⟩ := rows_keep_files hrun
  have hrefers : p.shared.Refers "research/report.md" (emptyDigest.hex []) :=
    .inl ⟨reportRow "b", by rw [hrows]; exact List.mem_cons_self, rfl, rfl⟩
  obtain ⟨k, s', held, n, hexec, hgone⟩ := hsweep hidle 9 1 9
  refine ⟨p, hrun, hrefers, hheld _ _ hrefers, ⟨hfile, hzero⟩, k, s', held, n, hexec, ?_⟩
  exact hgone _ _ (emptyDigest.named []) (by decide) ⟨hfile, hzero⟩

def CalledWithFile (sha : Sha256) (p : AttachmentPool) : AttachmentEvent → Prop
  | .call (.insert row) => p.shared.Holds sha row.path row.sha256
  | .call (.insertArtifact row) => p.shared.Holds sha row.path row.sha256
  | _ => True

instance decidableCalledWithFile (sha : Sha256) (p : AttachmentPool) :
    ∀ e : AttachmentEvent, Decidable (CalledWithFile sha p e)
  | .call (.insert row) => inferInstanceAs (Decidable (p.shared.Holds sha row.path row.sha256))
  | .call (.insertArtifact row) => inferInstanceAs (Decidable (p.shared.Holds sha row.path row.sha256))
  | .call (.insertPluginArtifact ..) | .call (.insertPluginArtifactFromPath ..)
  | .call (.insertToolResultArtifactWithId ..) | .call (.purgeAttachment _) | .call (.purgeArtifactsForPlugin _)
  | .call (.sweepExpiredPluginArtifacts _) | .call (.sweepOrphanArtifactBlobs _ _)
  | .step _ _ | .crash | .env _ => isTrue trivial

/-- The purge of `a` has counted no other row when `b` is inserted for the same file, and unlinks it afterwards. -/
def lossEvents : List AttachmentEvent :=
  [.env ⟨"research/report.md", [], 0⟩, .call (.insert (reportRow "a")), .step 0 ⟨true, 1⟩, .step 0 ⟨true, 1⟩,
    .call (.purgeAttachment "a"), .step 1 ⟨true, 2⟩, .step 1 ⟨true, 2⟩, .step 1 ⟨true, 2⟩,
    .call (.insert (reportRow "b")), .step 2 ⟨true, 3⟩, .step 1 ⟨true, 3⟩]

/-- **A row loses its file**: `insert` takes no lock of the path. -/
theorem inserted_row_loses_file : ¬ ∀ (sha : Sha256) (root : String) (files : List (String × StoredFile))
    (events : List AttachmentEvent) (p : AttachmentPool),
    Run (fun p e p' => AttachmentStep sha root p e p' ∧ CalledWithFile sha p e)
      ⟨⟨files, .empty, .empty, .empty⟩, []⟩ events p → ∀ path d, p.shared.Refers path d → p.shared.Holds sha path d := by
  intro hclaim
  have hruns : (runWhere (fun p e => decide (CalledWithFile emptyDigest p e)) lossEvents).any (fun p =>
      decide (p.shared.attachments.rows = [reportRow "b"]) && (p.shared.file "research/report.md").isNone) = true := by
    decide +kernel
  obtain ⟨p, hp, hstate⟩ := (Option.any_eq_true _ _).1 hruns
  simp only [Bool.and_eq_true, Option.isNone_iff_eq_none, decide_eq_true_eq] at hstate
  have hrun := run_mono (fun _ _ _ h => And.intro h.1 (of_decide_eq_true h.2)) (run_of_execWhere hp)
  obtain ⟨f, hf, -⟩ := hclaim emptyDigest "artifacts" [] lossEvents p hrun "research/report.md" (emptyDigest.hex [])
    (.inl ⟨reportRow "b", by rw [hstate.1]; exact List.mem_cons_self, rfl, rfl⟩)
  rw [hstate.2] at hf
  cases hf

end Execlaw
