import Execlaw.CheckoutPatches
import Mathlib.Data.List.GetD
/-!
# CheckoutReplays — a patch as a whole, and repeated (`apply_checkout_patch`)

A patch without a fault is made where all of its edits are ready.  One that fails leaves every target as it was, unless
the removal of a backup is what failed.  One that was stopped can be repeated, unless it stopped between the two moves of
a replacement: the file is missing then, and the patch expects it.
-/
namespace Execlaw

open Faults Fault Checkout

variable {host : FileHost} {edits : List WorkspaceFileEdit} {edit : WorkspaceFileEdit} {s₀ s t : Checkout}
  {f f' : Fault FileOp}

def runPatch (host : FileHost) (edits : List WorkspaceFileEdit) (s : Checkout) (f : Fault FileOp) :
    Except ApiError (List EditResult) × Run Checkout FileOp := applyCheckoutPatch host edits ⟨s, f, []⟩

def Proposed (edits : List WorkspaceFileEdit) (t : Checkout) : Prop :=
  ∀ edit ∈ edits, t.content edit.target = some (Wire.utf8 edit.content)

def Unchanged (edits : List WorkspaceFileEdit) (s t : Checkout) : Prop :=
  ∀ edit ∈ edits, t.content edit.target = s.content edit.target

def Succeeds (host : FileHost) (edits : List WorkspaceFileEdit) (s : Checkout) : Prop :=
  (∃ results, (runPatch host edits s .never).1 = .ok results) ∧ Proposed edits (runPatch host edits s .never).2.store

def stops (host : FileHost) (edits : List WorkspaceFileEdit) (s : Checkout) (f : Fault FileOp) : List Checkout :=
  s :: (runPatch host edits s f).2.store :: (runPatch host edits s f).2.seen

theorem Patched.stopped {x : Except ApiError (List EditResult)} (h : Patched host edits s₀ f x t f') :
    Stopped host edits s₀ t := by
  cases h with
  | applied ready kept => exact kept.stopped ready
  | undone mild kept why => exact kept.stopped (List.forall_mem_nil _)
  | unfinished fails edit mem kept ready changed => exact kept.stopped (List.forall_mem_singleton.2 ready)

section AllOrNothing

variable (hne : edits ≠ []) (hcount : edits.length ≤ 64) (hsize : totalBytes edits ≤ maxPatchBytes)
include hne hcount hsize

theorem runPatch_patched (hadm : Admissible host edits s) :
    Patched host edits s f (runPatch host edits s f).1 (runPatch host edits s f).2.store
      (runPatch host edits s f).2.fault :=
  (applyCheckoutPatch_ends hadm hne hcount hsize []).1

theorem stopped_of_mem_stops (hadm : Admissible host edits s) (ht : t ∈ stops host edits s f) :
    Stopped host edits s t := by
  rcases List.mem_cons.1 ht with rfl | ht
  · exact fun e he => ⟨hadm.clear e he, .inl rfl⟩
  · rcases List.mem_cons.1 ht with rfl | ht
    · exact (runPatch_patched hne hcount hsize hadm).stopped
    · exact ((applyCheckoutPatch_ends hadm hne hcount hsize []).2 t ht).resolve_left List.not_mem_nil

theorem ok_iff_ready (hadm : Admissible host edits s) :
    (∃ results, (runPatch host edits s .never).1 = .ok results) ↔ ∀ edit ∈ edits, EditReady host edit s := by
  have hnever : (Fault.never : Fault FileOp).Settled := fun k h => by cases h
  have hpatched := runPatch_patched (f := .never) hne hcount hsize hadm
  revert hpatched
  generalize (runPatch host edits s .never).1 = x
  rintro (⟨hready, -⟩ | ⟨-, -, hbroke | ⟨edit, hedit, hnot⟩⟩ | ⟨hfails, -, -, -, -, -⟩)
  · exact iff_of_true ⟨_, rfl⟩ hready
  · exact absurd hbroke (not_broke_of_settled hnever)
  · exact iff_of_false (fun ⟨_, h⟩ => by cases h) fun h => hnot (h edit hedit)
  · exact absurd hfails (not_fails_of_settled hnever)

theorem proposed_of_ok (hadm : Admissible host edits s) {results : List EditResult}
    (hok : (runPatch host edits s f).1 = .ok results) : Proposed edits (runPatch host edits s f).2.store := by
  have hpatched := runPatch_patched (f := f) hne hcount hsize hadm
  rw [hok] at hpatched
  cases hpatched with
  | applied ready kept => exact fun e he => kept.made e he he

theorem unchanged_iff (hadm : Admissible host edits s) (hf : ∀ o, f ≠ .failed o) {error : ApiError}
    (herror : (runPatch host edits s f).1 = .error error) :
    Unchanged edits s (runPatch host edits s f).2.store ↔ (runPatch host edits s f).2.fault ≠ .failed .removeBackup := by
  have hpatched := runPatch_patched (f := f) hne hcount hsize hadm
  rw [herror] at hpatched
  rcases hpatched with - | ⟨hmild, hkept, -⟩ | ⟨⟨-, hfault⟩, edit, hedit, hkept, -, hchanged⟩
  · refine iff_of_true (fun e he => hkept.rest e he List.not_mem_nil) fun h => ?_
    rw [h] at hmild
    cases hmild with
    | refl => exact hf _ rfl
    | fails k ho => exact ho rfl
  · refine iff_of_false (fun h => hchanged ?_) (not_not_intro hfault)
    exact (h edit hedit).symm.trans (hkept.made edit hedit (List.mem_singleton_self _))

theorem succeeds_iff (hadm : Admissible host edits s) :
    Succeeds host edits s ↔ ∀ edit ∈ edits, EditReady host edit s := by
  rw [← ok_iff_ready hne hcount hsize hadm]
  exact and_iff_left_of_imp fun ⟨_, hok⟩ => proposed_of_ok hne hcount hsize hadm hok

end AllOrNothing

theorem ready_of_proposed (h : t.content edit.target = some (Wire.utf8 edit.content)) : EditReady host edit t := by
  rw [EditReady, h]
  refine ⟨.inl rfl, ?_⟩
  rintro _ ⟨⟩
  rw [fromUtf8_eq_some.2 rfl]
  rfl

theorem ready_congr (h : t.content edit.target = s.content edit.target) :
    EditReady host edit t ↔ EditReady host edit s := by
  rw [EditReady, EditReady, h]

namespace Admissible

variable (hadm : Admissible host edits s)
include hadm

theorem of_stopped (hstopped : Stopped host edits s t) : Admissible host edits t where
  path := hadm.path
  apart := hadm.apart
  clear e he := (hstopped e he).1
  told e he := by
    rcases (hstopped e he).2 with h | ⟨-, h | ⟨h, -⟩⟩
    · rw [h]
      exact hadm.told e he
    · rw [h]
      rintro _ ⟨⟩ -
      rfl
    · rw [h]
      exact fun _ hb => by cases hb

theorem ready_iff (hstopped : Stopped host edits s t) : (∀ edit ∈ edits, EditReady host edit t) ↔
    (∀ edit ∈ edits, EditReady host edit s) ∧
      ∀ edit ∈ edits, s.content edit.target ≠ none → t.content edit.target ≠ none := by
  refine ⟨fun h => ⟨fun e he => ?_, fun e he hsome hnone => ?_⟩, fun ⟨hready, hkept⟩ e he => ?_⟩
  · rcases (hstopped e he).2 with heq | ⟨hready, -⟩
    · exact (ready_congr heq).1 (h e he)
    · exact hready
  · rcases (hstopped e he).2 with heq | ⟨hready, heq | ⟨-, -, hnew⟩⟩
    · exact hsome (heq.symm.trans hnone)
    · cases hnone.symm.trans heq
    · -- the edit replaces a file, so nothing is not what it expects
      obtain ⟨bytes, hbytes⟩ := Option.ne_none_iff_exists'.1 hsome
      have hexpected : e.expectedSha256 = none := by
        rcases hnone ▸ (h e he).1 with hsha | hsha
        · cases hsha
        · exact hsha.symm
      rcases hbytes ▸ hready.1 with hsha | hsha
      · exact hnew (hbytes.trans (congrArg some (hadm.told e he bytes hbytes (Option.some.inj hsha))))
      · rw [hexpected] at hsha
        cases hsha
  · rcases (hstopped e he).2 with heq | ⟨-, heq | ⟨hnone, hsome, -⟩⟩
    · exact (ready_congr heq).2 (hready e he)
    · exact ready_of_proposed heq
    · exact absurd hnone (hkept e he hsome)

end Admissible

/-- **A patch is all or nothing** but for two gaps: the removal of a backup that fails leaves its edit published, and a
stop between the two moves of a replacement leaves no file, which the patch then does not accept. -/
theorem patch_atomic_iff (hne : edits ≠ []) (hcount : edits.length ≤ 64) (hsize : totalBytes edits ≤ maxPatchBytes)
    (hadm : Admissible host edits s) :
    ((∃ results, (runPatch host edits s .never).1 = .ok results) ↔ ∀ edit ∈ edits, EditReady host edit s) ∧
    (∀ f results, (runPatch host edits s f).1 = .ok results → Proposed edits (runPatch host edits s f).2.store) ∧
    (∀ f error, (∀ o, f ≠ .failed o) → (runPatch host edits s f).1 = .error error →
      (Unchanged edits s (runPatch host edits s f).2.store ↔ (runPatch host edits s f).2.fault ≠ .failed .removeBackup)) ∧
    (∀ t, Admissible host edits t → (∀ edit ∈ edits, EditReady host edit s) → (∀ edit ∈ edits,
      t.content edit.target = s.content edit.target ∨ t.content edit.target = some (Wire.utf8 edit.content)) →
      Succeeds host edits t) ∧
    ∀ f, ∀ t ∈ stops host edits s f, (Succeeds host edits t ↔ (∀ edit ∈ edits, EditReady host edit s) ∧
      ∀ edit ∈ edits, s.content edit.target ≠ none → t.content edit.target ≠ none) := by
  refine ⟨ok_iff_ready hne hcount hsize hadm, fun f results => proposed_of_ok hne hcount hsize hadm,
    fun f error hf => unchanged_iff hne hcount hsize hadm hf, fun t ht hready hplace => ?_, fun f t ht => ?_⟩
  · refine (succeeds_iff hne hcount hsize ht).2 fun e he => ?_
    rcases hplace e he with heq | hproposed
    · exact (ready_congr heq).2 (hready e he)
    · exact ready_of_proposed hproposed
  · have hstopped := stopped_of_mem_stops hne hcount hsize hadm ht
    rw [succeeds_iff hne hcount hsize (hadm.of_stopped hstopped), hadm.ready_iff hstopped]

/-! A replacement of `old` by `new` in the file `notes`. -/

def notesHost : FileHost where
  sha256 bytes := if bytes = Wire.utf8 "old" then "0ld" else "0ther"
  ioText _ := "Input/output error"
  tempPath k := s!".tmp{k}"

def notesCheckout : Checkout := { node := fun path => if path = ["notes"] then some (.file (Wire.utf8 "old")) else none }

def notesEdit : WorkspaceFileEdit := ⟨"notes", some "0ld", "new"⟩

theorem notesEdit_target : notesEdit.target = ["notes"] := by decide +kernel

theorem clear_single {name : String}
    (h : notesCheckout.node [name] = none ∨ ∃ bytes, notesCheckout.node [name] = some (.file bytes)) :
    notesCheckout.Clear [name] := by
  refine ⟨fun q hq hne hnil => ?_, h⟩
  rcases List.prefix_concat_iff.1 (show q <+: [] ++ [name] from hq) with rfl | hq
  · exact absurd rfl hne
  · exact absurd (List.prefix_nil.1 hq) hnil

theorem notes_admissible : Admissible notesHost [notesEdit] notesCheckout where
  path := List.forall_mem_singleton.2 ⟨([], "notes"), by decide +kernel⟩
  apart := List.pairwise_singleton _ _
  clear := by
    refine List.forall_mem_singleton.2 ?_
    rw [notesEdit_target]
    exact clear_single (.inr ⟨Wire.utf8 "old", rfl⟩)
  told := by
    refine List.forall_mem_singleton.2 ?_
    rw [notesEdit_target]
    rintro _ ⟨⟩ h
    exact absurd h (by decide +kernel)

def logEdit : WorkspaceFileEdit := ⟨"log", none, "made"⟩

theorem logEdit_target : logEdit.target = ["log"] := by decide +kernel

theorem log_and_notes_admissible : Admissible notesHost [logEdit, notesEdit] notesCheckout where
  path := List.forall_mem_cons.2 ⟨⟨([], "log"), by decide +kernel⟩, notes_admissible.path⟩
  apart := by
    refine List.pairwise_pair.2 ?_
    rw [logEdit_target, notesEdit_target]
    exact ⟨by decide, by decide⟩
  clear := by
    refine List.forall_mem_cons.2 ⟨?_, notes_admissible.clear⟩
    rw [logEdit_target]
    exact clear_single (.inl rfl)
  told := by
    refine List.forall_mem_cons.2 ⟨?_, notes_admissible.told⟩
    rw [logEdit_target]
    exact fun _ h => by cases h

/-- A file made and one replaced: without a fault both edits are made; where the second cannot be published the first is
undone; and from every stop that left a file to the second a replay succeeds. -/
theorem notes_patch_atomic :
    Proposed [logEdit, notesEdit] (runPatch notesHost [logEdit, notesEdit] notesCheckout .never).2.store ∧
    Unchanged [logEdit, notesEdit] notesCheckout
      (runPatch notesHost [logEdit, notesEdit] notesCheckout (.pending 47)).2.store ∧
    ∀ t ∈ stops notesHost [logEdit, notesEdit] notesCheckout .never, t.content ["notes"] ≠ none →
      Succeeds notesHost [logEdit, notesEdit] t := by
  obtain ⟨hok, hproposed, hunchanged, -, hreplay⟩ :=
    patch_atomic_iff (List.cons_ne_nil _ _) (by decide) (by decide +kernel) log_and_notes_admissible
  have hready : ∀ edit ∈ [logEdit, notesEdit], EditReady notesHost edit notesCheckout := by
    refine List.forall_mem_cons.2 ⟨?_, List.forall_mem_singleton.2 ?_⟩
    · rw [EditReady, logEdit_target]
      exact ⟨.inr rfl, fun _ h => by cases h⟩
    · rw [EditReady, notesEdit_target]
      refine ⟨.inr (by decide +kernel), ?_⟩
      rintro _ ⟨⟩
      decide +kernel
  obtain ⟨results, hresults⟩ := hok.2 hready
  refine ⟨hproposed _ _ hresults, ?_, fun t ht hnotes => (hreplay _ t ht).2 ⟨hready, ?_⟩⟩
  · obtain ⟨hrefused, hfault⟩ :
        (runPatch notesHost [logEdit, notesEdit] notesCheckout (.pending 47)).1.isOk = false ∧
        (runPatch notesHost [logEdit, notesEdit] notesCheckout (.pending 47)).2.fault = .failed .publish := by
      decide +kernel
    rcases hrun : (runPatch notesHost [logEdit, notesEdit] notesCheckout (.pending 47)).1 with error | results
    · refine (hunchanged (.pending 47) error (fun _ h => by cases h) hrun).2 ?_
      rw [hfault]
      exact fun h => by cases h
    · rw [hrun] at hrefused
      cases hrefused
  · refine List.forall_mem_cons.2 ⟨?_, List.forall_mem_singleton.2 fun _ => ?_⟩
    · rw [logEdit_target]
      exact fun hsome => absurd rfl hsome
    · rwa [notesEdit_target]

def notesMidway : Checkout := (stops notesHost [notesEdit] notesCheckout .never).getD 4 notesCheckout

/-- The backup cannot be removed: the patch fails and the file is replaced.  A stop between the two moves: the file is
missing and the patch is refused. -/
theorem notes_half_done :
    ((runPatch notesHost [notesEdit] notesCheckout (.pending 29)).1.isOk = false ∧
      (runPatch notesHost [notesEdit] notesCheckout (.pending 29)).2.store.content ["notes"] = some (Wire.utf8 "new")) ∧
    notesMidway ∈ stops notesHost [notesEdit] notesCheckout .never ∧ ¬ Succeeds notesHost [notesEdit] notesMidway := by
  refine ⟨by decide +kernel, ?_, fun ⟨⟨results, hok⟩, _⟩ => ?_⟩
  · have hlength : 4 < (stops notesHost [notesEdit] notesCheckout .never).length := by decide +kernel
    rw [notesMidway, List.getD_eq_getElem _ _ hlength]
    exact List.getElem_mem hlength
  · have hrefused : (runPatch notesHost [notesEdit] notesMidway .never).1.isOk = false := by decide +kernel
    rw [hok] at hrefused
    cases hrefused

end Execlaw
