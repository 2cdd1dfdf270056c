import Execlaw.CheckoutEdits
import Mathlib.Data.List.Pairwise
/-!
# CheckoutPatches — a patch of several edits (`apply_checkout_patch`)

All edits are checked before the first is made; if one fails, those before it are taken back.  That holds for every
failure but one: when a backup cannot be removed its edit is published already, and only the edits before it are taken
back.
-/
namespace Execlaw

open Faults Fault Checkout

abbrev Saved := WorkspaceFileEdit × Option String

variable (host : FileHost)

def restoringEdit (applied : WorkspaceFileEdit) (original : String) : WorkspaceFileEdit :=
  ⟨applied.path, some (host.sha256 (Wire.utf8 applied.content)), original⟩

def rollbackEdit {ε : Type} (applied : WorkspaceFileEdit) (original : Option String) : FileProg ε (Option String) := do
  let proposedHash := host.sha256 (Wire.utf8 applied.content)
  match ← attempt (safeTarget host applied.path true) with
  | .error message => pure (some s!"{applied.path}: {message}")
  | .ok (_, target) =>
    match ← attempt (readTarget host applied.path false) with
    | .error message => pure (some s!"{applied.path}: {message}")
    | .ok current =>
      if current.map host.sha256 ≠ some proposedHash then
        pure (some s!"{applied.path}: changed concurrently; left untouched")
      else
        match original with
        | some text =>
          match ← attempt (applyCheckoutEdit host (restoringEdit host applied text)) with
          | .ok _ => pure none
          | .error restoreError => pure (some s!"{applied.path}: {restoreError.message}")
        | none =>
          match ← attempt (op .removeTarget (host.ioText .removeTarget) fun s =>
              match s.node target with
              | some (.file _) => some ((), { s with node := Function.update s.node target none })
              | _ => none) with
          | .ok () => pure none
          | .error removeError => pure (some s!"{applied.path}: {removeError}")

def rollback {ε : Type} : List Saved → FileProg ε (List String)
  | [] => pure []
  | (applied, original) :: earlier => do
    let error ← rollbackEdit host applied original
    let errors ← rollback earlier
    pure (error.toList ++ errors)

def rolledBack (error : ApiError) (errors : List String) : ApiError :=
  if errors = [] then error
  else { error with message := error.message ++ "; rollback incomplete: " ++ "; ".intercalate errors }

def applyEdits : List Saved → List Saved → FileProg ApiError (List EditResult)
  | _, [] => pure []
  | applied, (edit, original) :: rest => do
    match ← attempt (applyCheckoutEdit host edit) with
    | .ok result =>
      let results ← applyEdits ((edit, original) :: applied) rest
      pure (result :: results)
    | .error error =>
      let errors ← rollback host applied
      throw (rolledBack error errors)

def checkOriginal (edit : WorkspaceFileEdit) (current : Option (List UInt8)) : Except ApiError (Option String) :=
  let conflicts := current.map host.sha256 ≠ some (host.sha256 (Wire.utf8 edit.content)) ∧
    current.map host.sha256 ≠ edit.expectedSha256
  match current with
  | none => if conflicts then .error (patchConflict edit) else .ok none
  | some bytes =>
    match fromUtf8 bytes with
    | none => .error ⟨422, "workspace_patch_encoding_unsupported",
        s!"workspace patch target is not UTF-8 text: {edit.path}"⟩
    | some text => if conflicts then .error (patchConflict edit) else .ok (some text)

def preflight : List (List String) → List WorkspaceFileEdit → FileProg ApiError (List (Option String))
  | _, [] => pure []
  | seen, edit :: edits => do
    let (_, target) ← mapError pathDenied (safeTarget host edit.path true)
    if seen.contains target then
      throw ⟨400, "workspace_patch_duplicate_path", s!"workspace patch lists \x27{edit.path}\x27 more than once"⟩
    else do
      let current ← mapError pathDenied (readTarget host edit.path false)
      match checkOriginal host edit current with
      | .error error => throw error
      | .ok original =>
        let originals ← preflight (target :: seen) edits
        pure (original :: originals)

def maxPatchBytes : Nat := 8 * 1024 * 1024

def totalBytes (edits : List WorkspaceFileEdit) : Nat := (edits.map fun edit => edit.content.utf8ByteSize).sum

def applyCheckoutPatch (edits : List WorkspaceFileEdit) : FileProg ApiError (List EditResult) := do
  if edits.isEmpty || edits.length > 64 then
    throw ⟨400, "workspace_patch_bounds", "workspace patch must contain 1 to 64 file edits"⟩
  else if totalBytes edits > maxPatchBytes then
    throw ⟨413, "workspace_patch_bounds", "workspace patch exceeds the 8 MiB total content limit"⟩
  else do
    let originals ← preflight host [] edits
    applyEdits host [] (edits.zip originals)

/-! ## Patches whose paths may be edited together -/

def WorkspaceFileEdit.target (edit : WorkspaceFileEdit) : List String :=
  match splitPath edit.path with
  | .ok (parents, filename) => parents ++ [filename]
  | .error _ => []

def Apart (p q : List String) : Prop := ¬ p <+: q ∧ ¬ q <+: p

structure Admissible (edits : List WorkspaceFileEdit) (s : Checkout) : Prop where
  path : ∀ edit ∈ edits, ∃ parts, splitPath edit.path = .ok parts
  apart : edits.Pairwise fun a b => Apart a.target b.target
  clear : ∀ edit ∈ edits, s.Clear edit.target
  told : ∀ edit ∈ edits, ToldApart host edit (s.content edit.target)

def EditReady (edit : WorkspaceFileEdit) (s : Checkout) : Prop :=
  Matches host edit (s.content edit.target) ∧ ∀ bytes ∈ s.content edit.target, (fromUtf8 bytes).isSome

/-- The edits of `done` are made, the others not yet. -/
structure At (edits : List WorkspaceFileEdit) (s₀ : Checkout) (done : List WorkspaceFileEdit) (t : Checkout) : Prop where
  clear : ∀ edit ∈ edits, t.Clear edit.target
  made : ∀ edit ∈ edits, edit ∈ done → t.content edit.target = some (Wire.utf8 edit.content)
  rest : ∀ edit ∈ edits, edit ∉ done → t.content edit.target = s₀.content edit.target

def StoppedAt (s₀ : Checkout) (edit : WorkspaceFileEdit) (content : Option (List UInt8)) : Prop :=
  content = s₀.content edit.target ∨ EditReady host edit s₀ ∧ (content = some (Wire.utf8 edit.content) ∨
    content = none ∧ s₀.content edit.target ≠ none ∧ s₀.content edit.target ≠ some (Wire.utf8 edit.content))

def Stopped (edits : List WorkspaceFileEdit) (s₀ t : Checkout) : Prop :=
  ∀ edit ∈ edits, t.Clear edit.target ∧ StoppedAt host s₀ edit (t.content edit.target)

def Fit (s₀ : Checkout) (x : Saved) : Prop :=
  EditReady host x.1 s₀ ∧ x.2.map Wire.utf8 = s₀.content x.1.target

variable {host} {edits done : List WorkspaceFileEdit} {edit : WorkspaceFileEdit} {s₀ s t : Checkout} {f f' : Fault FileOp}

theorem target_eq {parts : List String × String} (hpath : splitPath edit.path = .ok parts) :
    edit.target = parts.1 ++ [parts.2] := by rw [WorkspaceFileEdit.target, hpath]

variable {p : List String}

theorem Checkout.content_of_absent (h : s.node p = none) : s.content p = none := by rw [content, h]

theorem Checkout.Beside.other {p q : List String} (h : Beside p s t) (hapart : Apart p q) (hclear : s.Clear q) :
    t.Clear q ∧ t.content q = s.content q := by
  have hnode : t.node q = s.node q := by
    rcases h q (fun heq => hapart.1 (heq ▸ List.prefix_refl _)) with heq | ⟨-, -, habove⟩
    · exact heq
    · exact absurd habove hapart.2
  refine ⟨⟨fun r hr hne hnil => ?_, hnode ▸ hclear.target⟩, content_congr hnode⟩
  rcases h r (fun heq => hapart.1 (heq ▸ hr)) with heq | ⟨-, hdir, -⟩
  · exact heq ▸ hclear.above r hr hne hnil
  · exact .inr hdir

namespace Admissible

variable (hadm : Admissible host edits s₀)
include hadm

theorem nodup : edits.Nodup := by
  refine hadm.apart.imp ?_
  rintro a b h rfl
  exact h.1 (List.prefix_refl _)

theorem apart_of_ne {a b : WorkspaceFileEdit} (ha : a ∈ edits) (hb : b ∈ edits) (hne : a ≠ b) :
    Apart a.target b.target :=
  haveI : Std.Symm fun a b : WorkspaceFileEdit => Apart a.target b.target := ⟨fun _ _ h => ⟨h.2, h.1⟩⟩
  hadm.apart.forall ha hb hne

theorem others (hedit : edit ∈ edits) (hat : ∀ e ∈ edits, s.Clear e.target) (hbeside : Beside edit.target s t)
    {e : WorkspaceFileEdit} (he : e ∈ edits) (hne : e ≠ edit) :
    t.Clear e.target ∧ t.content e.target = s.content e.target :=
  hbeside.other (hadm.apart_of_ne hedit he (Ne.symm hne)) (hat e he)

theorem at_of_touched {done' : List WorkspaceFileEdit} (hat : At edits s₀ done s) (hedit : edit ∈ edits)
    (hbeside : Beside edit.target s t) (hclear : t.Clear edit.target) (hothers : ∀ e, e ≠ edit → (e ∈ done' ↔ e ∈ done))
    (hdone : edit ∈ done' → t.content edit.target = some (Wire.utf8 edit.content))
    (hrest : edit ∉ done' → t.content edit.target = s₀.content edit.target) : At edits s₀ done' t where
  clear e he := by
    by_cases heq : e = edit
    · exact heq ▸ hclear
    · exact (hadm.others hedit hat.clear hbeside he heq).1
  made e he hmem := by
    by_cases heq : e = edit
    · subst heq
      exact hdone hmem
    · rw [(hadm.others hedit hat.clear hbeside he heq).2]
      exact hat.made e he ((hothers e heq).1 hmem)
  rest e he hmem := by
    by_cases heq : e = edit
    · subst heq
      exact hrest hmem
    · rw [(hadm.others hedit hat.clear hbeside he heq).2]
      exact hat.rest e he fun h => hmem ((hothers e heq).2 h)

theorem at_of_same (hat : At edits s₀ done s) (hedit : edit ∈ edits) (hsame : Same edit.target s t) :
    At edits s₀ done t := by
  have hcontent := content_congr hsame.target
  exact hadm.at_of_touched hat hedit hsame.beside (hsame.clear (hat.clear _ hedit)) (fun _ _ => Iff.rfl)
    (fun h => hcontent.trans (hat.made _ hedit h)) fun h => hcontent.trans (hat.rest _ hedit h)

theorem stopped_of_touched (hat : At edits s₀ done s) (hready : ∀ e ∈ done, EditReady host e s₀) (hedit : edit ∈ edits)
    (hbeside : Beside edit.target s t) (hclear : t.Clear edit.target)
    (hstop : StoppedAt host s₀ edit (t.content edit.target)) : Stopped host edits s₀ t := by
  intro e he
  by_cases heq : e = edit
  · exact heq ▸ ⟨hclear, hstop⟩
  · obtain ⟨hclear', hcontent⟩ := hadm.others hedit hat.clear hbeside he heq
    refine ⟨hclear', ?_⟩
    rw [hcontent]
    by_cases hmem : e ∈ done
    · exact .inr ⟨hready e hmem, .inl (hat.made e he hmem)⟩
    · exact .inl (hat.rest e he hmem)

end Admissible

/-! ## The checks -/

theorem checkOriginal_spec (host : FileHost) (edit : WorkspaceFileEdit) (current : Option (List UInt8)) :
    (∃ original, checkOriginal host edit current = .ok original ∧ original.map Wire.utf8 = current ∧
      Matches host edit current ∧ ∀ bytes ∈ current, (fromUtf8 bytes).isSome) ∨
    (∃ e, checkOriginal host edit current = .error e) ∧
      ¬ (Matches host edit current ∧ ∀ bytes ∈ current, (fromUtf8 bytes).isSome) := by
  have hconflicts : (current.map host.sha256 ≠ some (host.sha256 (Wire.utf8 edit.content)) ∧
      current.map host.sha256 ≠ edit.expectedSha256) ↔ ¬ Matches host edit current := by
    rw [Matches, not_or]
  unfold checkOriginal
  by_cases hmatches : Matches host edit current
  · have hfits := mt hconflicts.1 (not_not_intro hmatches)
    cases current with
    | none => exact .inl ⟨none, if_neg hfits, rfl, hmatches, fun _ h => by cases h⟩
    | some bytes =>
      cases htext : fromUtf8 bytes with
      | none =>
        refine .inr ⟨⟨_, by simp only [htext]; rfl⟩, fun h => ?_⟩
        have hsome := h.2 bytes rfl
        rw [htext] at hsome
        cases hsome
      | some text =>
        refine .inl ⟨some text, by simp only [htext]; exact if_neg hfits, ?_, hmatches, ?_⟩
        · rw [Option.map_some, fromUtf8_eq_some.1 htext]
        · rintro _ ⟨⟩
          rw [htext]
          rfl
  · refine .inr ⟨?_, fun h => hmatches h.1⟩
    have hconflict := hconflicts.2 hmatches
    cases current with
    | none => exact ⟨_, if_pos hconflict⟩
    | some bytes =>
      cases htext : fromUtf8 bytes with
      | none => exact ⟨_, by simp only [htext]; rfl⟩
      | some text => exact ⟨_, by simp only [htext]; exact if_pos hconflict⟩

def Planned (host : FileHost) (s₀ : Checkout) (f f' : Fault FileOp) (pairs : List Saved) : Prop :=
  (∀ x ∈ pairs, Fit host s₀ x) ∨ Broke f f' ∧ ∃ before x after, pairs = before ++ x :: after ∧
    (∀ y ∈ before, Fit host s₀ y) ∧ (∀ y ∈ after, Fit host s₀ y) ∧
    (Matches host x.1 (s₀.content x.1.target) → EditReady host x.1 s₀)

inductive Checked (host : FileHost) (edits : List WorkspaceFileEdit) (s₀ : Checkout) (todo : List WorkspaceFileEdit)
    (f : Fault FileOp) : Except ApiError (List (Option String)) → Checkout → Fault FileOp → Prop
  | passed {t : Checkout} {f' : Fault FileOp} (pairs : List Saved) (todo_eq : pairs.map Prod.fst = todo)
      (mild : Mild f f') (kept : At edits s₀ [] t) (planned : Planned host s₀ f f' pairs) :
      Checked host edits s₀ todo f (.ok (pairs.map Prod.snd)) t f'
  | refused {e : ApiError} {t : Checkout} {f' : Fault FileOp} (mild : Mild f f') (kept : At edits s₀ [] t)
      (why : Broke f f' ∨ ∃ edit ∈ todo, ¬ EditReady host edit s₀) : Checked host edits s₀ todo f (.error e) t f'

theorem not_broke_of_settled (hf : f.Settled) : ¬ Broke f f' := fun ⟨_, hfails, _⟩ => not_fails_of_settled hf hfails

theorem Broke.settled (h : Broke f f') : f'.Settled := by
  obtain ⟨o, hfails, -⟩ := h
  exact hfails.settled

section Checks

variable (hadm : Admissible host edits s₀)
include hadm

theorem Admissible.ready_of_absent (hedit : edit ∈ edits) (hmatches : Matches host edit none)
    (hsome : Matches host edit (s₀.content edit.target)) : EditReady host edit s₀ := by
  refine ⟨hsome, fun bytes hbytes => ?_⟩
  have hexpected : edit.expectedSha256 = none := by
    rcases hmatches with h | h
    · cases h
    · exact h.symm
  have hsha : host.sha256 bytes = host.sha256 (Wire.utf8 edit.content) := by
    rw [Option.mem_def.1 hbytes] at hsome
    rcases hsome with h | h
    · exact Option.some.inj h
    · rw [hexpected] at h
      cases h
  have htext : fromUtf8 bytes = some edit.content := fromUtf8_eq_some.2 (hadm.told edit hedit bytes hbytes hsha).symm
  rw [htext]
  rfl

theorem preflight_ends : ∀ (todo : List WorkspaceFileEdit) (seen : List (List String)) (s : Checkout) (f : Fault FileOp),
    (∀ edit ∈ todo, edit ∈ edits) → todo.Nodup →
    (∀ edit ∈ edits, edit.target ∈ seen → edit ∉ todo) → At edits s₀ [] s →
    Ends (At edits s₀ []) (preflight host seen todo) (Checked host edits s₀ todo f) s f
  | [], _, s, f, _, _, _, hat => Ends.pure (.passed [] rfl (.refl f) hat (.inl (List.forall_mem_nil _)))
  | edit :: todo, seen, s, f, hsub, hnodup, hseen, hat => by
    obtain ⟨hnotin, hnodup'⟩ := List.nodup_cons.1 hnodup
    have hedit := hsub edit List.mem_cons_self
    obtain ⟨⟨parents, name⟩, hpath⟩ := hadm.path edit hedit
    have htarget : edit.target = parents ++ [name] := target_eq hpath
    have hclear := hat.clear edit hedit
    have hcontent := hat.rest edit hedit List.not_mem_nil
    rw [htarget] at hclear
    have hsameAt : ∀ t, Same (parents ++ [name]) s t → At edits s₀ [] t := fun t ht =>
      hadm.at_of_same hat hedit (htarget ▸ ht)
    have hfresh : seen.contains (parents ++ [name]) = false := by
      rw [← htarget, List.contains_eq_mem, decide_eq_false_iff_not]
      exact fun h => hseen edit hedit h List.mem_cons_self
    have hseen' : ∀ e ∈ edits, e.target ∈ (parents ++ [name]) :: seen → e ∉ todo := by
      intro e he hmem htodo
      rcases List.mem_cons.1 hmem with heq | hmem
      · have hne : e ≠ edit := fun h => hnotin (h ▸ htodo)
        have hapart := hadm.apart_of_ne he hedit hne
        rw [heq, htarget] at hapart
        exact hapart.1 (List.prefix_refl _)
      · exact hseen e he hmem (List.mem_cons_of_mem _ htodo)
    have hrest : ∀ t f', At edits s₀ [] t →
        Ends (At edits s₀ []) (preflight host ((parents ++ [name]) :: seen) todo) (Checked host edits s₀ todo f') t f' :=
      fun t f' ht => preflight_ends todo _ t f' (fun e he => hsub e (List.mem_cons_of_mem _ he)) hnodup' hseen' ht
    unfold preflight
    refine Ends.bind (((safeTarget_create hpath hclear).mono hsameAt fun _ _ _ h => h).mapError ?_)
    rintro x t f₁ (⟨rfl, h₁, hsame, hmade⟩ | ⟨⟨e, rfl⟩, hbroke, hsame⟩)
    · have hat₁ := hsameAt t hsame
      have hread := readTarget_made hpath host f₁ (hsame.clear hclear) hmade
      show Ends _ (if seen.contains (parents ++ [name]) = true then _ else _) _ _ _
      rw [if_neg (by rw [hfresh]; exact Bool.false_ne_true)]
      refine Ends.bind ((hread.mono (fun _ ht => ht ▸ hat₁) fun _ _ _ h => h).mapError ?_)
      rintro y u f₂ ⟨rfl, ⟨rfl, h₂⟩ | ⟨rfl | ⟨e, rfl⟩, hbroke⟩⟩
      · have hread : u.content (parents ++ [name]) = s₀.content edit.target := by
          rw [content_congr hsame.target, ← htarget, hcontent]
        have hmild := h₁.trans h₂
        show Ends _ (match checkOriginal host edit (u.content (parents ++ [name])) with
          | .error error => throw error
          | .ok original => _) _ _ _
        rw [hread]
        rcases checkOriginal_spec host edit (s₀.content edit.target) with
          ⟨original, hok, horiginal, hready⟩ | ⟨⟨e, herror⟩, hnot⟩
        · rw [hok]
          refine Ends.bind ((hrest u f₂ hat₁).post ?_)
          rintro z v f₃ (⟨pairs, rfl, h₃, hat₃, hplan⟩ | ⟨h₃, hat₃, why⟩)
          · refine Ends.pure (.passed ((edit, original) :: pairs) rfl (hmild.trans h₃) hat₃ ?_)
            have hfit : Fit host s₀ (edit, original) := ⟨hready, horiginal⟩
            rcases hplan with hfits | ⟨hbroke, before, x, after, rfl, hbefore, hafter, hx⟩
            · exact .inl (List.forall_mem_cons.2 ⟨hfit, hfits⟩)
            · exact .inr ⟨hbroke.of_mild hmild, (edit, original) :: before, x, after, rfl,
                List.forall_mem_cons.2 ⟨hfit, hbefore⟩, hafter, hx⟩
          · refine .refused (hmild.trans h₃) hat₃ (why.imp (·.of_mild hmild) ?_)
            rintro ⟨e, he, hnot⟩
            exact ⟨e, List.mem_cons_of_mem _ he, hnot⟩
        · rw [herror]
          exact Ends.throw (.refused hmild hat₁ (.inr ⟨edit, List.mem_cons_self, hnot⟩))
      · have hbroke := hbroke.of_mild h₁
        show Ends _ (match checkOriginal host edit none with
          | .error error => throw error
          | .ok original => _) _ _ _
        rcases checkOriginal_spec host edit none with ⟨original, hok, -, hmatches, -⟩ | ⟨⟨e, herror⟩, -⟩
        · rw [hok]
          refine Ends.bind ((hrest u f₂ hat₁).post ?_)
          rintro z v f₃ (⟨pairs, rfl, h₃, hat₃, hplan⟩ | ⟨h₃, hat₃, why⟩)
          · have hfits := hplan.resolve_right fun h => not_broke_of_settled hbroke.settled h.1
            refine Ends.pure (.passed ((edit, original) :: pairs) rfl (hbroke.mild.trans h₃) hat₃ (.inr ?_))
            exact ⟨hbroke.trans_mild h₃, [], _, pairs, rfl, List.forall_mem_nil _, hfits,
              hadm.ready_of_absent hedit hmatches⟩
          · exact .refused (hbroke.mild.trans h₃) hat₃ (.inl (hbroke.trans_mild h₃))
        · rw [herror]
          exact Ends.throw (.refused hbroke.mild hat₁ (.inl hbroke))
      · exact .refused (h₁.trans hbroke.mild) hat₁ (.inl (hbroke.of_mild h₁))
    · exact .refused hbroke.mild (hsameAt t hsame) (.inl hbroke)

end Checks

/-! ## The way back -/

theorem Checkout.Beside.clear (h : Beside p s t) (hclear : s.Clear p)
    (ht : t.node p = none ∨ ∃ bytes, t.node p = some (.file bytes)) : t.Clear p where
  above := by
    intro q hq hne hnil
    rcases h q hne with heq | ⟨-, hdir, -⟩
    · exact heq ▸ hclear.above q hq hne hnil
    · exact .inr hdir
  target := ht

theorem Amid.clear (h : Amid host edit p s t) (hclear : s.Clear p) : t.Clear p := by
  refine h.beside.clear hclear ?_
  rcases h.target with heq | ⟨-, hfile | ⟨hnone, -⟩⟩
  · exact heq ▸ hclear.target
  · exact .inr ⟨_, hfile⟩
  · exact .inl hnone

theorem edit_ends (hpath : ∃ parts, splitPath edit.path = .ok parts) (hclear : s.Clear edit.target)
    (htold : ToldApart host edit (s.content edit.target)) :
    Ends (Amid host edit edit.target s) (applyCheckoutEdit host edit) (Edited host edit edit.target s f) s f := by
  obtain ⟨⟨parents, name⟩, hpath⟩ := hpath
  rw [target_eq hpath] at hclear htold ⊢
  exact applyCheckoutEdit_ends hpath hclear htold

section Rollback

variable (hadm : Admissible host edits s₀)
include hadm

theorem rollbackEdit_ends {ε : Type} {original : Option String} (hf : f.Settled) (hat : At edits s₀ (edit :: done) s)
    (hedit : edit ∈ edits) (hnotin : edit ∉ done) (hdone : ∀ e ∈ done, EditReady host e s₀)
    (hfit : Fit host s₀ (edit, original)) :
    Ends (Stopped host edits s₀) (rollbackEdit host edit original : FileProg ε (Option String))
      (fun x t f' => x = .ok none ∧ f' = f ∧ At edits s₀ done t) s f := by
  obtain ⟨⟨parents, name⟩, hpath⟩ := hadm.path edit hedit
  have htarget : edit.target = parents ++ [name] := target_eq hpath
  have hready : ∀ e ∈ edit :: done, EditReady host e s₀ := List.forall_mem_cons.2 ⟨hfit.1, hdone⟩
  have hclear := hat.clear edit hedit
  have hsameAt : ∀ t, Same (parents ++ [name]) s t → At edits s₀ (edit :: done) t := fun t ht =>
    hadm.at_of_same hat hedit (htarget ▸ ht)
  have hstopped : ∀ t, At edits s₀ (edit :: done) t → Stopped host edits s₀ t := fun t ht =>
    hadm.stopped_of_touched ht hready hedit (.refl _ t) (ht.clear edit hedit)
      (.inr ⟨hfit.1, .inl (ht.made edit hedit List.mem_cons_self)⟩)
  rw [htarget] at hclear
  unfold rollbackEdit
  refine Ends.bind (((safeTarget_create hpath hclear).mono (fun t ht => hstopped t (hsameAt t ht))
    fun _ _ _ h => h).attempt ?_)
  rintro x t f₁ (⟨rfl, h₁, hsame, hmade⟩ | ⟨-, hbroke, -⟩)
  swap
  · exact absurd hbroke (not_broke_of_settled hf)
  obtain rfl := h₁.eq_of_settled hf
  have hat₁ := hsameAt t hsame
  have hcontent := hat₁.made edit hedit List.mem_cons_self
  have hread := readTarget_made hpath host f₁ (hsame.clear hclear) hmade
  refine Ends.bind ((hread.mono (fun u hu => hu ▸ hstopped t hat₁) fun _ _ _ h => h).attempt ?_)
  rintro y u f₂ ⟨rfl, ⟨rfl, h₂⟩ | ⟨-, hbroke⟩⟩
  swap
  · exact absurd hbroke (not_broke_of_settled hf)
  obtain rfl := h₂.eq_of_settled hf
  have hback : ∀ v, Beside edit.target u v → v.Clear edit.target → v.content edit.target = s₀.content edit.target →
      At edits s₀ done v := by
    intro v hbeside hclear' hv
    refine hadm.at_of_touched hat₁ hedit hbeside hclear' (fun e hne => ?_) (fun h => absurd h hnotin) fun _ => hv
    rw [List.mem_cons, or_iff_right hne]
  show Ends _ (if _ then _ else _) _ _ _
  rw [← htarget, hcontent, Option.map_some, if_neg (not_not_intro rfl)]
  have hnode := node_of_content hcontent
  cases original with
  | some text =>
    have horiginal : s₀.content edit.target = some (Wire.utf8 text) := hfit.2.symm
    have htold : ToldApart host (restoringEdit host edit text) (u.content edit.target) := by
      intro bytes hbytes hsha
      obtain rfl : Wire.utf8 edit.content = bytes := Option.mem_unique hcontent (Option.mem_def.1 hbytes)
      exact (hadm.told edit hedit _ horiginal hsha.symm).symm
    have hrestore : Ends (Amid host (restoringEdit host edit text) edit.target u)
        (applyCheckoutEdit host (restoringEdit host edit text))
        (Edited host (restoringEdit host edit text) edit.target u f₂) u f₂ :=
      edit_ends (hadm.path edit hedit) (hat₁.clear edit hedit) htold
    refine Ends.bind ((hrestore.mono (fun v hv => ?_) fun _ _ _ h => h).attempt ?_)
    · refine hadm.stopped_of_touched hat₁ hready hedit hv.beside (hv.clear (hat₁.clear edit hedit)) ?_
      rcases hv.target with heq | ⟨-, hfile | ⟨hnone, -, hnew⟩⟩
      · exact .inr ⟨hfit.1, .inl ((content_congr heq).trans hcontent)⟩
      · exact .inl ((content_of_node hfile).trans horiginal.symm)
      · refine .inr ⟨hfit.1, .inr ⟨content_of_absent hnone, by simp [horiginal], fun h => hnew ?_⟩⟩
        exact hcontent.trans (h.symm.trans horiginal)
    · rintro z v f₃ (⟨-, h₃, hbeside, hfile⟩ | ⟨-, -, hbroke | hnot⟩ | ⟨-, hfails, -, -, -⟩)
      · obtain rfl := h₃.eq_of_settled hf
        refine Ends.pure ⟨rfl, rfl, hback v hbeside ?_ ((content_of_node hfile).trans horiginal.symm)⟩
        exact hbeside.clear (hat₁.clear edit hedit) (.inr ⟨_, hfile⟩)
      · exact absurd hbroke (not_broke_of_settled hf)
      · refine absurd (.inr ?_) hnot
        rw [hcontent]
        rfl
      · exact absurd hfails (not_fails_of_settled hf)
  | none =>
    have hremoved : At edits s₀ done { u with node := Function.update u.node edit.target none } := by
      have hnone : ({ u with node := Function.update u.node edit.target none } : Checkout).node edit.target = none :=
        Function.update_self _ _ _
      refine hback _ (beside_update none rfl) ((beside_update none rfl).clear (hat₁.clear edit hedit) (.inl hnone)) ?_
      exact (content_of_absent hnone).trans hfit.2
    have hact : (match u.node edit.target with
        | some (.file _) => some ((), { u with node := Function.update u.node edit.target none })
        | _ => none) = some ((), { u with node := Function.update u.node edit.target none }) := by rw [hnode]
    refine attempt_ends hact ?_ (fun hfails => absurd hfails (not_fails_of_settled hf)) fun f₃ h₃ => ?_
    · exact hadm.stopped_of_touched hremoved hdone hedit (.refl _ _) (hremoved.clear edit hedit)
        (.inl (hremoved.rest edit hedit hnotin))
    · obtain rfl := h₃.eq_of_settled hf
      exact Ends.pure ⟨rfl, rfl, hremoved⟩

theorem rollback_ends {ε : Type} (hf : f.Settled) (applied : List Saved)
    (hfits : ∀ x ∈ applied, x.1 ∈ edits ∧ Fit host s₀ x) (hdone : ∀ e ∈ done, EditReady host e s₀)
    (hnodup : (applied.map Prod.fst ++ done).Nodup) (hat : At edits s₀ (applied.map Prod.fst ++ done) s) :
    Ends (Stopped host edits s₀) (rollback host applied : FileProg ε (List String))
      (fun x t f' => x = .ok [] ∧ f' = f ∧ At edits s₀ done t) s f := by
  induction applied generalizing s with
  | nil => exact Ends.pure ⟨rfl, rfl, hat⟩
  | cons x earlier ih =>
    obtain ⟨edit, original⟩ := x
    obtain ⟨⟨hedit, hfit⟩, hfits⟩ := List.forall_mem_cons.1 hfits
    obtain ⟨hnotin, hnodup⟩ := List.nodup_cons.1 hnodup
    have hready : ∀ e ∈ earlier.map Prod.fst ++ done, EditReady host e s₀ := by
      intro e he
      rcases List.mem_append.1 he with he | he
      · obtain ⟨x, hx, rfl⟩ := List.mem_map.1 he
        exact (hfits x hx).2.1
      · exact hdone e he
    unfold rollback
    refine Ends.bind ((rollbackEdit_ends hadm hf hat hedit hnotin hready hfit).post ?_)
    rintro y t f₁ ⟨rfl, rfl, ht⟩
    refine Ends.bind ((ih hfits hnodup ht).post ?_)
    rintro z u f₂ ⟨rfl, rfl, hu⟩
    exact Ends.pure ⟨rfl, rfl, hu⟩

end Rollback

/-! ## The patch -/

inductive Tried (host : FileHost) (edits : List WorkspaceFileEdit) (s₀ : Checkout) (done : List WorkspaceFileEdit)
    (edit : WorkspaceFileEdit) (f : Fault FileOp) : Except ApiError EditResult → Checkout → Fault FileOp → Prop
  | applied {result : EditResult} {t : Checkout} {f' : Fault FileOp} (ready : EditReady host edit s₀) (mild : Mild f f')
      (kept : At edits s₀ (edit :: done) t) : Tried host edits s₀ done edit f (.ok result) t f'
  | refused {e : ApiError} {t : Checkout} {f' : Fault FileOp} (mild : Mild f f') (kept : At edits s₀ done t)
      (why : Broke f f' ∨ ¬ EditReady host edit s₀) : Tried host edits s₀ done edit f (.error e) t f'
  | unfinished {e : ApiError} {t : Checkout} {f' : Fault FileOp} (ready : EditReady host edit s₀)
      (fails : Fails f .removeBackup f') (kept : At edits s₀ (edit :: done) t)
      (changed : s₀.content edit.target ≠ some (Wire.utf8 edit.content)) :
      Tried host edits s₀ done edit f (.error e) t f'

inductive Patched (host : FileHost) (edits : List WorkspaceFileEdit) (s₀ : Checkout) (f : Fault FileOp) :
    Except ApiError (List EditResult) → Checkout → Fault FileOp → Prop
  | applied {results : List EditResult} {t : Checkout} {f' : Fault FileOp}
      (ready : ∀ edit ∈ edits, EditReady host edit s₀) (kept : At edits s₀ edits t) :
      Patched host edits s₀ f (.ok results) t f'
  | undone {e : ApiError} {t : Checkout} {f' : Fault FileOp} (mild : Mild f f') (kept : At edits s₀ [] t)
      (why : Broke f f' ∨ ∃ edit ∈ edits, ¬ EditReady host edit s₀) : Patched host edits s₀ f (.error e) t f'
  | unfinished {e : ApiError} {t : Checkout} {f' : Fault FileOp} (fails : Fails f .removeBackup f')
      (edit : WorkspaceFileEdit) (mem : edit ∈ edits) (kept : At edits s₀ [edit] t)
      (ready : EditReady host edit s₀) (changed : s₀.content edit.target ≠ some (Wire.utf8 edit.content)) :
      Patched host edits s₀ f (.error e) t f'

theorem Patched.of_mild {f'' : Fault FileOp} {x : Except ApiError (List EditResult)}
    (h : Patched host edits s₀ f' x t f'') (hmild : Mild f f') : Patched host edits s₀ f x t f'' := by
  cases h with
  | applied ready kept => exact .applied ready kept
  | undone mild kept why => exact .undone (hmild.trans mild) kept (why.imp_left (·.of_mild hmild))
  | unfinished fails edit mem kept ready changed =>
    exact .unfinished (hmild.trans_fails fails) edit mem kept ready changed

theorem At.congr {done' : List WorkspaceFileEdit} (h : At edits s₀ done s) (hmem : ∀ e ∈ edits, e ∈ done' ↔ e ∈ done) :
    At edits s₀ done' s :=
  ⟨h.clear, fun e he hd => h.made e he ((hmem e he).1 hd), fun e he hd => h.rest e he fun hn => hd ((hmem e he).2 hn)⟩

theorem At.stopped (h : At edits s₀ done s) (hready : ∀ e ∈ done, EditReady host e s₀) : Stopped host edits s₀ s := by
  intro e he
  refine ⟨h.clear e he, ?_⟩
  by_cases hmem : e ∈ done
  · exact .inr ⟨hready e hmem, .inl (h.made e he hmem)⟩
  · exact .inl (h.rest e he hmem)

theorem perm_applied {applied todo : List Saved} {x : Saved} (hnodup : edits.Nodup)
    (hperm : ((applied ++ x :: todo).map Prod.fst).Perm edits) :
    x.1 ∈ edits ∧ (∀ y ∈ applied, y.1 ∈ edits) ∧ (applied.map Prod.fst ++ [x.1]).Nodup ∧
      ((x :: applied ++ todo).map Prod.fst).Perm edits := by
  have hmiddle : (applied ++ x :: todo).Perm (x :: applied ++ todo) := List.perm_middle
  have hmoved := (hmiddle.symm.map Prod.fst).trans hperm
  refine ⟨hperm.subset (by simp), fun y hy => hperm.subset ?_, ?_, hmoved⟩
  · exact List.mem_map_of_mem (List.mem_append_left _ hy)
  · have hall := hperm.nodup_iff.2 hnodup
    rw [List.map_append, List.map_cons, List.append_cons] at hall
    exact (List.nodup_append.1 hall).1

section Patch

variable (hadm : Admissible host edits s₀)
include hadm

theorem tried_ends (hat : At edits s₀ done s) (hdone : ∀ e ∈ done, EditReady host e s₀) (hedit : edit ∈ edits)
    (hnotin : edit ∉ done) (hready : Matches host edit (s₀.content edit.target) → EditReady host edit s₀) :
    Ends (Stopped host edits s₀) (applyCheckoutEdit host edit) (Tried host edits s₀ done edit f) s f := by
  have hcontent := hat.rest edit hedit hnotin
  have hclear := hat.clear edit hedit
  have happly : Ends (Amid host edit edit.target s) (applyCheckoutEdit host edit)
      (Edited host edit edit.target s f) s f :=
    edit_ends (hadm.path edit hedit) hclear (hcontent ▸ hadm.told edit hedit)
  have hpush : ∀ t, Beside edit.target s t → t.node edit.target = some (.file (Wire.utf8 edit.content)) →
      At edits s₀ (edit :: done) t := by
    intro t hbeside hfile
    refine hadm.at_of_touched hat hedit hbeside (hbeside.clear hclear (.inr ⟨_, hfile⟩)) (fun e hne => ?_)
      (fun _ => content_of_node hfile) fun h => absurd List.mem_cons_self h
    rw [List.mem_cons, or_iff_right hne]
  refine happly.mono (fun t ht => ?_) fun x t f' h => ?_
  · refine hadm.stopped_of_touched hat hdone hedit ht.beside (ht.clear hclear) ?_
    rcases ht.target with heq | ⟨hfits, hfile | ⟨hnone, hsome, hnew⟩⟩
    · exact .inl ((content_congr heq).trans hcontent)
    · exact .inr ⟨hready (hcontent ▸ hfits), .inl (content_of_node hfile)⟩
    · exact .inr ⟨hready (hcontent ▸ hfits), .inr ⟨content_of_absent hnone, hcontent ▸ hsome, hcontent ▸ hnew⟩⟩
  · cases h with
    | applied fits mild beside target => exact .applied (hready (hcontent ▸ fits)) mild (hpush t beside target)
    | refused mild same why =>
      refine .refused mild (hadm.at_of_same hat hedit same) (why.imp_right fun hnot h => hnot ?_)
      exact hcontent ▸ h.1
    | unfinished fits fails beside target changed =>
      refine .unfinished (hready (hcontent ▸ fits)) fails (hpush t beside target) fun h => changed ?_
      rw [target, node_of_content (hcontent.trans h)]

theorem undo_ends {error : ApiError} (hf : f.Settled) (applied : List Saved)
    (hfits : ∀ x ∈ applied, x.1 ∈ edits ∧ Fit host s₀ x) (hdone : ∀ e ∈ done, EditReady host e s₀)
    (hnodup : (applied.map Prod.fst ++ done).Nodup) (hat : At edits s₀ (applied.map Prod.fst ++ done) s) :
    Ends (Stopped host edits s₀)
      (rollback host applied >>= fun errors => throw (rolledBack error errors) : FileProg ApiError (List EditResult))
      (fun x t f' => x = .error error ∧ f' = f ∧ At edits s₀ done t) s f := by
  refine Ends.bind ((rollback_ends hadm hf applied hfits hdone hnodup hat).post ?_)
  rintro x t f' ⟨rfl, rfl, ht⟩
  exact Ends.throw ⟨congrArg Except.error (if_pos rfl), rfl, ht⟩

theorem applyEdits_ends {rest : List Saved} (before applied : List Saved)
    (hrest : rest = [] ∨ f.Settled ∧ ∃ x xs, rest = x :: xs ∧ ¬ Matches host x.1 (s₀.content x.1.target))
    (hperm : ((applied ++ (before ++ rest)).map Prod.fst).Perm edits) (happlied : ∀ x ∈ applied, Fit host s₀ x)
    (hbefore : ∀ x ∈ before, Fit host s₀ x) (hat : At edits s₀ (applied.map Prod.fst) s) :
    Ends (Stopped host edits s₀) (applyEdits host applied (before ++ rest)) (Patched host edits s₀ f) s f := by
  have hdone : ∀ l : List Saved, (∀ x ∈ l, Fit host s₀ x) → ∀ e ∈ l.map Prod.fst, EditReady host e s₀ := by
    intro l hl e he
    obtain ⟨x, hx, rfl⟩ := List.mem_map.1 he
    exact (hl x hx).1
  induction before generalizing applied s f with
  | nil =>
    rcases hrest with rfl | ⟨hf, ⟨edit, original⟩, xs, rfl, hnot⟩
    · have hmem : ∀ e, e ∈ edits ↔ e ∈ applied.map Prod.fst := by
        intro e
        rw [← hperm.mem_iff, List.nil_append, List.append_nil]
      refine Ends.pure (.applied (fun e he => hdone applied happlied e ((hmem e).1 he)) (hat.congr fun e he => ?_))
      exact iff_of_true he ((hmem e).1 he)
    · obtain ⟨hedit, hsub, hnodup, -⟩ := perm_applied hadm.nodup hperm
      have hnotin : edit ∉ applied.map Prod.fst := fun h =>
        (List.nodup_append.1 hnodup).2.2 _ h _ (List.mem_singleton_self _) rfl
      unfold applyEdits
      refine Ends.bind (((tried_ends hadm hat (hdone applied happlied) hedit hnotin fun h => absurd h hnot)).attempt ?_)
      rintro x t f₁ (⟨hready, -, -⟩ | ⟨h₁, ht, why⟩ | ⟨hready, -, -, -⟩)
      · exact absurd hready.1 hnot
      · obtain rfl := h₁.eq_of_settled hf
        refine (undo_ends hadm hf applied (fun y hy => ⟨hsub y hy, happlied y hy⟩) (List.forall_mem_nil _)
          (by rw [List.append_nil]; exact (List.nodup_append.1 hnodup).1) (by rw [List.append_nil]; exact ht)).post ?_
        rintro y u f₂ ⟨rfl, rfl, hu⟩
        have hunready : ¬ EditReady host edit s₀ := fun h => hnot h.1
        exact .undone (.refl _) hu (.inr ⟨edit, hedit, hunready⟩)
      · exact absurd hready.1 hnot
  | cons x before ih =>
    obtain ⟨edit, original⟩ := x
    obtain ⟨hfit, hbefore⟩ := List.forall_mem_cons.1 hbefore
    obtain ⟨hedit, hsub, hnodup, hperm'⟩ := perm_applied hadm.nodup hperm
    have hnotin : edit ∉ applied.map Prod.fst := fun h =>
      (List.nodup_append.1 hnodup).2.2 _ h _ (List.mem_singleton_self _) rfl
    have hfits : ∀ y ∈ applied, y.1 ∈ edits ∧ Fit host s₀ y := fun y hy => ⟨hsub y hy, happlied y hy⟩
    unfold applyEdits
    refine Ends.bind (((tried_ends hadm hat (hdone applied happlied) hedit hnotin fun _ => hfit.1)).attempt ?_)
    rintro y t f₁ (⟨-, h₁, ht⟩ | ⟨h₁, ht, why⟩ | ⟨hready, hfails, ht, hchanged⟩)
    · have hrest₁ : rest = [] ∨ f₁.Settled ∧ ∃ x xs, rest = x :: xs ∧ ¬ Matches host x.1 (s₀.content x.1.target) := by
        rcases hrest with hnil | ⟨hf, hx⟩
        · exact .inl hnil
        · exact .inr ⟨h₁.eq_of_settled hf ▸ hf, hx⟩
      refine Ends.bind ((ih ((edit, original) :: applied) hrest₁ hperm' (List.forall_mem_cons.2 ⟨hfit, happlied⟩)
        hbefore ht).post ?_)
      rintro z u f₂ (⟨hready, hu⟩ | ⟨h₂, hu, why⟩ | ⟨hfails, e, he, hu, hready, hchanged⟩)
      · exact Ends.pure (.applied hready hu)
      · exact .undone (h₁.trans h₂) hu (why.imp_left (·.of_mild h₁))
      · exact .unfinished (h₁.trans_fails hfails) e he hu hready hchanged
    · have hbroke := why.resolve_right (not_not_intro hfit.1)
      refine (undo_ends hadm hbroke.settled applied hfits (List.forall_mem_nil _)
        (by rw [List.append_nil]; exact (List.nodup_append.1 hnodup).1) (by rw [List.append_nil]; exact ht)).post ?_
      rintro y u f₂ ⟨rfl, rfl, hu⟩
      exact .undone h₁ hu (.inl hbroke)
    · have ht' : At edits s₀ (applied.map Prod.fst ++ [edit]) t := ht.congr fun e _ => by
        rw [List.mem_append, List.mem_singleton, List.mem_cons, or_comm]
      refine (undo_ends hadm hfails.settled applied hfits (List.forall_mem_singleton.2 hready) hnodup ht').post ?_
      rintro y u f₂ ⟨rfl, rfl, hu⟩
      exact .unfinished hfails edit hedit hu hready hchanged

theorem applyEdits_ready (todo applied : List Saved) (hf : f.Settled)
    (hperm : ((applied ++ todo).map Prod.fst).Perm edits) (hready : ∀ e ∈ edits, EditReady host e s₀)
    (hat : At edits s₀ (applied.map Prod.fst) s) :
    Ends (Stopped host edits s₀) (applyEdits host applied todo) (Patched host edits s₀ f) s f := by
  induction todo generalizing applied s with
  | nil =>
    refine Ends.pure (.applied hready (hat.congr fun e he => iff_of_true he ?_))
    rw [List.append_nil] at hperm
    exact hperm.mem_iff.2 he
  | cons x todo ih =>
    obtain ⟨edit, original⟩ := x
    obtain ⟨hedit, hsub, hnodup, hperm'⟩ := perm_applied hadm.nodup hperm
    have hnotin : edit ∉ applied.map Prod.fst := fun h =>
      (List.nodup_append.1 hnodup).2.2 _ h _ (List.mem_singleton_self _) rfl
    have hdone : ∀ e ∈ applied.map Prod.fst, EditReady host e s₀ := by
      intro e he
      obtain ⟨y, hy, rfl⟩ := List.mem_map.1 he
      exact hready _ (hsub y hy)
    unfold applyEdits
    refine Ends.bind (((tried_ends hadm hat hdone hedit hnotin fun _ => hready edit hedit)).attempt ?_)
    rintro y t f₁ (⟨-, h₁, ht⟩ | ⟨-, -, why⟩ | ⟨-, hfails, -, -⟩)
    · obtain rfl := h₁.eq_of_settled hf
      refine Ends.bind ((ih ((edit, original) :: applied) hperm' ht).post ?_)
      rintro z u f₂ (⟨hready, hu⟩ | ⟨h₂, hu, why⟩ | ⟨hfails, e, he, hu, hready, hchanged⟩)
      · exact Ends.pure (.applied hready hu)
      · exact .undone h₂ hu why
      · exact .unfinished hfails e he hu hready hchanged
    · rcases why with hbroke | hnot
      · exact absurd hbroke (not_broke_of_settled hf)
      · exact absurd (hready edit hedit) hnot
    · exact absurd hfails (not_fails_of_settled hf)

theorem applyCheckoutPatch_ends (hne : edits ≠ []) (hcount : edits.length ≤ 64)
    (hsize : totalBytes edits ≤ maxPatchBytes) :
    Ends (Stopped host edits s₀) (applyCheckoutPatch host edits) (Patched host edits s₀ f) s₀ f := by
  have hstart : At edits s₀ [] s₀ := ⟨hadm.clear, fun _ _ h => absurd h List.not_mem_nil, fun _ _ _ => rfl⟩
  have hbounds : (edits.isEmpty || decide (edits.length > 64)) = false := by
    rw [Bool.or_eq_false_iff, List.isEmpty_eq_false_iff, decide_eq_false_iff_not]
    exact ⟨hne, Nat.not_lt.2 hcount⟩
  unfold applyCheckoutPatch
  rw [hbounds, if_neg Bool.false_ne_true, if_neg (Nat.not_lt.2 hsize)]
  refine Ends.bind ((preflight_ends hadm edits [] s₀ f (fun _ h => h) hadm.nodup
    (fun _ _ h => absurd h List.not_mem_nil) hstart).mono (fun t ht => ht.stopped (List.forall_mem_nil _)) ?_)
  rintro x t f₁ (⟨pairs, hpairs, h₁, ht, hplan⟩ | ⟨h₁, ht, why⟩)
  · have hperm : ((([] : List Saved) ++ pairs).map Prod.fst).Perm edits := by rw [List.nil_append, hpairs]
    show Ends _ (applyEdits host [] (edits.zip (pairs.map Prod.snd))) _ _ _
    rw [← List.zip_of_prod hpairs rfl]
    refine Ends.post (Q := Patched host edits s₀ f₁) ?_ fun _ _ _ h => h.of_mild h₁
    rcases hplan with hfits | ⟨hbroke, before, x, after, rfl, hbefore, hafter, hx⟩
    · rw [← List.append_nil pairs] at hperm ⊢
      exact applyEdits_ends hadm pairs [] (.inl rfl) hperm (List.forall_mem_nil _) hfits ht
    · by_cases hmatches : Matches host x.1 (s₀.content x.1.target)
      · refine applyEdits_ready hadm _ [] hbroke.settled hperm (fun e he => ?_) ht
        obtain ⟨y, hy, rfl⟩ := List.mem_map.1 (hpairs ▸ he)
        rcases List.mem_append.1 hy with hy | hy
        · exact (hbefore y hy).1
        · rcases List.mem_cons.1 hy with rfl | hy
          · exact hx hmatches
          · exact (hafter y hy).1
      · exact applyEdits_ends hadm before [] (.inr ⟨hbroke.settled, x, after, rfl, hmatches⟩) hperm
          (List.forall_mem_nil _) hbefore ht
  · exact .undone h₁ ht why

end Patch

end Execlaw
