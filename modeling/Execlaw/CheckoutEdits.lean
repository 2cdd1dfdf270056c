import Execlaw.Faults
import Execlaw.PrincipalTrust
/-!
# CheckoutEdits — one edit of a checkout (`server/src/workspace_coding.rs`)

An edit stages its content beside the target, moves a file that is there aside, publishes under the name and removes
what it moved.  Whatever operation fails, the target has its old content again, unless the last one does: then the new
content is published.  A stop leaves the old content, the new, or, between the two moves, nothing.

Names are those of Unix.  Temporary files have names of their own and are not followed after their use.
-/
namespace Execlaw

open Faults

/-- What a name stands for; `other` is a link, a file of several links or anything else. -/
inductive Node
  | dir
  | file (bytes : List UInt8)
  | other

structure Checkout where
  node : List String → Option Node
  temp : Nat → List UInt8 := fun _ => []
  next : Nat := 0

inductive FileOp
  | canonicalizeRoot | lstatParent | createDir | canonicalizeParent | lstatTarget | parentExists | targetExists
  | lstatFile | read | metadata | createTemp | write | setPermissions | createBackup | clearBackup | moveAside
  | readBackup | backupTargetExists | putBack | publish | removeBackup | removeTarget
deriving DecidableEq

structure FileHost where
  sha256 : List UInt8 → String
  ioText : FileOp → String
  tempPath : Nat → String

abbrev FileProg (ε α : Type) := Prog Checkout FileOp ε α

structure WorkspaceFileEdit where
  path : String
  expectedSha256 : Option String
  content : String
deriving DecidableEq

structure EditResult where
  path : String
  sha256 : String

def fromUtf8 (bytes : List UInt8) : Option String := String.fromUTF8? ⟨bytes.toArray⟩

/-! ## Paths -/

def isSecretComponent (name : String) : Bool :=
  let lower := name.toList.map Char.toLower
  let contains (part : String) : Bool := lower.tails.any part.toList.isPrefixOf
  let endsWith (part : String) : Bool := part.toList.isSuffixOf lower
  let startsWith (part : String) : Bool := part.toList.isPrefixOf lower
  lower == ".env".toList || startsWith ".env." || startsWith ".execlaw-apply-" ||
    [".ssh", ".aws", ".azure", ".kube", ".execlaw", ".npmrc", ".pypirc", ".netrc", "id_rsa", "id_ecdsa", "id_ed25519",
      "credentials", "credential", "password", "passwd", "token", "config.json"].any (fun s => s.toList == lower) ||
    contains "credential" || contains "secret" || endsWith ".pem" || endsWith ".key" || endsWith ".p12" ||
    endsWith ".pfx" || endsWith ".keystore" || endsWith ".kubeconfig"

def normalComponents (path : String) : Option (List String) :=
  let parts := (path.toList.splitOn '/').map String.ofList
  if path.toList.head? = some '/' ∨ parts.head? = some "." then none
  else
    let parts := parts.filter fun c => c ≠ "" ∧ c ≠ "."
    if parts.contains ".." then none else some parts

def splitPath (path : String) : Except String (List String × String) :=
  match normalComponents path with
  | none => .error "path is outside the workspace allowlist"
  | some components =>
    if components.any isSecretComponent then .error "path is outside the workspace allowlist"
    else
      match components.getLast? with
      | none => .error "empty workspace path"
      | some filename => .ok (components.dropLast, filename)

/-! ## Looking at a target -/

variable (host : FileHost)

def lstat (o : FileOp) (path : List String) : FileProg String (Option Node) :=
  op o (host.ioText o) fun s => some (s.node path, s)

/-- `Path::exists`: not, if the system cannot tell. -/
def pathExists {ε : Type} (o : FileOp) (path : List String) : FileProg ε Bool := do
  match ← attempt (op o () fun s => some (path.isEmpty || (s.node path).isSome, s)) with
  | .ok b => pure b
  | .error () => pure false

def walkParents (createParents : Bool) : List String → List String → FileProg String (Bool × List String)
  | parent, [] => pure (true, parent)
  | parent, component :: components => do
    let candidate := parent ++ [component]
    match ← lstat host .lstatParent candidate with
    | some .dir => walkParents createParents candidate components
    | some _ => throw "workspace parent is not a safe directory"
    | none =>
      if createParents then do
        op .createDir (host.ioText .createDir) fun s =>
          some ((), { s with node := Function.update s.node candidate (some .dir) })
        walkParents createParents candidate components
      else pure (false, candidate)

def safeTarget (relative : String) (createParents : Bool) : FileProg String (List String × List String) := do
  op .canonicalizeRoot (host.ioText .canonicalizeRoot) fun s => some ((), s)
  match splitPath relative with
  | .error message => throw message
  | .ok (parents, filename) =>
    match ← walkParents host createParents [] parents with
    | (false, candidate) => pure (candidate, candidate ++ [filename])
    | (true, parent) =>
      -- what is under a directory of the checkout is in the checkout
      op .canonicalizeParent (host.ioText .canonicalizeParent) fun s => some ((), s)
      match ← attempt (lstat host .lstatTarget (parent ++ [filename])) with
      | .ok (some .dir) | .ok (some .other) => throw "workspace target is not a regular single-link file"
      | _ => pure (parent, parent ++ [filename])

def readTarget (relative : String) (createParents : Bool) : FileProg String (Option (List UInt8)) := do
  let (parent, path) ← safeTarget host relative createParents
  if !(← pathExists .parentExists parent) then pure none
  else if !(← pathExists .targetExists path) then pure none
  else
    match ← lstat host .lstatFile path with
    | none => throw (host.ioText .lstatFile)
    | some .dir | some .other => throw "workspace target is not a regular single-link file"
    | some (.file _) =>
      op .read (host.ioText .read) fun s =>
        match s.node path with
        | some (.file bytes) => some (some bytes, s)
        | _ => none

/-! ## The edit -/

def ioError (code : String) (o : FileOp) : ApiError := ⟨400, code, host.ioText o⟩

def pathDenied (message : String) : ApiError := ⟨403, "workspace_patch_path_denied", message⟩

def patchConflict (edit : WorkspaceFileEdit) : ApiError :=
  ⟨409, "workspace_patch_conflict", s!"workspace file changed since it was read: {edit.path}"⟩

/-- `restore_patch_backup`: the name of a backup that stays. -/
def restorePatchBackup {ε : Type} (backup : Nat) (target : List String) : FileProg ε (Option String) := do
  if ← pathExists .backupTargetExists target then pure (some (host.tempPath backup))
  else
    match ← attempt (op .putBack () fun s =>
      some ((), { s with node := Function.update s.node target (some (.file (s.temp backup))) })) with
    | .ok () => pure none
    | .error () => pure (some (host.tempPath backup))

def moveAside (edit : WorkspaceFileEdit) (target : List String) : FileProg ApiError Nat := do
  let backup ← op .createBackup (ioError host "workspace_patch_backup_create" .createBackup) fun s =>
    some (s.next, { s with next := s.next + 1 })
  op .clearBackup (ioError host "workspace_patch_backup_stage" .clearBackup) fun s => some ((), s)
  op .moveAside (ioError host "workspace_patch_backup" .moveAside) fun s =>
    match s.node target with
    | some (.file bytes) => some ((),
        { s with node := Function.update s.node target none, temp := Function.update s.temp backup bytes })
    | _ => none
  match ← attempt (op .readBackup (host.ioText .readBackup) fun s => some (s.temp backup, s)) with
  | .error error =>
    let preserved ← restorePatchBackup host backup target
    throw ⟨400, "workspace_patch_backup_read", error ++ "; backup " ++ preserved.getD "restored"⟩
  | .ok bytes =>
    if edit.expectedSha256 ≠ some (host.sha256 bytes) then do
      let preserved ← restorePatchBackup host backup target
      let kept := (preserved.map fun path => s!"; original preserved at {path}").getD ""
      throw ⟨409, "workspace_patch_conflict", s!"workspace file changed while patching: {edit.path}{kept}"⟩
    else pure backup

def stage (content : List UInt8) (existed : Bool) : FileProg ApiError Nat := do
  let temp ← op .createTemp (ioError host "workspace_patch_temp_create" .createTemp) fun s =>
    some (s.next, { s with next := s.next + 1 })
  op .write (ioError host "workspace_patch_write" .write) fun s =>
    some ((), { s with temp := Function.update s.temp temp content })
  if existed then op .setPermissions (ioError host "workspace_patch_permissions" .setPermissions) fun s => some ((), s)
  pure temp

/-- `persist_noclobber`, the way back if it fails, and the end of the backup. -/
def publish (temp : Nat) (backup : Option Nat) (target : List String) : FileProg ApiError Unit := do
  match ← attempt (op .publish (ioError host "workspace_patch_replace" .publish) fun s =>
    match s.node target with
    | none => some ((), { s with node := Function.update s.node target (some (.file (s.temp temp))) })
    | some _ => none) with
  | .error error =>
    match backup with
    | none => throw error
    | some backup =>
      match ← restorePatchBackup host backup target with
      | none => throw error
      | some preserved => throw ⟨409, "workspace_patch_conflict",
          s!"workspace target appeared during patching; original content was preserved at {preserved}"⟩
  | .ok () =>
    if backup.isSome then
      op .removeBackup (ioError host "workspace_patch_backup_remove" .removeBackup) fun s => some ((), s)

def readPermissions (existed : Bool) (target : List String) : FileProg ApiError Unit :=
  if existed then
    op .metadata (ioError host "workspace_patch_metadata" .metadata) fun s => (s.node target).map fun _ => ((), s)
  else pure ()

def setAside (edit : WorkspaceFileEdit) (existed : Bool) (target : List String) : FileProg ApiError (Option Nat) :=
  if existed then do
    let backup ← moveAside host edit target
    pure (some backup)
  else pure none

def replaceTarget (edit : WorkspaceFileEdit) (target : List String) (current : Option (List UInt8)) :
    FileProg ApiError EditResult := do
  readPermissions host current.isSome target
  let content := Wire.utf8 edit.content
  let nextHash := host.sha256 content
  if current.map host.sha256 = some nextHash then pure ⟨edit.path, nextHash⟩
  else if current.map host.sha256 ≠ edit.expectedSha256 then throw (patchConflict edit)
  else do
    let temp ← stage host content current.isSome
    let backup ← setAside host edit current.isSome target
    publish host temp backup target
    pure ⟨edit.path, nextHash⟩

def applyCheckoutEdit (edit : WorkspaceFileEdit) : FileProg ApiError EditResult := do
  let (_, target) ← mapError pathDenied (safeTarget host edit.path true)
  let current ← mapError pathDenied (readTarget host edit.path false)
  replaceTarget host edit target current

/-! ## What an edit leaves of the checkout -/

theorem fromUtf8_eq_some {bytes : List UInt8} {text : String} :
    fromUtf8 bytes = some text ↔ Wire.utf8 text = bytes := by
  unfold fromUtf8 String.fromUTF8?
  constructor
  · intro h
    split at h
    · cases h
      rfl
    · cases h
  · rintro rfl
    have hvalid : (⟨(Wire.utf8 text).toArray⟩ : ByteArray).IsValidUTF8 := text.isValidUTF8
    rw [dif_pos hvalid]
    rfl

namespace Checkout

def content (s : Checkout) (p : List String) : Option (List UInt8) :=
  match s.node p with
  | some (.file bytes) => some bytes
  | _ => none

structure Clear (s : Checkout) (p : List String) : Prop where
  above : ∀ q, q <+: p → q ≠ p → q ≠ [] → s.node q = none ∨ s.node q = some .dir
  target : s.node p = none ∨ ∃ bytes, s.node p = some (.file bytes)

def Beside (p : List String) (s t : Checkout) : Prop :=
  ∀ q, q ≠ p → t.node q = s.node q ∨ s.node q = none ∧ t.node q = some .dir ∧ q <+: p

structure Same (p : List String) (s t : Checkout) : Prop where
  beside : Beside p s t
  target : t.node p = s.node p

variable {s t u : Checkout} {p : List String}

theorem Beside.refl (p : List String) (s : Checkout) : Beside p s s := fun _ _ => .inl rfl

theorem Beside.trans (h : Beside p s t) (h' : Beside p t u) : Beside p s u := by
  intro q hq
  rcases h' q hq with heq | ⟨hnone, hdir, habove⟩
  · rw [heq]
    exact h q hq
  · rcases h q hq with heq | ⟨-, hdir', -⟩
    · exact .inr ⟨heq ▸ hnone, hdir, habove⟩
    · rw [hnone] at hdir'
      cases hdir'

theorem Same.refl (p : List String) (s : Checkout) : Same p s s := ⟨.refl p s, rfl⟩

theorem Same.trans (h : Same p s t) (h' : Same p t u) : Same p s u := ⟨h.beside.trans h'.beside, h'.target.trans h.target⟩

theorem Same.clear (h : Same p s t) (hclear : s.Clear p) : t.Clear p where
  above := by
    intro q hq hne hnil
    rcases h.beside q hne with heq | ⟨-, hdir, -⟩
    · rw [heq]
      exact hclear.above q hq hne hnil
    · exact .inr hdir
  target := by
    rw [h.target]
    exact hclear.target

theorem content_of_node {bytes : List UInt8} (h : s.node p = some (.file bytes)) : s.content p = some bytes := by
  rw [content, h]

theorem content_congr (h : t.node p = s.node p) : t.content p = s.content p := by rw [content, content, h]

theorem node_of_content {bytes : List UInt8} (h : s.content p = some bytes) : s.node p = some (.file bytes) := by
  unfold content at h
  split at h
  · next hnode => rw [hnode, Option.some.inj h]
  · cases h

end Checkout

open Checkout Fault

def Broke (f f' : Fault FileOp) : Prop := ∃ o, Fails f o f' ∧ o ≠ .removeBackup

abbrev Mild (f f' : Fault FileOp) : Prop := Leads (fun o => o ≠ .removeBackup) f f'

variable {host} {s : Checkout} {p : List String} {f : Fault FileOp}

section Operations

variable {ε ε' α β : Type} {C : Checkout → Prop} {o : FileOp} {e : ε} {a : α} {t : Checkout}
  {act : Checkout → Option (α × Checkout)} {Q : Except ε α → Checkout → Fault FileOp → Prop}
  {R : Except ε β → Checkout → Fault FileOp → Prop}

theorem op_ends (hfail : Q (.error e) s (.failed o) ∨ f.Settled)
    (hnone : act s = none → ∀ f', Mild f f' → Q (.error e) s f')
    (hsome : ∀ a t, act s = some (a, t) → C t ∧ ∀ f', Mild f f' → Q (.ok a) t f') : Ends C (op o e act) Q s f :=
  Ends.op _ hfail hnone hsome

theorem last_ends (hact : act s = some (a, t)) (hC : C t) (hfail : Fails f o (.failed o) → Q (.error e) s (.failed o))
    (hok : ∀ f', Mild f f' → Q (.ok a) t f') : Ends C (op o e act) Q s f := Ends.last _ hact hC hfail hok

theorem step_ends {g : α → FileProg ε β} (hact : act s = some (a, t)) (hC : C t)
    (hfail : Fails f o (.failed o) → R (.error e) s (.failed o)) (hrest : ∀ f', Mild f f' → Ends C (g a) R t f') :
    Ends C (op o e act >>= g) R s f := Ends.step _ hact hC hfail hrest

theorem attempt_ends {k : Except ε' α → FileProg ε β} {e : ε'} (hact : act s = some (a, t)) (hC : C t)
    (hfail : Fails f o (.failed o) → Ends C (k (.error e)) R s (.failed o))
    (hrest : ∀ f', Mild f f' → Ends C (k (.ok a)) R t f') : Ends C (attempt (op o e act) >>= k) R s f :=
  Ends.attempt_step _ hact hC hfail hrest

end Operations

theorem Broke.trans_mild {f f' f'' : Fault FileOp} (h : Broke f f') (h' : Mild f' f'') : Broke f f'' := by
  obtain ⟨o, hfails, ho⟩ := h
  exact ⟨o, hfails.trans_leads h', ho⟩

theorem Broke.of_mild {f f' f'' : Fault FileOp} (h' : Broke f' f'') (h : Mild f f') : Broke f f'' := by
  obtain ⟨o, hfails, ho⟩ := h'
  exact ⟨o, h.trans_fails hfails, ho⟩

theorem isPrefix_of_append_cons {parent cs : List String} {c name : String} (hp : parent ++ (c :: cs) ++ [name] = p) :
    parent ++ [c] <+: p ∧ parent ++ [c] ≠ p ∧ parent ++ [c] ≠ [] ∧ parent ++ [c] ++ cs ++ [name] = p := by
  subst hp
  refine ⟨⟨cs ++ [name], by simp⟩, ?_, by simp, by simp⟩
  intro h
  have hlength := congrArg List.length h
  simp at hlength

def Checkout.Made (s : Checkout) (p : List String) : Prop :=
  ∀ q, q <+: p → q ≠ p → q ≠ [] → s.node q = some .dir

/-- The program returns the result in a checkout of `K`, or breaks in one of `C`. -/
def Gives {ε α : Type} (C K : Checkout → Prop) (a : α) (f : Fault FileOp) (x : Except ε α) (t : Checkout)
    (f' : Fault FileOp) : Prop :=
  (x = .ok a ∧ Mild f f' ∧ K t) ∨ (∃ e, x = .error e) ∧ Broke f f' ∧ C t

theorem Gives.of_mild {ε α : Type} {C K : Checkout → Prop} {a : α} {f₁ f' : Fault FileOp} {x : Except ε α}
    {t : Checkout} (h : Gives C K a f₁ x t f') (hmild : Mild f f₁) : Gives C K a f x t f' :=
  h.imp (fun hx => ⟨hx.1, hmild.trans hx.2.1, hx.2.2⟩) fun hx => ⟨hx.1, hx.2.1.of_mild hmild, hx.2.2⟩

theorem gives_of_fails {ε α : Type} {C K : Checkout → Prop} {a : α} {f₁ : Fault FileOp} {e : ε} {t : Checkout}
    {o : FileOp} (h : Mild f f₁) (hfails : Fails f₁ o (.failed o)) (ho : o ≠ .removeBackup) (hC : C t) :
    Gives C K a f (.error e) t (.failed o) :=
  .inr ⟨⟨_, rfl⟩, ⟨_, h.trans_fails hfails, ho⟩, hC⟩

theorem walkParents_create {s₀ : Checkout} {name : String} : ∀ (cs parent : List String) (s : Checkout)
    (f : Fault FileOp), parent ++ cs ++ [name] = p → s₀.Clear p → Same p s₀ s →
    (∀ q, q <+: parent → q ≠ [] → s.node q = some .dir) →
    Ends (Same p s₀) (walkParents host true parent cs)
      (Gives (Same p s₀) (fun t => Same p s₀ t ∧ t.Made p) (true, parent ++ cs) f) s f
  | [], parent, s, f, hp, hclear, hsame, hmade => by
    refine Ends.pure (.inl ⟨by rw [List.append_nil], .refl f, hsame, fun q hq hne hnil => hmade q ?_ hnil⟩)
    rw [← hp, List.append_nil] at hq hne
    exact (List.prefix_concat_iff.1 hq).resolve_left hne
  | c :: cs, parent, s, f, hp, hclear, hsame, hmade => by
    obtain ⟨habove, hne, hnil, hrest⟩ := isPrefix_of_append_cons hp
    have hwalk : ∀ t f₁, Mild f f₁ → Same p s₀ t → t.node (parent ++ [c]) = some .dir →
        (∀ q, q <+: parent → t.node q = s.node q) → Ends (Same p s₀) (walkParents host true (parent ++ [c]) cs)
          (Gives (Same p s₀) (fun t => Same p s₀ t ∧ t.Made p) (true, parent ++ c :: cs) f) t f₁ := by
      intro t f₁ hmild ht hdir hkept
      rw [show parent ++ c :: cs = parent ++ [c] ++ cs by simp]
      refine (walkParents_create cs (parent ++ [c]) t f₁ hrest hclear ht fun q hq hqnil => ?_).post
        fun x u f' hx => hx.of_mild hmild
      rcases List.prefix_concat_iff.1 hq with rfl | hq
      · exact hdir
      · rw [hkept q hq]
        exact hmade q hq hqnil
    rw [walkParents]
    refine step_ends rfl hsame (fun hfails => gives_of_fails (.refl f) hfails (by decide) hsame) fun f₁ h₁ => ?_
    rcases (hsame.clear hclear).above _ habove hne hnil with hnone | hdir
    · rw [hnone]
      have hmkdir : Same p s₀ { s with node := Function.update s.node (parent ++ [c]) (some .dir) } := by
        refine ⟨hsame.beside.trans fun q hq => ?_, ?_⟩
        · by_cases hc : q = parent ++ [c]
          · subst hc
            exact .inr ⟨hnone, Function.update_self _ _ _, habove⟩
          · exact .inl (Function.update_of_ne hc _ _)
        · exact (Function.update_of_ne (Ne.symm hne) _ _).trans hsame.target
      refine step_ends rfl hmkdir (fun hfails => gives_of_fails h₁ hfails (by decide) hsame) fun f₂ h₂ => ?_
      refine hwalk _ f₂ (h₁.trans h₂) hmkdir (Function.update_self _ _ _) fun q hq => Function.update_of_ne ?_ _ _
      rintro rfl
      have hlength := hq.length_le
      simp at hlength
    · rw [hdir]
      exact hwalk s f₁ h₁ hsame hdir fun _ _ => rfl

theorem walkParents_made {name : String} {create : Bool} (hmade : s.Made p) : ∀ (cs parent : List String)
    (f : Fault FileOp), parent ++ cs ++ [name] = p →
    Ends (· = s) (walkParents host create parent cs) (Gives (· = s) (· = s) (true, parent ++ cs) f) s f
  | [], parent, f, _ => Ends.pure (.inl ⟨by rw [List.append_nil], .refl f, rfl⟩)
  | c :: cs, parent, f, hp => by
    obtain ⟨habove, hne, hnil, hrest⟩ := isPrefix_of_append_cons hp
    rw [walkParents]
    refine step_ends rfl rfl (fun hfails => gives_of_fails (.refl f) hfails (by decide) rfl) fun f₁ h₁ => ?_
    rw [hmade _ habove hne hnil]
    rw [show parent ++ c :: cs = parent ++ [c] ++ cs by simp]
    exact (walkParents_made hmade cs (parent ++ [c]) f₁ hrest).post fun x u f' hx => hx.of_mild h₁

theorem pathExists_step {ε β : Type} {C : Checkout → Prop} {o : FileOp} {g : Bool → FileProg ε β}
    {R : Except ε β → Checkout → Fault FileOp → Prop} (hC : C s)
    (hfail : Fails f o (.failed o) → Ends C (g false) R s (.failed o))
    (hrest : ∀ f', Mild f f' → Ends C (g (p.isEmpty || (s.node p).isSome)) R s f') :
    Ends C (pathExists o p >>= g) R s f := by
  refine Ends.bind ?_
  unfold pathExists
  exact attempt_ends rfl hC (fun h => Ends.pure (hfail h)) fun f' h => Ends.pure (hrest f' h)

section Target

variable {path : String} {parents : List String} {name : String} (hpath : splitPath path = .ok (parents, name))
include hpath

theorem safeTarget_of_walk {create : Bool} {C K : Checkout → Prop} (hs : C s)
    (hwalk : ∀ f, Ends C (walkParents host create [] parents) (Gives C K (true, parents) f) s f)
    (hK : ∀ t, K t → C t ∧ t.Clear (parents ++ [name])) :
    Ends C (safeTarget host path create) (Gives C K (parents, parents ++ [name]) f) s f := by
  unfold safeTarget
  refine step_ends rfl hs (fun hfails => gives_of_fails (.refl f) hfails (by decide) hs) fun f₁ h₁ => ?_
  rw [hpath]
  refine Ends.bind ((hwalk f₁).post ?_)
  rintro x t f₂ (⟨rfl, h₂, ht⟩ | ⟨⟨e, rfl⟩, hbroke, ht⟩)
  · refine step_ends rfl (hK t ht).1
      (fun hfails => gives_of_fails (h₁.trans h₂) hfails (by decide) (hK t ht).1) fun f₃ h₃ => ?_
    refine attempt_ends rfl (hK t ht).1 (fun hfails => ?_) fun f₄ h₄ => ?_
    · exact Ends.pure (.inl ⟨rfl, (h₁.trans (h₂.trans h₃)).trans (hfails.leads (by decide)), ht⟩)
    · have hmild := h₁.trans (h₂.trans (h₃.trans h₄))
      rcases (hK t ht).2.target with hnone | ⟨bytes, hfile⟩
      · rw [hnone]
        exact Ends.pure (.inl ⟨rfl, hmild, ht⟩)
      · rw [hfile]
        exact Ends.pure (.inl ⟨rfl, hmild, ht⟩)
  · exact .inr ⟨⟨e, rfl⟩, hbroke.of_mild h₁, ht⟩

theorem safeTarget_create (hclear : s.Clear (parents ++ [name])) :
    Ends (Same (parents ++ [name]) s) (safeTarget host path true)
      (Gives (Same (parents ++ [name]) s) (fun t => Same (parents ++ [name]) s t ∧ t.Made (parents ++ [name]))
        (parents, parents ++ [name]) f) s f := by
  refine safeTarget_of_walk hpath (Same.refl _ s) (fun f₁ => ?_) fun _ ht => ⟨ht.1, ht.1.clear hclear⟩
  refine walkParents_create parents [] s f₁ rfl hclear (Same.refl _ s) fun q hq hnil => ?_
  exact absurd (List.prefix_nil.1 hq) hnil

theorem safeTarget_made {create : Bool} (hclear : s.Clear (parents ++ [name])) (hmade : s.Made (parents ++ [name])) :
    Ends (· = s) (safeTarget host path create) (Gives (· = s) (· = s) (parents, parents ++ [name]) f) s f :=
  safeTarget_of_walk hpath rfl (fun f₁ => walkParents_made hmade parents [] f₁ rfl) fun _ ht => ⟨ht, ht ▸ hclear⟩

theorem readTarget_made (host : FileHost) (f : Fault FileOp) (hclear : s.Clear (parents ++ [name]))
    (hmade : s.Made (parents ++ [name])) :
    Ends (· = s) (readTarget host path false) (fun x t f' => t = s ∧
      ((x = .ok (s.content (parents ++ [name])) ∧ Mild f f') ∨ (x = .ok none ∨ ∃ e, x = .error e) ∧ Broke f f'))
      s f := by
  unfold readTarget
  refine Ends.bind ((safeTarget_made hpath hclear hmade).post ?_)
  rintro x t f₁ (⟨rfl, h₁, rfl⟩ | ⟨⟨e, rfl⟩, hbroke, rfl⟩)
  · refine pathExists_step rfl (fun hfails => ?_) fun f₂ h₂ => ?_
    · exact Ends.pure ⟨rfl, .inr ⟨.inl rfl, _, h₁.trans_fails hfails, by decide⟩⟩
    · have hparent : (parents.isEmpty || (t.node parents).isSome) = true := by
        by_cases hnil : parents = []
        · rw [hnil]
          rfl
        · rw [hmade parents (List.prefix_append _ _) (by simp) hnil]
          simp
      rw [hparent]
      refine pathExists_step rfl (fun hfails => ?_) fun f₃ h₃ => ?_
      · exact Ends.pure ⟨rfl, .inr ⟨.inl rfl, _, (h₁.trans h₂).trans_fails hfails, by decide⟩⟩
      · have hmild := h₁.trans (h₂.trans h₃)
        rcases hclear.target with hnone | ⟨bytes, hfile⟩
        · rw [hnone]
          have hexists : ((parents ++ [name]).isEmpty || (none : Option Node).isSome) = false := by simp
          rw [hexists]
          exact Ends.pure ⟨rfl, .inl ⟨by rw [content, hnone], hmild⟩⟩
        · rw [hfile]
          have hexists : ((parents ++ [name]).isEmpty || (some (Node.file bytes)).isSome) = true := by simp
          rw [hexists]
          refine step_ends rfl rfl (fun hfails => ?_) fun f₄ h₄ => ?_
          · exact ⟨rfl, .inr ⟨.inr ⟨_, rfl⟩, _, hmild.trans_fails hfails, by decide⟩⟩
          · rw [hfile]
            have hread : (match t.node (parents ++ [name]) with
                | some (.file bytes) => some (some bytes, t)
                | _ => none) = some (some bytes, t) := by rw [hfile]
            refine last_ends hread rfl (fun hfails => ?_) fun f₅ h₅ => ?_
            · exact ⟨rfl, .inr ⟨.inr ⟨_, rfl⟩, _, (hmild.trans h₄).trans_fails hfails, by decide⟩⟩
            · exact ⟨rfl, .inl ⟨by rw [content_of_node hfile], hmild.trans (h₄.trans h₅)⟩⟩
  · exact ⟨rfl, .inr ⟨.inr ⟨e, rfl⟩, hbroke⟩⟩

end Target

section Moves

variable {C : Checkout → Prop}

theorem stage_ends {content : List UInt8} {existed : Bool} (hC : ∀ t : Checkout, t.node = s.node → C t) :
    Ends C (stage host content existed) (fun x t f' => t.node = s.node ∧
      ((∃ k, x = .ok k ∧ k < t.next ∧ t.temp k = content) ∧ Mild f f' ∨ (∃ e, x = .error e) ∧ Broke f f')) s f := by
  unfold stage
  refine step_ends rfl (hC _ rfl) (fun hfails => ⟨rfl, .inr ⟨⟨_, rfl⟩, _, hfails, by decide⟩⟩) fun f₁ h₁ => ?_
  refine step_ends rfl (hC _ rfl) (fun hfails => ⟨rfl, .inr ⟨⟨_, rfl⟩, _, h₁.trans_fails hfails, by decide⟩⟩)
    fun f₂ h₂ => ?_
  have hdone : ∀ f', Mild f₂ f' → Ends C (pure s.next : FileProg ApiError Nat) (fun x t f' => t.node = s.node ∧
      ((∃ k, x = .ok k ∧ k < t.next ∧ t.temp k = content) ∧ Mild f f' ∨ (∃ e, x = .error e) ∧ Broke f f'))
      ⟨s.node, Function.update s.temp s.next content, s.next + 1⟩ f' := fun f' h' =>
    Ends.pure ⟨rfl, .inl ⟨⟨s.next, rfl, Nat.lt_succ_self _, Function.update_self _ _ _⟩, h₁.trans (h₂.trans h')⟩⟩
  cases existed with
  | false => exact hdone f₂ (.refl f₂)
  | true =>
    refine step_ends rfl (hC _ rfl) (fun hfails => ?_) hdone
    exact ⟨rfl, .inr ⟨⟨_, rfl⟩, _, (h₁.trans h₂).trans_fails hfails, by decide⟩⟩

theorem restorePatchBackup_ends {ε : Type} {k : Nat} (hf : f.Settled) (hp : p ≠ []) (hnone : s.node p = none)
    (hC : ∀ t : Checkout, t.node = s.node ∨ t.node = Function.update s.node p (some (.file (s.temp k))) → C t) :
    Ends C (restorePatchBackup host k p : FileProg ε (Option String)) (fun x t f' => x = .ok none ∧ f' = f ∧
      t.node = Function.update s.node p (some (.file (s.temp k)))) s f := by
  unfold restorePatchBackup
  refine pathExists_step (hC _ (.inl rfl)) (fun hfails => absurd hfails (not_fails_of_settled hf)) fun f₁ h₁ => ?_
  obtain rfl := h₁.eq_of_settled hf
  have hempty : (p.isEmpty || (s.node p).isSome) = false := by
    rw [hnone]
    cases p with
    | nil => exact absurd rfl hp
    | cons => rfl
  rw [hempty]
  refine attempt_ends rfl (hC _ (.inr rfl)) (fun hfails => absurd hfails (not_fails_of_settled hf)) fun f₂ h₂ => ?_
  obtain rfl := h₂.eq_of_settled hf
  exact Ends.pure ⟨rfl, rfl, rfl⟩

theorem moveAside_ends {edit : WorkspaceFileEdit} {bytes : List UInt8} (hp : p ≠ [])
    (hfile : s.node p = some (.file bytes)) (hexpected : edit.expectedSha256 = some (host.sha256 bytes))
    (hC : ∀ t : Checkout, t.node = s.node ∨ t.node = Function.update s.node p none → C t) :
    Ends C (moveAside host edit p) (fun x t f' =>
      (∃ k, x = .ok k ∧ t.node = Function.update s.node p none ∧ t.temp k = bytes ∧ ∀ j < s.next, t.temp j = s.temp j) ∧
        Mild f f' ∨ (∃ e, x = .error e) ∧ t.node = s.node ∧ Broke f f') s f := by
  unfold moveAside
  refine step_ends rfl (hC _ (.inl rfl)) (fun hfails => .inr ⟨⟨_, rfl⟩, rfl, _, hfails, by decide⟩) fun f₁ h₁ => ?_
  refine step_ends rfl (hC _ (.inl rfl))
    (fun hfails => .inr ⟨⟨_, rfl⟩, rfl, _, h₁.trans_fails hfails, by decide⟩) fun f₂ h₂ => ?_
  have hmove : (match s.node p with
      | some (.file bytes) => some ((), (⟨Function.update s.node p none, Function.update s.temp s.next bytes,
          s.next + 1⟩ : Checkout))
      | _ => none) =
      some ((), ⟨Function.update s.node p none, Function.update s.temp s.next bytes, s.next + 1⟩) := by rw [hfile]
  refine step_ends hmove (hC _ (.inr rfl))
    (fun hfails => .inr ⟨⟨_, rfl⟩, rfl, _, (h₁.trans h₂).trans_fails hfails, by decide⟩) fun f₃ h₃ => ?_
  have hmild := h₁.trans (h₂.trans h₃)
  refine attempt_ends rfl (hC _ (.inr rfl)) (fun hfails => ?_) fun f₄ h₄ => ?_
  · -- the backup cannot be read: it goes back, for nothing else fails
    have hback : Function.update (Function.update s.node p none) p
        (some (.file (Function.update s.temp s.next bytes s.next))) = s.node := by
      rw [Function.update_self, Function.update_idem, Function.update_eq_self_iff]
      exact hfile.symm
    refine Ends.bind ((restorePatchBackup_ends (hfails.settled) hp (Function.update_self _ _ _) fun t ht => ?_).post ?_)
    · exact hC t (ht.symm.imp (fun ht => ht.trans hback) id)
    · rintro x t f' ⟨rfl, rfl, ht⟩
      exact Ends.throw (.inr ⟨⟨_, rfl⟩, ht.trans hback, _, hmild.trans_fails hfails, by decide⟩)
  · have hread : Function.update s.temp s.next bytes s.next = bytes := Function.update_self _ _ _
    dsimp only
    rw [if_neg (by rw [hread, hexpected]; exact not_not_intro rfl)]
    refine Ends.pure (.inl ⟨⟨s.next, rfl, rfl, hread, fun j hj => ?_⟩, hmild.trans h₄⟩)
    exact Function.update_of_ne (Nat.ne_of_lt hj) _ _

theorem publish_ends {k : Nat} {backup : Option Nat} (hp : p ≠ []) (hnone : s.node p = none)
    (hC : ∀ t : Checkout, t.node = s.node ∨ t.node = Function.update s.node p (some (.file (s.temp k))) ∨
      t.node = Function.update s.node p (backup.map fun b => .file (s.temp b)) → C t) :
    Ends C (publish host k backup p) (fun x t f' =>
      (t.node = Function.update s.node p (some (.file (s.temp k))) ∧
        (x = .ok () ∧ Mild f f' ∨ (∃ e, x = .error e) ∧ backup.isSome = true ∧ Fails f .removeBackup f')) ∨
      (∃ e, x = .error e) ∧ t.node = Function.update s.node p (backup.map fun b => .file (s.temp b)) ∧ Broke f f')
      s f := by
  unfold publish
  have hmove : (match s.node p with
      | none => some ((), ({ s with node := Function.update s.node p (some (.file (s.temp k))) } : Checkout))
      | some _ => none) = some ((), { s with node := Function.update s.node p (some (.file (s.temp k))) }) := by
    rw [hnone]
  have hpublished := hC { s with node := Function.update s.node p (some (.file (s.temp k))) } (.inr (.inl rfl))
  refine attempt_ends hmove hpublished (fun hfails => ?_) fun f₁ h₁ => ?_
  · cases backup with
    | none =>
      refine Ends.throw (.inr ⟨⟨_, rfl⟩, ?_, _, hfails, by decide⟩)
      rw [Option.map_none, eq_comm, Function.update_eq_self_iff, hnone]
    | some b =>
      refine Ends.bind ((restorePatchBackup_ends hfails.settled hp hnone fun t ht => ?_).post ?_)
      · exact hC t (ht.imp_right .inr)
      · rintro x t f' ⟨rfl, rfl, ht⟩
        exact Ends.throw (.inr ⟨⟨_, rfl⟩, ht, _, hfails, by decide⟩)
  · cases backup with
    | none => exact Ends.pure (.inl ⟨rfl, .inl ⟨rfl, h₁⟩⟩)
    | some b =>
      rw [if_pos Option.isSome_some]
      refine last_ends rfl hpublished (fun hfails => ?_) fun f₂ h₂ => ?_
      · exact .inl ⟨rfl, .inr ⟨⟨_, rfl⟩, rfl, h₁.trans_fails hfails⟩⟩
      · exact .inl ⟨rfl, .inl ⟨rfl, h₁.trans h₂⟩⟩

theorem publish_taken {k : Nat} {n : Node} (hnode : s.node p = some n) (hC : ∀ t : Checkout, t.node = s.node → C t) :
    Ends C (publish host k none p) (fun x t f' => (∃ e, x = .error e) ∧ t.node = s.node ∧ Mild f f') s f := by
  unfold publish
  have htaken : (match s.node p with
      | none => some ((), ({ s with node := Function.update s.node p (some (.file (s.temp k))) } : Checkout))
      | some _ => none) = none := by rw [hnode]
  have hop : Ends C (op .publish (ioError host "workspace_patch_replace" .publish) fun s =>
      match s.node p with
      | none => some ((), { s with node := Function.update s.node p (some (.file (s.temp k))) })
      | some _ => none) (fun x t f' => (∃ e, x = .error e) ∧ t = s ∧ Mild f f') s f := by
    refine op_ends ?_ (fun _ f' h => ⟨⟨_, rfl⟩, rfl, h⟩) fun a t ht => ?_
    · by_cases h : ∃ k, f = .pending k
      · obtain ⟨k, rfl⟩ := h
        exact .inl ⟨⟨_, rfl⟩, rfl, .fails _ (by decide)⟩
      · exact .inr fun k hk => h ⟨k, hk⟩
    · rw [htaken] at ht
      cases ht
  refine Ends.bind (hop.attempt ?_)
  rintro x t f' ⟨⟨e, rfl⟩, rfl, h⟩
  exact Ends.throw ⟨⟨_, rfl⟩, rfl, h⟩

end Moves

/-! ## The edit as a whole -/

def Matches (host : FileHost) (edit : WorkspaceFileEdit) (current : Option (List UInt8)) : Prop :=
  current.map host.sha256 = some (host.sha256 (Wire.utf8 edit.content)) ∨
    current.map host.sha256 = edit.expectedSha256

def ToldApart (host : FileHost) (edit : WorkspaceFileEdit) (current : Option (List UInt8)) : Prop :=
  ∀ bytes ∈ current, host.sha256 bytes = host.sha256 (Wire.utf8 edit.content) → bytes = Wire.utf8 edit.content

structure Amid (host : FileHost) (edit : WorkspaceFileEdit) (p : List String) (s t : Checkout) : Prop where
  beside : Beside p s t
  target : t.node p = s.node p ∨ Matches host edit (s.content p) ∧
    (t.node p = some (.file (Wire.utf8 edit.content)) ∨
      t.node p = none ∧ s.content p ≠ none ∧ s.content p ≠ some (Wire.utf8 edit.content))

inductive Edited (host : FileHost) (edit : WorkspaceFileEdit) (p : List String) (s : Checkout) (f : Fault FileOp) :
    Except ApiError EditResult → Checkout → Fault FileOp → Prop
  | applied {t : Checkout} {f' : Fault FileOp} (fits : Matches host edit (s.content p)) (mild : Mild f f')
      (beside : Beside p s t) (target : t.node p = some (.file (Wire.utf8 edit.content))) :
      Edited host edit p s f (.ok ⟨edit.path, host.sha256 (Wire.utf8 edit.content)⟩) t f'
  | refused {e : ApiError} {t : Checkout} {f' : Fault FileOp} (mild : Mild f f') (same : Same p s t)
      (why : Broke f f' ∨ ¬ Matches host edit (s.content p)) : Edited host edit p s f (.error e) t f'
  | unfinished {e : ApiError} {t : Checkout} {f' : Fault FileOp} (fits : Matches host edit (s.content p))
      (fails : Fails f .removeBackup f') (beside : Beside p s t)
      (target : t.node p = some (.file (Wire.utf8 edit.content))) (changed : t.node p ≠ s.node p) :
      Edited host edit p s f (.error e) t f'

section Whole

variable {edit : WorkspaceFileEdit} {t u : Checkout} {f' f'' : Fault FileOp} {x : Except ApiError EditResult}

theorem Broke.mild (h : Broke f f') : Mild f f' := by
  obtain ⟨o, hfails, ho⟩ := h
  exact hfails.leads ho

theorem Checkout.Same.amid (h : Same p s t) : Amid host edit p s t := ⟨h.beside, .inl h.target⟩

theorem Checkout.Same.of_node (h : t.node = s.node) : Same p s t := ⟨fun q _ => .inl (by rw [h]), by rw [h]⟩

theorem Amid.of_same (h : Amid host edit p t u) (hsame : Same p s t) : Amid host edit p s u := by
  refine ⟨hsame.beside.trans h.beside, ?_⟩
  rw [← content_congr hsame.target, ← hsame.target]
  exact h.target

theorem Edited.of_same (h : Edited host edit p t f' x u f'') (hsame : Same p s t) (hmild : Mild f f') :
    Edited host edit p s f x u f'' := by
  have hcontent := content_congr hsame.target
  cases h with
  | applied fits mild beside target =>
    exact .applied (hcontent ▸ fits) (hmild.trans mild) (hsame.beside.trans beside) target
  | refused mild same why =>
    exact .refused (hmild.trans mild) (hsame.trans same) (why.imp (·.of_mild hmild) fun hfits => hcontent ▸ hfits)
  | unfinished fits fails beside target changed =>
    exact .unfinished (hcontent ▸ fits) (hmild.trans_fails fails) (hsame.beside.trans beside) target
      (hsame.target ▸ changed)

theorem beside_update (n : Option Node) (h : t.node = Function.update s.node p n) : Beside p s t := by
  intro q hq
  rw [h, Function.update_of_ne hq]
  exact .inl rfl

theorem replaceTarget_absent (hp : p ≠ []) (hnone : s.node p = none) :
    Ends (Amid host edit p s) (replaceTarget host edit p none) (Edited host edit p s f) s f := by
  have hcontent : s.content p = none := by rw [content, hnone]
  unfold replaceTarget
  refine Ends.bind (Ends.pure ?_)
  rw [if_neg (by simp)]
  by_cases hexpected : edit.expectedSha256 = none
  · have hfits : Matches host edit (s.content p) := .inr (by rw [hcontent, hexpected]; rfl)
    rw [if_neg (by rw [hexpected]; exact not_not_intro rfl)]
    refine Ends.bind ((stage_ends fun t ht => (Same.of_node ht).amid).post ?_)
    rintro x t f₁ ⟨hnode, ⟨⟨k, rfl, -, htemp⟩, h₁⟩ | ⟨⟨e, rfl⟩, hbroke⟩⟩
    · refine Ends.bind (Ends.pure (Ends.bind ((publish_ends (by exact hp) (hnode ▸ hnone) fun u hu => ?_).post ?_)))
      · rcases hu with hu | hu | hu
        · exact (Same.of_node (hu.trans hnode)).amid
        · rw [htemp, hnode] at hu
          exact ⟨beside_update _ hu, .inr ⟨hfits, .inl (by rw [hu, Function.update_self])⟩⟩
        · rw [Option.map_none, hnode, ← hnone, Function.update_eq_self] at hu
          exact (Same.of_node hu).amid
      · rintro y u f₂ (⟨hu, ⟨rfl, h₂⟩ | ⟨⟨e, rfl⟩, hsome, -⟩⟩ | ⟨⟨e, rfl⟩, hu, hbroke⟩)
        · rw [htemp, hnode] at hu
          exact Ends.pure (.applied hfits (h₁.trans h₂) (beside_update _ hu) (by rw [hu, Function.update_self]))
        · cases hsome
        · rw [Option.map_none, hnode, ← hnone, Function.update_eq_self] at hu
          exact .refused (h₁.trans hbroke.mild) (.of_node hu) (.inl (hbroke.of_mild h₁))
    · exact .refused hbroke.mild (.of_node hnode) (.inl hbroke)
  · rw [if_pos (fun h => hexpected h.symm)]
    refine Ends.throw (.refused (.refl f) (Same.refl p s) (.inr ?_))
    rw [hcontent]
    rintro (h | h)
    · cases h
    · exact hexpected h.symm

theorem replaceTarget_present {bytes : List UInt8} (hp : p ≠ []) (hfile : s.node p = some (.file bytes))
    (htold : ToldApart host edit (some bytes)) :
    Ends (Amid host edit p s) (replaceTarget host edit p (some bytes)) (Edited host edit p s f) s f := by
  have hcontent := content_of_node hfile
  have hmetadata : ((s.node p).map fun _ => ((), s)) = some ((), s) := by rw [hfile]; rfl
  unfold replaceTarget
  rw [Option.isSome_some, readPermissions, if_pos rfl]
  refine step_ends hmetadata (Same.refl p s).amid
    (fun hfails => .refused (hfails.leads (by decide)) (.refl p s) (.inl ⟨_, hfails, by decide⟩)) fun f₁ h₁ => ?_
  rw [Option.map_some]
  by_cases hsame : host.sha256 bytes = host.sha256 (Wire.utf8 edit.content)
  · rw [if_pos (congrArg some hsame)]
    refine Ends.pure (.applied (.inl ?_) h₁ (.refl p s) ?_)
    · rw [hcontent, Option.map_some, hsame]
    · rw [hfile, htold bytes rfl hsame]
  rw [if_neg fun h => hsame (Option.some.inj h)]
  have hnew : bytes ≠ Wire.utf8 edit.content := fun h => hsame (congrArg host.sha256 h)
  by_cases hexpected : edit.expectedSha256 = some (host.sha256 bytes)
  · have hfits : Matches host edit (s.content p) := .inr (by rw [hcontent, hexpected]; rfl)
    have hamid : ∀ n t, Checkout.node t = Function.update s.node p n → n = none ∨ n = some (.file bytes) ∨
        n = some (.file (Wire.utf8 edit.content)) → Amid host edit p s t := by
      intro n t ht hn
      have htarget : t.node p = n := by rw [ht, Function.update_self]
      refine ⟨beside_update _ ht, ?_⟩
      rcases hn with rfl | rfl | rfl
      · exact .inr ⟨hfits, .inr ⟨htarget, by simp [hcontent], fun h => hnew (Option.some.inj (hcontent ▸ h))⟩⟩
      · exact .inl (htarget.trans hfile.symm)
      · exact .inr ⟨hfits, .inl htarget⟩
    rw [if_neg (by rw [hexpected]; exact not_not_intro rfl)]
    refine Ends.bind ((stage_ends fun t ht => (Same.of_node ht).amid).post ?_)
    rintro x t f₂ ⟨hnode, ⟨⟨k, rfl, hk, htemp⟩, h₂⟩ | ⟨⟨e, rfl⟩, hbroke⟩⟩
    · have hmild := h₁.trans h₂
      rw [setAside, if_pos rfl]
      refine Ends.bind (Ends.bind ((moveAside_ends hp (hnode ▸ hfile) hexpected fun u hu => ?_).post ?_))
      · rcases hu with hu | hu
        · exact (Same.of_node (hu.trans hnode)).amid
        · exact hamid none u (hnode ▸ hu) (.inl rfl)
      rintro y u f₃ (⟨⟨b, rfl, hu, hb, hkept⟩, h₃⟩ | ⟨⟨e, rfl⟩, hu, hbroke⟩)
      · rw [hnode] at hu
        have hk' : u.temp k = Wire.utf8 edit.content := (hkept k hk).trans htemp
        have hempty : u.node p = none := by rw [hu, Function.update_self]
        have hover : ∀ n, Function.update u.node p n = Function.update s.node p n := by
          intro n
          rw [hu, Function.update_idem]
        have hback : Function.update s.node p ((some b).map fun b => .file (u.temp b)) = s.node := by
          rw [Option.map_some, hb, ← hfile, Function.update_eq_self]
        refine Ends.pure (Ends.bind ((publish_ends hp hempty fun v hv => ?_).post ?_))
        · rcases hv with hv | hv | hv
          · exact hamid none v (hv.trans hu) (.inl rfl)
          · exact hamid _ v ((hv.trans (hover _)).trans (by rw [hk'])) (.inr (.inr rfl))
          · exact (Same.of_node (hv.trans ((hover _).trans hback))).amid
        · rintro z v f₄ (⟨hv, h⟩ | ⟨⟨e, rfl⟩, hv, hbroke⟩)
          · rw [hover, hk'] at hv
            have htarget : v.node p = some (.file (Wire.utf8 edit.content)) := by rw [hv, Function.update_self]
            rcases h with ⟨rfl, h₄⟩ | ⟨⟨e, rfl⟩, -, hfails⟩
            · exact Ends.pure (.applied hfits (hmild.trans (h₃.trans h₄)) (beside_update _ hv) htarget)
            · refine .unfinished hfits ((hmild.trans h₃).trans_fails hfails) (beside_update _ hv) htarget ?_
              rw [htarget, hfile]
              exact fun h => hnew (Node.file.inj (Option.some.inj h)).symm
          · rw [hover, hback] at hv
            exact .refused ((hmild.trans h₃).trans hbroke.mild) (.of_node hv) (.inl (hbroke.of_mild (hmild.trans h₃)))
      · exact .refused (hmild.trans hbroke.mild) (.of_node (hu.trans hnode)) (.inl (hbroke.of_mild hmild))
    · exact .refused (h₁.trans hbroke.mild) (.of_node hnode) (.inl (hbroke.of_mild h₁))
  · rw [if_pos (fun h => hexpected h.symm)]
    refine Ends.throw (.refused h₁ (.refl p s) (.inr ?_))
    rw [hcontent]
    rintro (h | h)
    · exact hsame (Option.some.inj h)
    · exact hexpected h.symm

theorem replaceTarget_untold {bytes : List UInt8} (hfile : s.node p = some (.file bytes)) :
    Ends (Same p s) (replaceTarget host edit p none) (fun x t f' => (∃ e, x = .error e) ∧ Same p s t ∧ Mild f f')
      s f := by
  unfold replaceTarget
  refine Ends.bind (Ends.pure ?_)
  rw [if_neg (by simp)]
  by_cases hexpected : edit.expectedSha256 = none
  · rw [if_neg (by rw [hexpected]; exact not_not_intro rfl)]
    refine Ends.bind ((stage_ends fun t ht => .of_node ht).post ?_)
    rintro x t f₁ ⟨hnode, ⟨⟨k, rfl, -, -⟩, h₁⟩ | ⟨⟨e, rfl⟩, hbroke⟩⟩
    · refine Ends.bind (Ends.pure (Ends.bind ((publish_taken (by rw [hnode, hfile]) fun u hu => ?_).post ?_)))
      · exact .of_node (hu.trans hnode)
      · rintro y u f₂ ⟨⟨e, rfl⟩, hu, h₂⟩
        exact ⟨⟨_, rfl⟩, .of_node (hu.trans hnode), h₁.trans h₂⟩
    · exact ⟨⟨_, rfl⟩, .of_node hnode, hbroke.mild⟩
  · rw [if_pos (fun h => hexpected h.symm)]
    exact Ends.throw ⟨⟨_, rfl⟩, .refl p s, .refl f⟩

theorem replaceTarget_ends (hp : p ≠ []) (hclear : s.Clear p) (htold : ToldApart host edit (s.content p)) :
    Ends (Amid host edit p s) (replaceTarget host edit p (s.content p)) (Edited host edit p s f) s f := by
  rcases hclear.target with hnone | ⟨bytes, hfile⟩
  · rw [show s.content p = none by rw [content, hnone]]
    exact replaceTarget_absent hp hnone
  · rw [content_of_node hfile] at htold ⊢
    exact replaceTarget_present hp hfile htold

variable {parents : List String} {name : String} (hpath : splitPath edit.path = .ok (parents, name))
include hpath

theorem applyCheckoutEdit_ends (hclear : s.Clear (parents ++ [name]))
    (htold : ToldApart host edit (s.content (parents ++ [name]))) :
    Ends (Amid host edit (parents ++ [name]) s) (applyCheckoutEdit host edit)
      (Edited host edit (parents ++ [name]) s f) s f := by
  have hp : parents ++ [name] ≠ [] := by simp
  unfold applyCheckoutEdit
  refine Ends.bind ((((safeTarget_create hpath hclear).mono (fun _ ht => ht.amid) fun _ _ _ h => h)).mapError ?_)
  rintro x t f₁ (⟨rfl, h₁, hsame, hmade⟩ | ⟨⟨e, rfl⟩, hbroke, hsame⟩)
  · have hread := readTarget_made hpath host f₁ (hsame.clear hclear) hmade
    have hcontent := content_congr hsame.target
    refine Ends.bind ((hread.mono (fun _ ht => ht ▸ hsame.amid) fun _ _ _ h => h).mapError ?_)
    rintro y u f₂ ⟨rfl, ⟨rfl, h₂⟩ | ⟨rfl | ⟨e, rfl⟩, hbroke⟩⟩
    · exact (replaceTarget_ends hp (hsame.clear hclear) (hcontent ▸ htold)).mono (fun _ ht => ht.of_same hsame)
        fun _ _ _ h => h.of_same hsame (h₁.trans h₂)
    · have hbroke := hbroke.of_mild h₁
      rcases (hsame.clear hclear).target with hnone | ⟨bytes, hfile⟩
      · exact (replaceTarget_absent hp hnone).mono (fun _ ht => ht.of_same hsame)
          fun _ _ _ h => h.of_same hsame hbroke.mild
      · refine (replaceTarget_untold hfile).mono (fun _ ht => (hsame.trans ht).amid) ?_
        rintro z v f₃ ⟨⟨e, rfl⟩, hv, h₃⟩
        exact .refused (hbroke.mild.trans h₃) (hsame.trans hv) (.inl (hbroke.trans_mild h₃))
    · exact .refused (h₁.trans hbroke.mild) hsame (.inl (hbroke.of_mild h₁))
  · exact .refused hbroke.mild hsame (.inl hbroke)

end Whole

end Execlaw
