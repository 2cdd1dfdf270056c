import Execlaw.WorkspaceApplyRuns
/-!
# WorkspaceApplyLocks — who holds the lock of a workspace

A worker that has the lease of its receipt has the lock of the workspace as well, unless another receipt's worker
claimed it away; and its writes are accepted in either case.
-/
namespace Execlaw

open Table WorkspaceStore

namespace ApplySystem

variable (hash : BeginApply → String)

section Step

variable {s : ApplySystem} {worker applyId : String}

theorem turn_cases (h : Sound s) (n : String) (outcome : FileOutcome) (now : Int) :
    (exec hash s (.turn n outcome now)).2.tables = s.tables ∨
      (∃ r w status at_, s.workers n = some w ∧ Leases s.tables n w.applyId r ∧
        (exec hash s (.turn n outcome now)).2.tables = afterFinish s.tables r n status at_) ∨
      ∃ r w path status error at_, s.workers n = some w ∧ Leases s.tables n w.applyId r ∧
        (exec hash s (.turn n outcome now)).2.tables = afterUpdate s.tables r n path status error at_ := by
  cases hn : s.workers n with
  | none => exact .inl (by simp only [exec, hn])
  | some w =>
    have hworked := @worked s.tables n w outcome now (h.listed n w hn)
    simp only [exec, hn]
    generalize (work n w outcome now s.tables).1 = ok at hworked
    generalize (work n w outcome now s.tables).2.1 = t at hworked ⊢
    generalize (work n w outcome now s.tables).2.2 = next at hworked
    cases hworked with
    | listed | skipped | ended => exact .inl rfl
    | finished r status at_ hleases => exact .inr (.inl ⟨r, w, status, at_, rfl, hleases, rfl⟩)
    | updated r f rest status error at_ _ hleases =>
      exact .inr (.inr ⟨r, w, f.path, status, error, at_, rfl, hleases, rfl⟩)

theorem final_kept (h : Sound s) {r : ApplyReceiptRow} (hrow : s.tables.receipts.row applyId = some r)
    (hfinal : r.status = .applied ∨ r.status = .conflict) (c : ApplyCall) :
    (exec hash s c).2.tables.receipts.row applyId = some r := by
  have hfree : r.leaseOwner = none :=
    (Keyed.ok_of_row hrow).leased.resolve_left fun happlying => by rw [happlying] at hfinal; simp at hfinal
  have hleased {n id : String} {q : ApplyReceiptRow} (hleases : Leases s.tables n id q) : applyId ≠ q.applyId := by
    rintro rfl
    obtain rfl := Keyed.key_of_row hleases.1
    cases hrow.symm.trans hleases.1
    have howner := hleases.2
    rw [hfree] at howner
    cases howner
  cases c with
  | begin referenced id args =>
    rcases beginApply_cases hash referenced id args s.tables with hsame | ⟨receipts, files, hnew, hinsert, -⟩
    · simp only [exec, hsame]
      exact hrow
    · obtain ⟨-, hrows⟩ := Keyed.insert?_eq_some hinsert
      simp [exec, hnew, hrows, hrow]
  | claim n id now leaseSeconds =>
    cases hn : s.workers n with
    | some w => simpa only [exec, hn] using hrow
    | none =>
      simp only [exec, hn]
      rcases claimApply_cases id n now leaseSeconds s.tables with ⟨hsame, -⟩ | ⟨q, _, _, hq, hclaimable, -, -, -, hclaims⟩
      · rw [hsame]
        exact hrow
      · rw [hclaims]
        refine (Keyed.row_update_of_ne _ ?_ _).trans hrow
        rintro rfl
        cases hrow.symm.trans hq
        rcases hfinal with hstatus | hstatus <;> simp [claimable, hstatus] at hclaimable
  | turn n outcome now =>
    rcases turn_cases hash h n outcome now with heq | ⟨q, w, status, at_, -, hleases, heq⟩ |
      ⟨q, w, path, status, error, at_, -, hleases, heq⟩
    · rw [heq]
      exact hrow
    · rw [heq]
      exact (Keyed.row_update_of_ne _ (hleased hleases) _).trans hrow
    · rw [heq]
      exact (Keyed.row_update_of_ne _ (hleased hleases) _).trans hrow

/-- **A worker that has the lease of its receipt** has just claimed the lock, or had the lease before and lost the
lock to nobody but an overtaker. -/
theorem owns_cases (h : Sound s) {c : ApplyCall} (howns : Owns (exec hash s c).2 worker applyId) :
    HoldsLock (exec hash s c).2 worker applyId ∨
      Owns s worker applyId ∧ (HoldsLock s worker applyId → Overtakes hash s worker c) := by
  by_cases hlock : HoldsLock (exec hash s c).2 worker applyId
  · exact .inl hlock
  refine .inr ?_
  obtain ⟨r, hrow, howner⟩ := howns
  cases c with
  | begin referenced id args =>
    simp only [exec] at hrow hlock
    rcases beginApply_cases hash referenced id args s.tables with hsame | ⟨receipts, files, hnew, hinsert, -⟩
    · rw [hsame] at hrow hlock
      exact ⟨⟨r, hrow, howner⟩, fun hheld => (hlock hheld).elim⟩
    · rw [hnew] at hrow hlock
      obtain ⟨-, hrows⟩ := Keyed.insert?_eq_some hinsert
      have hbefore : s.tables.receipts.row applyId = some r := by
        rw [hrows] at hrow
        cases hold : s.tables.receipts.row applyId with
        | some q => simpa [hold] using hrow
        | none =>
          rw [hold, Option.none_or] at hrow
          split at hrow
          · cases hrow
            cases howner
          · cases hrow
      refine ⟨⟨r, hbefore, howner⟩, ?_⟩
      rintro ⟨q, l, hq, hl⟩
      exact (hlock ⟨q, l, by rw [hrows, hq, Option.some_or], hl⟩).elim
  | claim n id now leaseSeconds =>
    cases hn : s.workers n with
    | some w =>
      simp only [exec, hn] at hrow hlock
      exact ⟨⟨r, hrow, howner⟩, fun hheld => (hlock hheld).elim⟩
    | none =>
      have hover (hid : id ≠ applyId) (hheld : HoldsLock s worker applyId) :
          Overtakes hash s worker (.claim n id now leaseSeconds) :=
        ⟨applyId, hheld, hlock, n, id, now, leaseSeconds, rfl, hid⟩
      simp only [exec, hn] at hrow hlock
      rcases claimApply_cases id n now leaseSeconds s.tables with
        ⟨hsame, -⟩ | ⟨q, locks, expires, hq, -, -, hchanged, htakes, hclaims⟩
      · rw [hsame] at hrow hlock
        exact ⟨⟨r, hrow, howner⟩, fun hheld => (hlock hheld).elim⟩
      · rw [hclaims] at hrow hlock
        by_cases hid : id = applyId
        · -- the worker itself claimed, and the lock with the receipt
          subst hid
          exfalso
          have hset := Keyed.row_update_of_changed hq (c := receiptClaim n now expires) htakes
          cases hset.symm.trans hrow
          obtain rfl : n = worker := Option.some.inj howner
          obtain ⟨l, hl, hltakes⟩ := Keyed.changed_iff.1 hchanged
          exact hlock ⟨_, _, hset, Keyed.row_update_of_changed hl hltakes, rfl, rfl⟩
        · rw [Keyed.row_update_of_ne _ (Ne.symm hid)] at hrow
          exact ⟨⟨r, hrow, howner⟩, hover hid⟩
  | turn n outcome now =>
    rcases turn_cases hash h n outcome now with heq | ⟨q, w, status, at_, -, hleases, heq⟩ |
      ⟨q, w, path, status, error, at_, -, hleases, heq⟩
    · unfold HoldsLock at hlock
      rw [heq] at hrow hlock
      exact ⟨⟨r, hrow, howner⟩, fun hheld => (hlock hheld).elim⟩
    · unfold HoldsLock at hlock
      rw [heq] at hrow hlock
      have hkey := Keyed.key_of_row hleases.1
      have hid : applyId ≠ q.applyId := by
        rintro rfl
        have hset := Keyed.row_update_of_changed (hkey ▸ hleases.1) (c := receiptFinish n status at_)
          (by simp [receiptFinish, hleases.2])
        cases hset.symm.trans hrow
        cases howner
      simp only [afterFinish, Keyed.row_update_of_ne _ hid] at hrow hlock
      refine ⟨⟨r, hrow, howner⟩, ?_⟩
      rintro ⟨p, l, hp, hl, hlid, hlowner⟩
      refine (hlock ⟨p, l, hp, ?_, hlid, hlowner⟩).elim
      rw [Keyed.row_remove]
      split
      · rw [hl, Option.filter_some, if_pos (by simp [hlid, hid])]
      · exact hl
    · unfold HoldsLock at hlock
      rw [heq] at hrow hlock
      have hkey := Keyed.key_of_row hleases.1
      -- the write keeps the owner of the receipt and of the lock
      have hsame : ∀ p, s.tables.receipts.row applyId = some p →
          ∃ p', (afterUpdate s.tables q n path status error at_).receipts.row applyId = some p' ∧
            p'.workspaceId = p.workspaceId ∧ p'.leaseOwner = p.leaseOwner := by
        intro p hp
        rcases Keyed.row_update_cases (k := q.applyId) (c := receiptExtend n at_) hp with hp' | ⟨-, -, hp'⟩
        · exact ⟨p, hp', rfl, rfl⟩
        · exact ⟨_, hp', rfl, rfl⟩
      have hbefore : Owns s worker applyId := by
        cases hp : s.tables.receipts.row applyId with
        | none =>
          have hnone := Keyed.row_update_eq_none (k := q.applyId) (c := receiptExtend n at_) hp
          cases hnone.symm.trans hrow
        | some p =>
          obtain ⟨p', hp', -, hsameOwner⟩ := hsame p hp
          cases hp'.symm.trans hrow
          exact ⟨p, hp, hsameOwner ▸ howner⟩
      refine ⟨hbefore, ?_⟩
      rintro ⟨p, l, hp, hl, hlid, hlowner⟩
      obtain ⟨p', hp', hworkspace, -⟩ := hsame p hp
      rw [← hworkspace] at hl
      rcases Keyed.row_update_cases (k := q.workspaceId) (c := lockExtend q.applyId n at_) hl with hl' | ⟨-, -, hl'⟩
      · exact (hlock ⟨p', l, hp', hl', hlid, hlowner⟩).elim
      · exact (hlock ⟨p', _, hp', hl', hlid, hlowner⟩).elim

end Step

theorem sound_run (calls : List ApplyCall) : Sound (run hash calls) :=
  Calls.after_invariant (fun _ c h => h.kept hash c) Sound.start calls

theorem run_snoc (calls : List ApplyCall) (c : ApplyCall) :
    run hash (calls ++ [c]) = (exec hash (run hash calls) c).2 :=
  Calls.after_snoc (exec hash) start calls c

theorem owns_run {worker applyId : String} {calls : List ApplyCall} (h : Owns (run hash calls) worker applyId) :
    HoldsLock (run hash calls) worker applyId ∨
      ∃ pre c mid, calls = pre ++ c :: mid ∧ Overtakes hash (run hash pre) worker c := by
  induction calls using List.reverseRecOn with
  | nil =>
    obtain ⟨r, hrow, -⟩ := h
    cases hrow
  | append_singleton calls c ih =>
    rw [run_snoc] at h ⊢
    rcases owns_cases hash (sound_run hash calls) h with hlock | ⟨hbefore, hover⟩
    · exact .inl hlock
    · rcases ih hbefore with hheld | ⟨pre, d, mid, rfl, hd⟩
      · exact .inr ⟨calls, c, [], rfl, hover hheld⟩
      · exact .inr ⟨pre, d, mid ++ [c], by simp, hd⟩

theorem accepted_run {calls : List ApplyCall} {worker : String} {outcome : FileOutcome} {now : Int} :
    (exec hash (run hash calls) (.turn worker outcome now)).1 = true ↔ Writes (run hash calls) worker outcome := by
  unfold Writes
  cases hworker : (run hash calls).workers worker with
  | none => simp [exec, hworker]
  | some w =>
    have haccepted := @accepted_iff _ worker w outcome now ((sound_run hash calls).listed worker w hworker)
    simpa [exec, hworker, Owns, Leases] using haccepted

/-- **The workers exclude each other exactly if none writes late.** -/
theorem exclusive_iff (calls : List ApplyCall) : Exclusive hash calls ↔ NoneLate hash calls := by
  constructor
  · intro h pre c mid worker outcome now post hcalls hover hwrites
    have hrefused := h.refused pre c mid worker outcome now post hcalls hover
    rw [(accepted_run hash).2 hwrites] at hrefused
    cases hrefused
  · intro h
    refine { locked := ?_, refused := ?_, final := ?_, complete := fun applyId r => (sound_run hash calls).complete applyId r }
    · intro pre worker outcome now post hcalls haccepted
      have hwrites := (accepted_run hash).1 haccepted
      obtain ⟨w, hw, -, howns⟩ := id hwrites
      refine ⟨w, hw, (owns_run hash howns).resolve_right ?_⟩
      rintro ⟨front, c, mid, rfl, hover⟩
      exact h front c mid worker outcome now post (by rw [hcalls]; simp) hover hwrites
    · intro pre c mid worker outcome now post hcalls hover
      refine Bool.eq_false_iff.2 fun haccepted => ?_
      exact h pre c mid worker outcome now post hcalls hover ((accepted_run hash).1 haccepted)
    · rintro pre post rfl applyId r hrow hfinal
      have hkept : Sound (run hash (pre ++ post)) ∧ (run hash (pre ++ post)).tables.receipts.row applyId = some r := by
        rw [run, Calls.after_append]
        exact Calls.after_invariant (I := fun s : ApplySystem => Sound s ∧ s.tables.receipts.row applyId = some r)
          (fun _ c hs => ⟨hs.1.kept hash c, final_kept hash hs.1 hs.2 hfinal c⟩) ⟨sound_run hash pre, hrow⟩ post
      rw [hkept.2, Option.map_some]

def lateWorker : List ApplyCall :=
  [.begin true "a1" ⟨"r1", "ws", "cp", String.ofList (List.replicate 64 'a'), "q1", [⟨"f", none, some "h", .pending, none⟩], 0⟩,
    .begin true "a2" ⟨"r2", "ws", "cp", String.ofList (List.replicate 64 'a'), "q2", [], 0⟩,
    .claim "early" "a1" 0 60, .turn "early" .done 0, .claim "late" "a2" 100 60, .turn "early" .done 101]

/-- **The first worker's write is accepted** while the second holds the lock. -/
theorem lateWorker_accepted : ¬ Exclusive (fun _ => "hash") lateWorker := by
  intro h
  obtain ⟨w, hw, r, l, hr, hl, hid, howner⟩ := h.locked (lateWorker.take 5) "early" .done 101 [] rfl (by decide)
  have happly : w.applyId = "a1" := by
    have hworker : ((run (fun _ => "hash") (lateWorker.take 5)).workers "early").map ApplyWorker.applyId = some "a1" := by
      decide
    rw [hw] at hworker
    exact Option.some.inj hworker
  have hlock : ((run (fun _ => "hash") (lateWorker.take 5)).tables.locks.row "ws").map ApplyLockRow.leaseOwner =
      some "late" := by decide
  have hworkspace : ((run (fun _ => "hash") (lateWorker.take 5)).tables.receipts.row "a1").map
      ApplyReceiptRow.workspaceId = some "ws" := by decide
  rw [happly] at hr
  rw [hr] at hworkspace
  rw [← Option.some.inj hworkspace, hl] at hlock
  rw [Option.some.inj hlock] at howner
  exact absurd howner (by decide)

end ApplySystem

end Execlaw
