import Execlaw.ChildTasks
import Execlaw.Steps
/-!
# ChildBudgets — a parent's counters are the sum of its children's charges

A child is charged its budget until a settlement measures it, and what was measured from then on.  The counters follow
the charges through every call; they stay within the limits when no child reports more than its budget.  Two ways out
are excluded by a condition on the call: a capacity check that saturates at a limit of its type's maximum, and a sum of
times that `i64` does not hold.
-/
namespace Execlaw

open Table Steps

def ChildTaskRow.charge (r : ChildTaskRow) (d : Dimension) : Nat :=
  if r.settled then (r.used.get d).getD (r.budget.get d) else r.budget.get d

namespace ChildTables

def empty : ChildTables := ⟨.empty, .empty⟩

def counter (t : ChildTables) (p : String) (d : Dimension) : Sql.Number :=
  ((t.budgets.row p).map (fun b => b.reserved d)).getD (.integer 0)

def total (t : ChildTables) (p : String) (d : Dimension) : Nat :=
  t.tasks.total (fun r => if r.parentRunId = p then r.charge d else 0)

def count (t : ChildTables) (p : String) : Nat := t.tasks.total (fun r => if r.parentRunId = p then 1 else 0)

/-- **The counters are the sums of the charges.** -/
structure Conserved (t : ChildTables) : Prop where
  counters : ∀ p d, t.counter p d = .integer (t.total p d)
  few : ∀ p, t.count p ≤ maxChildTasksPerParent

/-- **The counters are within the limits.** -/
def Bounded (t : ChildTables) : Prop := ∀ p b d, t.budgets.row p = some b → t.total p d ≤ b.limit.get d

end ChildTables

inductive ChildCall (J : Type)
  | reserve (contract : ChildContract J) (now : Int)
  | settle (parentRunId childRunId : String) (usage : ChildUsage) (resultArtifactId : Option String) (now : Int)

section Calls

variable {J : Type} (json : ChildJson J)

/-- The tables after a call, at the runs of `db`. -/
def ChildCall.exec (db : Db) (t : ChildTables) : ChildCall J → ChildTables
  | .reserve contract now => (reserveChildTaskWithBudgets json db contract now t).2
  | .settle p child usage artifact now => (settleChildTaskWithUsage p child usage artifact now t).2

/-- **Nothing saturates and no time overflows**: a reservation that is let through fits each dimension whose limit is
its type's maximum, and the times of a parent's children fit `i64`. -/
def ChildCall.Fits (db : Db) (t : ChildTables) : ChildCall J → Prop
  | .reserve contract now => ∀ c reserved, encodeContract json contract = .ok c →
      admitChild json db c now t = .ok reserved → t.tasks.row c.childRunId = none → exhausted reserved c = false →
      ∀ d, c.aggregate.get d < d.max ∨ reserved d + c.budget.get d ≤ d.max
  | .settle p child usage _ _ => ∀ r, t.tasks.row child = some r → r.parentRunId = p → r.settled = false →
      t.total p .timeMs + (usage.get .timeMs).getD (r.budget.get .timeMs) < 2 ^ 63 + r.budget.get .timeMs

def ChildCall.Measured (t : ChildTables) : ChildCall J → Prop
  | .reserve _ _ => True
  | .settle _ child usage _ _ => ∀ r, t.tasks.row child = some r → ∀ d v, usage.get d = some v → v ≤ r.budget.get d

def childStep (t : ChildTables) (a : Db × ChildCall J) (t' : ChildTables) : Prop := t' = a.2.exec json a.1 t

def childFitStep (t : ChildTables) (a : Db × ChildCall J) (t' : ChildTables) : Prop :=
  childStep json t a t' ∧ a.2.Fits json a.1 t

/-! ## What the calls do -/

variable {json} {db : Db} {t : ChildTables} {contract : ChildContract J} {c : EncodedContract} {now : Int}

theorem reserve_cases (json : ChildJson J) (db : Db) (contract : ChildContract J) (now : Int) (t : ChildTables) :
    (∃ e, reserveChildTaskWithBudgets json db contract now t = (.error e, t)) ∨
    ∃ c reserved, encodeContract json contract = .ok c ∧ admitChild json db c now t = .ok reserved ∧
      ((∃ r, t.tasks.row c.childRunId = some r ∧
          reserveChildTaskWithBudgets json db contract now t = (.ok false, withBudgetRow c now t)) ∨
        t.tasks.row c.childRunId = none ∧ exhausted reserved c = false ∧
          reserveChildTaskWithBudgets json db contract now t = (.ok true, storeChild c now t)) := by
  unfold reserveChildTaskWithBudgets
  cases hc : encodeContract json contract with
  | error e => exact .inl ⟨e, rfl⟩
  | ok c =>
    cases hgranted : admitChild json db c now t with
    | error e => exact .inl ⟨.db e, by simp [reserveTx, hgranted, bind, Except.bind]⟩
    | ok reserved =>
      cases hrow : t.tasks.row c.childRunId with
      | some r =>
        cases hsame : r.sameContract c with
        | true =>
          refine .inr ⟨c, reserved, rfl, hgranted, .inl ⟨r, hrow, ?_⟩⟩
          simp [reserveTx, hgranted, bind, Except.bind, hrow, hsame]
        | false => exact .inl ⟨_, by simp [reserveTx, hgranted, bind, Except.bind, hrow, hsame]; rfl⟩
      | none =>
        cases hfull : exhausted reserved c with
        | true => exact .inl ⟨_, by simp [reserveTx, hgranted, bind, Except.bind, hrow, hfull]; rfl⟩
        | false =>
          refine .inr ⟨c, reserved, rfl, hgranted, .inr ⟨hrow, hfull, ?_⟩⟩
          simp [reserveTx, hgranted, bind, Except.bind, hrow, hfull]

variable {b : ChildBudgetRow} {d : Dimension}

theorem readReserved_ok {n : Nat} (h : readReserved b d = .ok n) : b.reserved d = .integer n ∧ n ≤ d.max := by
  unfold readReserved at h
  split at h
  · next v hv =>
    split at h
    · next hrange =>
      obtain rfl : v.toNat = n := Except.ok.inj h
      rw [hv, Int.toNat_of_nonneg hrange.1]
      exact ⟨rfl, by omega⟩
    · cases h
  · cases h

variable {reserved : Dimension → Nat}

theorem readLimits_ok (h : readLimits b = .ok reserved) (d : Dimension) :
    b.reserved d = .integer (reserved d) ∧ reserved d ≤ d.max := by
  obtain ⟨tokens, htokens, h⟩ := bind_eq_ok.1 h
  obtain ⟨timeMs, htime, h⟩ := bind_eq_ok.1 h
  obtain ⟨retries, hretries, h⟩ := bind_eq_ok.1 h
  obtain ⟨effects, heffects, h⟩ := bind_eq_ok.1 h
  cases h
  cases d with
  | tokens => exact readReserved_ok htokens
  | timeMs => exact readReserved_ok htime
  | retries => exact readReserved_ok hretries
  | effects => exact readReserved_ok heffects

theorem mapM_eq_ok_iff {ε α β : Type} {f : α → Except ε β} : ∀ {l : List α} {bs : List β},
    l.mapM f = .ok bs ↔ List.Forall₂ (fun a b => f a = .ok b) l bs
  | [], bs => by
    rw [List.mapM_nil, List.forall₂_nil_left_iff]
    exact ⟨fun h => (Except.ok.inj h).symm, fun h => congrArg Except.ok h.symm⟩
  | a :: l, bs => by
    rw [List.mapM_cons]
    constructor
    · intro h
      obtain ⟨b, hb, h⟩ := bind_eq_ok.1 h
      obtain ⟨rest, hrest, h⟩ := bind_eq_ok.1 h
      cases h
      exact .cons hb (mapM_eq_ok_iff.1 hrest)
    · rintro (_ | ⟨hb, hrest⟩)
      exact bind_eq_ok.2 ⟨_, hb, bind_eq_ok.2 ⟨_, mapM_eq_ok_iff.2 hrest, rfl⟩⟩

theorem length_of_mapM {ε α β : Type} {f : α → Except ε β} {l : List α} {bs : List β} (h : l.mapM f = .ok bs) :
    bs.length = l.length :=
  (mapM_eq_ok_iff.1 h).length_eq.symm

theorem length_children (t : ChildTables) (p : String) : (t.children p).length = t.count p := by
  unfold ChildTables.children ChildTables.count Keyed.total
  induction t.tasks.rows with
  | nil => rfl
  | cons r l ih =>
    by_cases hr : r.parentRunId = p
    · simp [hr, ih]
      omega
    · simp [hr, ih]

theorem admitChild_ok (h : admitChild json db c now t = .ok reserved) :
    t.count c.parentRunId < maxChildTasksPerParent ∧
    ∃ b, (withBudgetRow c now t).budgets.row c.parentRunId = some b ∧ b.limit = c.aggregate ∧
      ∀ d, b.reserved d = .integer (reserved d) ∧ reserved d ≤ d.max := by
  unfold admitChild at h
  split at h
  · cases h
  obtain ⟨graph, hgraph, h⟩ := bind_eq_ok.1 h
  have hlen := length_of_mapM hgraph
  rw [List.length_take, Table.orderBy, List.length_insertionSort, length_children] at hlen
  split at h
  · cases h
  split at h
  · cases h
  split at h
  · cases h
  · next hfew _ _ _ b hb =>
    obtain ⟨read, hread, h⟩ := bind_eq_ok.1 h
    split at h
    · cases h
    · next hlimit =>
      cases h
      have hlimit := not_not.1 hlimit
      refine ⟨?_, b, hb, hlimit, readLimits_ok hread⟩
      unfold maxChildTasksPerParent at *
      omega

/-! ## Amounts fit their types -/

theorem ChildExecutionBudget.get_le {b : ChildExecutionBudget} (h : b.timeMs.toNat < 2 ^ 63) (d : Dimension) :
    b.get d ≤ d.max := by
  have ht := b.tokens.toNat_lt
  have hr := b.retries.toNat_lt
  have he := b.effects.toNat_lt
  cases d <;> simp only [get, Dimension.max] <;> omega

theorem ChildUsage.get_le {u : ChildUsage} (h : u.timeFits = true) {v : Nat} (hv : u.get d = some v) : v ≤ d.max := by
  cases d with
  | timeMs =>
    obtain ⟨w, hw, rfl⟩ := Option.map_eq_some_iff.1 hv
    rw [timeFits, hw, Option.all_some, decide_eq_true_eq] at h
    simp only [Dimension.max]
    omega
  | _ =>
    obtain ⟨w, -, rfl⟩ := Option.map_eq_some_iff.1 hv
    have := w.toNat_lt
    simp only [Dimension.max]
    omega

variable {r : ChildTaskRow}

theorem ChildTaskRow.charge_le (h : r.Check) (d : Dimension) : r.charge d ≤ d.max := by
  unfold charge
  split
  · cases hu : r.used.get d with
    | none => exact r.budget.get_le h.fits d
    | some v => exact ChildUsage.get_le h.usedFits hu
  · exact r.budget.get_le h.fits d

theorem total_le (t : ChildTables) (p : String) (d : Dimension) : t.total p d ≤ t.count p * d.max := by
  have h := t.tasks.checked
  unfold ChildTables.total ChildTables.count Keyed.total
  generalize t.tasks.rows = rows at h ⊢
  induction rows with
  | nil => simp
  | cons r l ih =>
    have ih := ih (fun x hx => h x (List.mem_cons_of_mem _ hx))
    have hr := r.charge_le (h r List.mem_cons_self) d
    by_cases hp : r.parentRunId = p
    · simp only [List.map_cons, List.sum_cons, if_pos hp, Nat.add_mul, Nat.one_mul]
      omega
    · simp only [List.map_cons, List.sum_cons, if_neg hp, Nat.zero_add]
      exact ih

theorem within_limit (h : exhausted reserved c = false)
    (hfit : c.aggregate.get d < d.max ∨ reserved d + c.budget.get d ≤ d.max) :
    reserved d + c.budget.get d ≤ c.aggregate.get d := by
  have hlimit : ¬ c.aggregate.get d < d.saturatingAdd (reserved d) (c.budget.get d) := by
    have := List.any_eq_false.1 h d (by cases d <;> simp [Dimension.all])
    simpa using this
  unfold Dimension.saturatingAdd at hlimit
  omega

theorem row_withBudgetRow (p : String) : (withBudgetRow c now t).budgets.row p =
    (t.budgets.row p).or (if c.parentRunId = p then some (newChildBudget c now) else none) :=
  Keyed.row_insertOrIgnore (newChildBudget_check c now) p

theorem counter_withBudgetRow (p : String) (d : Dimension) : (withBudgetRow c now t).counter p d = t.counter p d := by
  unfold ChildTables.counter
  rw [row_withBudgetRow]
  cases t.budgets.row p with
  | some b => rfl
  | none =>
    by_cases hp : c.parentRunId = p
    · simp [hp]
    · simp [hp]

theorem ChildTables.Conserved.withBudgetRow (h : t.Conserved) : (withBudgetRow c now t).Conserved where
  counters := fun p d => (counter_withBudgetRow p d).trans (h.counters p d)
  few := h.few

variable {p : String}

theorem reserved_eq (h : t.Conserved) (hb : t.budgets.row p = some b) {n : Nat} (hn : b.reserved d = .integer n) :
    n = t.total p d := by
  have hcounter := h.counters p d
  rw [ChildTables.counter, hb, Option.map_some, Option.getD_some, hn] at hcounter
  injection hcounter with hcounter
  exact Int.ofNat.inj hcounter

theorem total_storeChild (hnone : t.tasks.row c.childRunId = none) (p : String) (d : Dimension) :
    (storeChild c now t).total p d = t.total p d + if c.parentRunId = p then c.budget.get d else 0 :=
  Keyed.total_insertOrIgnore (c.row_check now) hnone _

theorem count_storeChild (hnone : t.tasks.row c.childRunId = none) (p : String) :
    (storeChild c now t).count p = t.count p + if c.parentRunId = p then 1 else 0 :=
  Keyed.total_insertOrIgnore (c.row_check now) hnone _

theorem row_storeChild_of_ne (hp : p ≠ c.parentRunId) : (storeChild c now t).budgets.row p = t.budgets.row p := by
  show (Keyed.update _ _ _).row p = _
  rw [Keyed.row_update_of_ne _ hp, row_withBudgetRow, if_neg (Ne.symm hp), Option.or_none]

theorem row_storeChild (hb : (withBudgetRow c now t).budgets.row c.parentRunId = some b) :
    (storeChild c now t).budgets.row c.parentRunId = some ((reserveChange c.budget now).set b) :=
  Keyed.row_update_of_changed hb rfl

theorem Dimension.max_le (d : Dimension) : d.max ≤ 2 ^ 63 - 1 := by
  cases d <;> decide

theorem fits_natCast {n : Nat} (h : n < 2 ^ 63) : Sql.fits n = true := by
  simp only [Sql.fits, Bool.and_eq_true, decide_eq_true_eq]
  omega

theorem storeChild_conserved (h : t.Conserved) (hgranted : admitChild json db c now t = .ok reserved)
    (hnone : t.tasks.row c.childRunId = none) (hfits : ∀ d, reserved d + c.budget.get d ≤ c.aggregate.get d) :
    (storeChild c now t).Conserved := by
  obtain ⟨hfew, b, hb, -, hread⟩ := admitChild_ok hgranted
  constructor
  · intro p d
    rw [total_storeChild hnone]
    by_cases hp : c.parentRunId = p
    · subst hp
      have heq := reserved_eq h.withBudgetRow hb (hread d).1
      have hmax := d.max_le
      have hagg := ChildExecutionBudget.get_le c.aggregateFits d
      have hsum : Sql.fits ((reserved d : Int) + (c.budget.get d : Int)) = true :=
        fits_natCast (n := reserved d + c.budget.get d) (by have := hfits d; omega)
      rw [ChildTables.counter, row_storeChild hb, Option.map_some, Option.getD_some, if_pos rfl]
      show (((b.setReserved _ now).reserved d) : Sql.Number) = _
      rw [ChildBudgetRow.reserved_setReserved, (hread d).1, Sql.Number.add_integer hsum, Sql.Number.store_integer, heq]
      rfl
    · rw [ChildTables.counter, row_storeChild_of_ne (Ne.symm hp), if_neg hp]
      exact h.counters p d
  · intro p
    rw [count_storeChild hnone]
    have := h.few p
    by_cases hp : c.parentRunId = p
    · subst hp
      rw [if_pos rfl]
      omega
    · rw [if_neg hp]
      exact this

theorem storeChild_bounded (h : t.Conserved) (hbound : t.Bounded) (hgranted : admitChild json db c now t = .ok reserved)
    (hnone : t.tasks.row c.childRunId = none) (hfits : ∀ d, reserved d + c.budget.get d ≤ c.aggregate.get d) :
    (storeChild c now t).Bounded := by
  obtain ⟨-, b, hb, hlimit, hread⟩ := admitChild_ok hgranted
  intro p b' d hb'
  rw [total_storeChild hnone]
  by_cases hp : c.parentRunId = p
  · subst hp
    rw [row_storeChild hb] at hb'
    cases hb'
    have heq : reserved d = t.total c.parentRunId d := reserved_eq h.withBudgetRow hb (hread d).1
    have hsum := hfits d
    rw [if_pos rfl, ← heq]
    show _ ≤ b.limit.get d
    rwa [hlimit]
  · rw [row_storeChild_of_ne (Ne.symm hp)] at hb'
    rw [if_neg hp]
    exact hbound p b' d hb'

theorem withBudgetRow_bounded (h : t.Conserved) (hbound : t.Bounded) : (withBudgetRow c now t).Bounded := by
  intro p b d hb
  rw [row_withBudgetRow] at hb
  cases hrow : t.budgets.row p with
  | some b' =>
    rw [hrow, Option.some_or] at hb
    obtain rfl := Option.some.inj hb
    exact hbound p b' d hrow
  | none =>
    have hzero := h.counters p d
    rw [ChildTables.counter, hrow, Option.map_none, Option.getD_none] at hzero
    injection hzero with hzero
    have hzero : t.total p d = 0 := by omega
    show t.total p d ≤ _
    omega

section Settle

variable {p child : String} {usage : ChildUsage} {artifact : Option String} {hfits : usage.timeFits = true}
  {r : ChildTaskRow}

theorem settle_cases (p child : String) (usage : ChildUsage) (artifact : Option String) (now : Int)
    (t : ChildTables) : (settleChildTaskWithUsage p child usage artifact now t).2 = t ∨
    ∃ (hfits : usage.timeFits = true) (r : ChildTaskRow), t.tasks.row child = some r ∧ r.parentRunId = p ∧
      r.settled = false ∧
      settleChildTaskWithUsage p child usage artifact now t = (.ok (), settleChild p r usage hfits artifact now t) := by
  unfold settleChildTaskWithUsage
  split
  · next hfits =>
    split
    · exact .inl rfl
    · next r hr =>
      obtain ⟨hrow, hparent⟩ := Option.filter_eq_some_iff.1 hr
      cases hsettled : r.settled with
      | true => exact .inl rfl
      | false => exact .inr ⟨hfits, r, hrow, by simpa using hparent, hsettled, rfl⟩
  · exact .inl rfl

theorem get_or_none (u : ChildUsage) (d : Dimension) : (u.or .none).get d = u.get d := by
  cases d <;> simp [ChildUsage.or, ChildUsage.none, ChildUsage.get]

theorem charge_open (hr : r.settled = false) (d : Dimension) : r.charge d = r.budget.get d := by
  simp [ChildTaskRow.charge, hr]

theorem charge_settled (hr : t.tasks.row child = some r) (hopen : r.settled = false) (d : Dimension) :
    ((settleTaskChange p usage hfits artifact now).set r).charge d = (usage.get d).getD (r.budget.get d) := by
  have hnone := (Keyed.ok_of_row hr).unmeasured hopen
  show ((usage.or r.used).get d).getD (r.budget.get d) = _
  rw [hnone, get_or_none]

theorem total_settleChild (hr : t.tasks.row r.childRunId = some r) (hparent : r.parentRunId = p)
    (hopen : r.settled = false) (d : Dimension) : (settleChild p r usage hfits artifact now t).total p d +
      r.budget.get d = t.total p d + (usage.get d).getD (r.budget.get d) := by
  have h := Keyed.total_update (c := settleTaskChange p usage hfits artifact now) hr
    (fun r => if r.parentRunId = p then r.charge d else 0)
  have happly : (settleTaskChange p usage hfits artifact now).apply r =
      (settleTaskChange p usage hfits artifact now).set r := if_pos (by simp [settleTaskChange, hparent])
  have hparent' : ((settleTaskChange p usage hfits artifact now).set r).parentRunId = p := hparent
  rw [happly, if_pos hparent, if_pos hparent', charge_open hopen, charge_settled hr hopen] at h
  exact h

theorem total_settleChild_of_ne (hr : t.tasks.row r.childRunId = some r) (hparent : r.parentRunId = p) {q : String}
    (hq : q ≠ p) (d : Dimension) : (settleChild p r usage hfits artifact now t).total q d = t.total q d := by
  have h := Keyed.total_update (c := settleTaskChange p usage hfits artifact now) hr
    (fun r => if r.parentRunId = q then r.charge d else 0)
  have happly : ((settleTaskChange p usage hfits artifact now).apply r).parentRunId = p := by
    unfold Change.apply
    split <;> exact hparent
  rw [happly, hparent, if_neg (Ne.symm hq), if_neg (Ne.symm hq)] at h
  exact h

theorem count_settleChild (hr : t.tasks.row r.childRunId = some r) (q : String) :
    (settleChild p r usage hfits artifact now t).count q = t.count q := by
  have h := Keyed.total_update (c := settleTaskChange p usage hfits artifact now) hr
    (fun r => if r.parentRunId = q then 1 else 0)
  have happly : ((settleTaskChange p usage hfits artifact now).apply r).parentRunId = r.parentRunId := by
    unfold Change.apply
    split <;> rfl
  rw [happly] at h
  exact Nat.add_right_cancel h

theorem budget_row_of_child (h : t.Conserved) (hr : t.tasks.row child = some r) (hparent : r.parentRunId = p)
    (hopen : r.settled = false) : ∃ b, t.budgets.row p = some b := by
  cases hb : t.budgets.row p with
  | some b => exact ⟨b, rfl⟩
  | none =>
    have hzero := h.counters p .tokens
    rw [ChildTables.counter, hb, Option.map_none, Option.getD_none] at hzero
    injection hzero with hzero
    have hle := Keyed.le_total hr (fun r => if r.parentRunId = p then r.charge .tokens else 0)
    rw [if_pos hparent, charge_open hopen] at hle
    have hpos : 0 < r.budget.get .tokens := UInt32.lt_iff_toNat_lt.1 (Keyed.ok_of_row hr).tokens
    change r.budget.get .tokens ≤ t.total p .tokens at hle
    omega

theorem settled_fits (h : t.Conserved) (hfits : usage.timeFits = true) (hr : t.tasks.row r.childRunId = some r)
    (htime : t.total p .timeMs + (usage.get .timeMs).getD (r.budget.get .timeMs) < 2 ^ 63 + r.budget.get .timeMs)
    (d : Dimension) : t.total p d + (usage.get d).getD (r.budget.get d) < 2 ^ 63 + r.budget.get d := by
  by_cases hd : d = .timeMs
  · rw [hd]
    exact htime
  · have hmax : d.max = 2 ^ 32 - 1 := by
      cases d <;> first | rfl | exact absurd rfl hd
    have htotal : t.total p d ≤ 128 * (2 ^ 32 - 1) :=
      (total_le t p d).trans (hmax ▸ Nat.mul_le_mul_right _ (h.few p))
    have hcharge : (usage.get d).getD (r.budget.get d) ≤ 2 ^ 32 - 1 := by
      rw [← hmax]
      cases hu : usage.get d with
      | none => exact r.budget.get_le (Keyed.ok_of_row hr).fits d
      | some v => exact ChildUsage.get_le hfits hu
    omega

theorem settleChild_conserved (h : t.Conserved) (hr : t.tasks.row r.childRunId = some r) (hparent : r.parentRunId = p)
    (hopen : r.settled = false)
    (htime : t.total p .timeMs + (usage.get .timeMs).getD (r.budget.get .timeMs) < 2 ^ 63 + r.budget.get .timeMs) :
    (settleChild p r usage hfits artifact now t).Conserved := by
  refine ⟨fun q d => ?_, fun q => (count_settleChild hr q).trans_le (h.few q)⟩
  by_cases hq : q = p
  · subst hq
    obtain ⟨b, hb⟩ := budget_row_of_child h hr hparent hopen
    have htotal : (settleChild q r usage hfits artifact now t).total q d + r.budget.get d =
        t.total q d + (usage.get d).getD (r.budget.get d) := total_settleChild hr hparent hopen d
    have hbudget : r.budget.get d ≤ t.total q d := by
      have hle := Keyed.le_total hr (fun r => if r.parentRunId = q then r.charge d else 0)
      rw [if_pos hparent, charge_open hopen] at hle
      exact hle
    have hfit := settled_fits h hfits hr htime d
    have hreserved : b.reserved d = .integer (t.total q d) := by
      have hcounter := h.counters q d
      rwa [ChildTables.counter, hb, Option.map_some, Option.getD_some] at hcounter
    have hrow : (settleChild q r usage hfits artifact now t).budgets.row q =
        some ((settleBudgetChange r usage now).set b) := Keyed.row_update_of_changed hb rfl
    rw [ChildTables.counter, hrow, Option.map_some, Option.getD_some]
    show ((b.setReserved _ now).reserved d : Sql.Number) = _
    rw [ChildBudgetRow.reserved_setReserved, hreserved]
    generalize (usage.get d).getD (r.budget.get d) = charge at htotal hfit
    have hsub : Sql.fits ((t.total q d : Int) - (r.budget.get d : Int)) = true := by
      rw [← Int.ofNat_sub hbudget]
      exact fits_natCast (by omega)
    have hadd : Sql.fits ((t.total q d : Int) - (r.budget.get d : Int) + (charge : Int)) = true := by
      rw [← Int.ofNat_sub hbudget]
      exact fits_natCast (n := t.total q d - r.budget.get d + charge) (by omega)
    rw [Sql.Number.sub_integer hsub, Sql.Number.add_integer hadd, Sql.Number.maxZero_integer (by omega),
      Sql.Number.store_integer]
    congr 1
    omega
  · have hrow : (settleChild p r usage hfits artifact now t).budgets.row q = t.budgets.row q :=
      Keyed.row_update_of_ne _ hq _
    rw [ChildTables.counter, hrow, total_settleChild_of_ne hr hparent hq]
    exact h.counters q d

theorem settleChild_bounded (hbound : t.Bounded) (hr : t.tasks.row r.childRunId = some r)
    (hparent : r.parentRunId = p) (hopen : r.settled = false)
    (hle : ∀ d v, usage.get d = some v → v ≤ r.budget.get d) :
    (settleChild p r usage hfits artifact now t).Bounded := by
  intro q b d hb
  obtain ⟨b₀, hb₀, hlimit⟩ : ∃ b₀, t.budgets.row q = some b₀ ∧ b.limit = b₀.limit := by
    cases hrow : t.budgets.row q with
    | none =>
      rw [show (settleChild p r usage hfits artifact now t).budgets.row q = none from
        Keyed.row_update_eq_none hrow] at hb
      cases hb
    | some b₀ =>
      have hcases := Keyed.row_update_cases (k := p) (c := settleBudgetChange r usage now) hrow
      change (t.budgets.update p _).row q = some b at hb
      rcases hcases with h | ⟨-, -, h⟩ <;>
      · rw [h] at hb
        obtain rfl := Option.some.inj hb
        exact ⟨b₀, rfl, rfl⟩
  have hold := hbound q b₀ d hb₀
  rw [hlimit]
  by_cases hq : q = p
  · subst hq
    have htotal : (settleChild q r usage hfits artifact now t).total q d + r.budget.get d =
        t.total q d + (usage.get d).getD (r.budget.get d) := total_settleChild hr hparent hopen d
    have hcharge : (usage.get d).getD (r.budget.get d) ≤ r.budget.get d := by
      cases hu : usage.get d with
      | none => exact le_refl _
      | some v => exact hle d v hu
    omega
  · rw [total_settleChild_of_ne hr hparent hq]
    exact hold

end Settle

theorem empty_conserved : ChildTables.empty.Conserved := ⟨fun _ _ => rfl, fun _ => Nat.zero_le _⟩

theorem empty_bounded : ChildTables.empty.Bounded := fun _ _ _ _ => Nat.zero_le _

variable {t' : ChildTables} {a : Db × ChildCall J}

theorem childFitStep_kept (h : t.Conserved) (hstep : childFitStep json t a t') :
    t'.Conserved ∧ (t.Bounded → a.2.Measured t → t'.Bounded) := by
  obtain ⟨db, call⟩ := a
  obtain ⟨rfl, hfits⟩ := hstep
  cases call with
  | reserve contract now =>
    show (reserveChildTaskWithBudgets json db contract now t).2.Conserved ∧
      (_ → _ → (reserveChildTaskWithBudgets json db contract now t).2.Bounded)
    rcases reserve_cases json db contract now t with
      ⟨e, heq⟩ | ⟨c, reserved, hc, hgranted, ⟨r, -, heq⟩ | ⟨hnone, hroom, heq⟩⟩
    · rw [heq]
      exact ⟨h, fun hbound _ => hbound⟩
    · rw [heq]
      exact ⟨h.withBudgetRow, fun hbound _ => withBudgetRow_bounded h hbound⟩
    · rw [heq]
      have hlimit := fun d => within_limit hroom (hfits c reserved hc hgranted hnone hroom d)
      exact ⟨storeChild_conserved h hgranted hnone hlimit,
        fun hbound _ => storeChild_bounded h hbound hgranted hnone hlimit⟩
  | settle p child usage artifact now =>
    show (settleChildTaskWithUsage p child usage artifact now t).2.Conserved ∧
      (_ → _ → (settleChildTaskWithUsage p child usage artifact now t).2.Bounded)
    rcases settle_cases p child usage artifact now t with
      heq | ⟨hmeasure, r, hr, hparent, hopen, heq⟩
    · rw [heq]
      exact ⟨h, fun hbound _ => hbound⟩
    · rw [heq]
      obtain rfl := Keyed.key_of_row hr
      exact ⟨settleChild_conserved h hr hparent hopen (hfits r hr hparent hopen),
        fun hbound hmeasured => settleChild_bounded hbound hr hparent hopen (hmeasured r hr)⟩

/-- **Nothing is taken back**: a budget row stays, a contract stays with its parent, a settled one stays settled. -/
structure ChildTables.Kept (t t' : ChildTables) : Prop where
  budgets : ∀ p, (t.budgets.row p).isSome = true → (t'.budgets.row p).isSome = true
  tasks : ∀ k r, t.tasks.row k = some r →
    ∃ r', t'.tasks.row k = some r' ∧ r'.parentRunId = r.parentRunId ∧ (r.settled = true → r'.settled = true)

theorem ChildTables.Kept.refl (t : ChildTables) : t.Kept t := ⟨fun _ h => h, fun _ r hr => ⟨r, hr, rfl, id⟩⟩

theorem ChildTables.Kept.trans {t' t'' : ChildTables} (h : t.Kept t') (h' : t'.Kept t'') : t.Kept t'' where
  budgets := fun p hp => h'.budgets p (h.budgets p hp)
  tasks := by
    intro k r hr
    obtain ⟨r', hr', hparent, hsettled⟩ := h.tasks k r hr
    obtain ⟨r'', hr'', hparent', hsettled'⟩ := h'.tasks k r' hr'
    exact ⟨r'', hr'', hparent'.trans hparent, fun hs => hsettled' (hsettled hs)⟩

theorem kept_withBudgetRow (c : EncodedContract) (now : Int) (t : ChildTables) : t.Kept (withBudgetRow c now t) where
  budgets := by
    intro p hp
    rw [row_withBudgetRow]
    obtain ⟨b, hb⟩ := Option.isSome_iff_exists.1 hp
    rw [hb]
    rfl
  tasks := fun _ r hr => ⟨r, hr, rfl, id⟩

theorem kept_storeChild (c : EncodedContract) (now : Int) (t : ChildTables) : t.Kept (storeChild c now t) where
  budgets := fun p hp => Keyed.row_isSome_update _ ((kept_withBudgetRow c now t).budgets p hp)
  tasks := fun _ r hr => ⟨r, Keyed.row_insertOrIgnore_of_row (c.row_check now) hr, rfl, id⟩

variable {usage : ChildUsage}

theorem kept_settleChild (hfits : usage.timeFits = true) (artifact : Option String) (now : Int) (t : ChildTables) :
    t.Kept (settleChild p r usage hfits artifact now t) where
  budgets := fun _ hp => Keyed.row_isSome_update _ hp
  tasks := by
    intro k q hq
    rcases Keyed.row_update_cases (k := r.childRunId) (c := settleTaskChange p usage hfits artifact now) hq with
      h | ⟨-, -, h⟩
    · exact ⟨q, h, rfl, id⟩
    · exact ⟨_, h, rfl, fun _ => rfl⟩

theorem childStep_kept (h : childStep json t a t') : t.Kept t' := by
  obtain ⟨db, call⟩ := a
  obtain rfl : t' = call.exec json db t := h
  cases call with
  | reserve contract now =>
    show t.Kept (reserveChildTaskWithBudgets json db contract now t).2
    rcases reserve_cases json db contract now t with ⟨e, heq⟩ | ⟨c, reserved, -, -, ⟨r, -, heq⟩ | ⟨-, -, heq⟩⟩
    · rw [heq]
      exact .refl t
    · rw [heq]
      exact kept_withBudgetRow c now t
    · rw [heq]
      exact kept_storeChild c now t
  | settle p child usage artifact now =>
    show t.Kept (settleChildTaskWithUsage p child usage artifact now t).2
    rcases settle_cases p child usage artifact now t with heq | ⟨hfits, r, -, -, -, heq⟩
    · rw [heq]
      exact .refl t
    · rw [heq]
      exact kept_settleChild hfits artifact now t

theorem run_kept {calls : List (Db × ChildCall J)} (h : Run (childStep json) t calls t') : t.Kept t' :=
  run_invariant (P := t.Kept) h (.refl t) fun _ _ _ hkept hstep => hkept.trans (childStep_kept hstep)

theorem encodeContract_ok (h : encodeContract json contract = .ok c) :
    c.parentRunId = contract.parentRunId ∧ c.childRunId = contract.childRunId ∧ c.aggregate = contract.aggregate := by
  unfold encodeContract at h
  split at h
  · split at h
    · cases h
    · obtain ⟨taskJson, -, h⟩ := bind_eq_ok.1 h
      obtain ⟨trustJson, -, h⟩ := bind_eq_ok.1 h
      obtain ⟨dependenciesJson, -, h⟩ := bind_eq_ok.1 h
      split at h
      · cases h
      · split at h
        · split at h
          · cases h
            exact ⟨rfl, rfl, rfl⟩
          · cases h
        · cases h
  · cases h

theorem reserve_stored_child (hbudget : (t.budgets.row contract.parentRunId).isSome = true)
    (htask : (t.tasks.row contract.childRunId).isSome = true) (db : Db) (now : Int) :
    (reserveChildTaskWithBudgets json db contract now t).2 = t := by
  rcases reserve_cases json db contract now t with ⟨e, heq⟩ | ⟨c, reserved, hc, -, ⟨r, -, heq⟩ | ⟨hnone, -, -⟩⟩
  · rw [heq]
  · rw [heq]
    have hrow : (t.budgets.row (newChildBudget c now).parentRunId).isSome = true := by
      show (t.budgets.row c.parentRunId).isSome = true
      rwa [(encodeContract_ok hc).1]
    unfold withBudgetRow
    rw [Keyed.insertOrIgnore_of_isSome _ hrow]
  · rw [(encodeContract_ok hc).2.1] at hnone
    rw [hnone] at htask
    cases htask

theorem rows_of_reserve {created : Bool} (h : (reserveChildTaskWithBudgets json db contract now t).1 = .ok created) :
    ((reserveChildTaskWithBudgets json db contract now t).2.budgets.row contract.parentRunId).isSome = true ∧
      ((reserveChildTaskWithBudgets json db contract now t).2.tasks.row contract.childRunId).isSome = true := by
  rcases reserve_cases json db contract now t with ⟨e, heq⟩ | ⟨c, reserved, hc, hgranted, hcases⟩
  · rw [heq] at h
    cases h
  · obtain ⟨-, b, hb, -, -⟩ := admitChild_ok hgranted
    rw [← (encodeContract_ok hc).1, ← (encodeContract_ok hc).2.1]
    rcases hcases with ⟨r, hr, heq⟩ | ⟨hnone, -, heq⟩
    · rw [heq]
      exact ⟨Option.isSome_of_eq_some hb, Option.isSome_of_eq_some hr⟩
    · rw [heq]
      refine ⟨Keyed.row_isSome_update _ (Option.isSome_of_eq_some hb), ?_⟩
      show ((t.tasks.insertOrIgnore (c.row now) (c.row_check now)).row c.childRunId).isSome = true
      have hkey : (c.row now).childRunId = c.childRunId := rfl
      rw [Keyed.row_insertOrIgnore, hnone, Option.none_or, if_pos hkey]
      rfl

variable {artifact : Option String}

theorem settled_of_settle {p child : String} (h : (settleChildTaskWithUsage p child usage artifact now t).1 = .ok ()) :
    ∃ r, (settleChildTaskWithUsage p child usage artifact now t).2.tasks.row child = some r ∧ r.settled = true := by
  unfold settleChildTaskWithUsage at h ⊢
  split at h
  · next hfits =>
    rw [dif_pos hfits]
    split at h
    · cases h
    · next r hr =>
      obtain ⟨hrow, hparent⟩ := Option.filter_eq_some_iff.1 hr
      cases hsettled : r.settled with
      | true => exact ⟨r, hrow, hsettled⟩
      | false =>
        obtain rfl := Keyed.key_of_row hrow
        exact ⟨_, Keyed.row_update_of_changed hrow hparent, rfl⟩
  · cases h

theorem settle_settled {p child : String} (hr : t.tasks.row child = some r) (hsettled : r.settled = true) :
    (settleChildTaskWithUsage p child usage artifact now t).2 = t := by
  rcases settle_cases p child usage artifact now t with heq | ⟨-, r', hr', -, hopen, -⟩
  · exact heq
  · rw [hr] at hr'
    cases hr'
    rw [hsettled] at hopen
    cases hopen

/-- **Child budgets are conserved.**  Where no reservation saturates and no sum of times passes `i64`, every counter of
a parent is the sum of its children's charges, and within its limit if no settlement reported more than a budget.  A
refused reservation, a repeated one and a second settlement change nothing. -/
theorem child_budgets_conserved {calls : List (Db × ChildCall J)} {t : ChildTables}
    (h : Run (childFitStep json) .empty calls t) :
    (∀ p d, t.counter p d = .integer (t.total p d)) ∧
    (Run (fun s a s' => childFitStep json s a s' ∧ a.2.Measured s) .empty calls t →
      ∀ p b d, t.budgets.row p = some b → (b.reserved d).value ≤ b.limit.get d) ∧
    (∀ db contract now e, (reserveChildTaskWithBudgets json db contract now t).1 = .error e →
      (reserveChildTaskWithBudgets json db contract now t).2 = t) ∧
    (∀ db contract now created, (reserveChildTaskWithBudgets json db contract now t).1 = .ok created →
      ∀ later t', Run (childStep json) (reserveChildTaskWithBudgets json db contract now t).2 later t' →
        ∀ db' now', (reserveChildTaskWithBudgets json db' contract now' t').2 = t') ∧
    ∀ p child usage artifact now, (settleChildTaskWithUsage p child usage artifact now t).1 = .ok () →
      ∀ later t', Run (childStep json) (settleChildTaskWithUsage p child usage artifact now t).2 later t' →
        ∀ usage' artifact' now', (settleChildTaskWithUsage p child usage' artifact' now' t').2 = t' := by
  have hconserved : t.Conserved :=
    run_invariant h empty_conserved fun _ _ _ hc hstep => (childFitStep_kept hc hstep).1
  refine ⟨hconserved.counters, ?_, ?_, ?_, ?_⟩
  · intro hmeasured p b d hb
    have hbound : t.Conserved ∧ t.Bounded :=
      run_invariant (P := fun t => t.Conserved ∧ t.Bounded) hmeasured ⟨empty_conserved, empty_bounded⟩
        fun _ _ _ hc hstep => (childFitStep_kept hc.1 hstep.1).imp_right fun h => h hc.2 hstep.2
    have hcounter := hconserved.counters p d
    rw [ChildTables.counter, hb, Option.map_some, Option.getD_some] at hcounter
    rw [hcounter]
    exact Int.ofNat_le.2 (hbound.2 p b d hb)
  · intro db contract now e herr
    rcases reserve_cases json db contract now t with ⟨e', heq⟩ | ⟨c, reserved, -, -, ⟨r, -, heq⟩ | ⟨-, -, heq⟩⟩
    · rw [heq]
    · rw [heq] at herr
      cases herr
    · rw [heq] at herr
      cases herr
  · intro db contract now created hok later t' hlater db' now'
    obtain ⟨hbudget, htask⟩ := rows_of_reserve hok
    have hkept := run_kept hlater
    obtain ⟨r, hr⟩ := Option.isSome_iff_exists.1 htask
    obtain ⟨r', hr', -⟩ := hkept.tasks _ r hr
    exact reserve_stored_child (hkept.budgets _ hbudget) (Option.isSome_of_eq_some hr') db' now'
  · intro p child usage artifact now hok later t' hlater usage' artifact' now'
    obtain ⟨r, hr, hsettled⟩ := settled_of_settle hok
    obtain ⟨r', hr', -, hsettled'⟩ := (run_kept hlater).tasks _ r hr
    exact settle_settled hr' (hsettled' hsettled)

end Calls

/-! ## Runs on a parent with two children -/

def sampleChildJson : ChildJson String where
  toString := .ok
  listToString := fun l => if l.isEmpty then .ok "[]" else .error "not modelled"
  parseList := fun text => if text == "[]" then .ok [] else .error "not modelled"

def sampleFamily : Db :=
  { runs := [⟨"p", "c", .running, 1, 0, none, 0, none⟩, ⟨"x", "c", .pending, 1, 0, some "p", 0, none⟩,
      ⟨"y", "c", .pending, 1, 0, some "p", 0, none⟩] }

def sampleTaskHash : String := "aaaaaaaaaaaaaaaaaaaaaaaaaaaaaaaaaaaaaaaaaaaaaaaaaaaaaaaaaaaaaaaa"

def tokenContract (child : String) (tokens limit : UInt32) : ChildContract String where
  parentRunId := "p"
  childRunId := child
  task := "1"
  taskHash := sampleTaskHash
  trustCeiling := "1"
  budget := ⟨tokens, 1, 0, 0⟩
  aggregate := ⟨limit, 10, 0, 0⟩
  dependencies := []

def sampleFamilyCalls : List (Db × ChildCall String) :=
  [(sampleFamily, .reserve (tokenContract "x" 5 10) 1), (sampleFamily, .reserve (tokenContract "y" 4 10) 2),
    (sampleFamily, .settle "p" "x" ⟨some 3, some 1, none, none⟩ none 3)]

def childTablesAfter (calls : List (Db × ChildCall String)) : ChildTables :=
  calls.foldl (fun t a => a.2.exec sampleChildJson a.1 t) .empty

example : (childTablesAfter sampleFamilyCalls).counter "p" .tokens = .integer 7 := by decide +kernel

theorem tokenContract_fits (child : String) (tokens : UInt32) (now : Int) (t : ChildTables) :
    (ChildCall.reserve (tokenContract child tokens 10) now).Fits sampleChildJson sampleFamily t := by
  intro c reserved hc _ _ _ d
  left
  rw [(encodeContract_ok hc).2.2]
  cases d <;> simp [tokenContract, ChildExecutionBudget.get, Dimension.max]

theorem child_budgets_conserved_settled : (childTablesAfter sampleFamilyCalls).counter "p" .tokens =
    .integer ((childTablesAfter sampleFamilyCalls).total "p" .tokens) := by
  have hrun : Run (childFitStep sampleChildJson) .empty sampleFamilyCalls (childTablesAfter sampleFamilyCalls) := by
    refine ⟨_, ⟨rfl, tokenContract_fits "x" 5 1 _⟩, _, ⟨rfl, tokenContract_fits "y" 4 2 _⟩, _, ⟨rfl, ?_⟩, rfl⟩
    intro r _ _ _
    have htotal : (childTablesAfter (sampleFamilyCalls.take 2)).total "p" .timeMs = 2 := by decide +kernel
    show (childTablesAfter (sampleFamilyCalls.take 2)).total "p" .timeMs + 1 < _
    omega
  exact (child_budgets_conserved hrun).1 "p" .tokens

/-- **A limit of `u32::MAX` is never reached**: the sum the check compares saturates at it. -/
def saturatingCalls : List (Db × ChildCall String) :=
  [(sampleFamily, .reserve (tokenContract "x" 4294967295 4294967295) 1),
    (sampleFamily, .reserve (tokenContract "y" 4294967295 4294967295) 2)]

theorem reservations_pass_limit :
    Run (childStep sampleChildJson) .empty saturatingCalls (childTablesAfter saturatingCalls) ∧
      (childTablesAfter saturatingCalls).counter "p" .tokens = .integer 8589934590 ∧
      ((childTablesAfter saturatingCalls).budgets.row "p").map (fun b => b.limit.get .tokens) = some 4294967295 := by
  refine ⟨⟨_, rfl, _, rfl, rfl⟩, ?_, ?_⟩ <;> decide +kernel

end Execlaw
