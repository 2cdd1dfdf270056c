import Execlaw.Keyed
import Execlaw.Runs
import Execlaw.SqlNumber
import Mathlib.Data.String.Basic
/-!
# ChildTasks — contracts and budgets of child runs (`core/src/runs.rs`)

A parent run has one row of limits and counters, in four dimensions, and one row for each child task.  A reservation
stores the child's contract and adds its budget to the counters; a settlement replaces the budget by what was measured.
Both tables carry their constraints, so a row of either has amounts its column's type holds.
-/
namespace Execlaw

open Table

def maxChildTasksPerParent : Nat := 128

/-! ## Amounts -/

inductive Dimension | tokens | timeMs | retries | effects
deriving DecidableEq

/-- The largest value the dimension is read as: `u32::MAX`, and `i64::MAX` for time. -/
def Dimension.max : Dimension → Nat
  | .timeMs => 2 ^ 63 - 1
  | .tokens | .retries | .effects => 2 ^ 32 - 1

/-- `saturating_add` of the dimension's type. -/
def Dimension.saturatingAdd (d : Dimension) (a b : Nat) : Nat := min (a + b) d.max

structure ChildExecutionBudget where
  tokens : UInt32
  timeMs : UInt64
  retries : UInt32
  effects : UInt32
deriving DecidableEq

def ChildExecutionBudget.get (b : ChildExecutionBudget) : Dimension → Nat
  | .tokens => b.tokens.toNat
  | .timeMs => b.timeMs.toNat
  | .retries => b.retries.toNat
  | .effects => b.effects.toNat

structure ChildUsage where
  tokens : Option UInt32
  timeMs : Option UInt64
  retries : Option UInt32
  effects : Option UInt32

def ChildUsage.none : ChildUsage := ⟨.none, .none, .none, .none⟩

def ChildUsage.get (u : ChildUsage) : Dimension → Option Nat
  | .tokens => u.tokens.map UInt32.toNat
  | .timeMs => u.timeMs.map UInt64.toNat
  | .retries => u.retries.map UInt32.toNat
  | .effects => u.effects.map UInt32.toNat

def ChildUsage.or (u v : ChildUsage) : ChildUsage :=
  ⟨u.tokens.or v.tokens, u.timeMs.or v.timeMs, u.retries.or v.retries, u.effects.or v.effects⟩

/-- The time fits the `i64` it is stored as. -/
def ChildUsage.timeFits (u : ChildUsage) : Bool := u.timeMs.all (fun v => v.toNat < 2 ^ 63)

structure ChildTaskRow where
  childRunId : String
  parentRunId : String
  taskJson : String
  taskHash : String
  trustCeilingJson : String
  budget : ChildExecutionBudget
  used : ChildUsage
  dependenciesJson : String
  resultArtifactId : Option String
  settled : Bool
  createdAt : Int
  updatedAt : Int

/-- The `CHECK`s, the ranges of the stored types, and that only a settlement measures. -/
structure ChildTaskRow.Check (r : ChildTaskRow) : Prop where
  tokens : 0 < r.budget.tokens
  timeMs : 0 < r.budget.timeMs
  fits : r.budget.timeMs.toNat < 2 ^ 63
  usedFits : r.used.timeFits = true
  unmeasured : r.settled = false → r.used = .none

structure ChildBudgetRow where
  parentRunId : String
  limit : ChildExecutionBudget
  tokensReserved : Sql.Number
  timeReservedMs : Sql.Number
  retriesReserved : Sql.Number
  effectsReserved : Sql.Number
  updatedAt : Int

def ChildBudgetRow.reserved (b : ChildBudgetRow) : Dimension → Sql.Number
  | .tokens => b.tokensReserved
  | .timeMs => b.timeReservedMs
  | .retries => b.retriesReserved
  | .effects => b.effectsReserved

structure ChildBudgetRow.Check (b : ChildBudgetRow) : Prop where
  tokens : 0 < b.limit.tokens
  timeMs : 0 < b.limit.timeMs
  fits : b.limit.timeMs.toNat < 2 ^ 63
  reserved : ∀ d, 0 ≤ (b.reserved d).value

structure ChildTables where
  budgets : Keyed ChildBudgetRow.parentRunId ChildBudgetRow.Check
  tasks : Keyed ChildTaskRow.childRunId ChildTaskRow.Check

/-- `SET` of the four counters. -/
def ChildBudgetRow.setReserved (b : ChildBudgetRow) (f : Dimension → Sql.Number → Sql.Number) (now : Int) :
    ChildBudgetRow :=
  { b with tokensReserved := f .tokens b.tokensReserved, timeReservedMs := f .timeMs b.timeReservedMs,
           retriesReserved := f .retries b.retriesReserved, effectsReserved := f .effects b.effectsReserved,
           updatedAt := now }

@[simp] theorem ChildBudgetRow.reserved_setReserved (b : ChildBudgetRow) (f : Dimension → Sql.Number → Sql.Number)
    (now : Int) (d : Dimension) : (b.setReserved f now).reserved d = f d (b.reserved d) := by
  cases d <;> rfl

/-! ## Dependency cycles -/

namespace ChildDependencies

abbrev Graph := List (String × List String)

def visitAll (graph : Graph) (visit : String → List String → Option (List String) × List String) :
    List String → List String → Option (List String) × List String
  | [], complete => (none, complete)
  | d :: ds, complete =>
    if (Table.get d graph).isSome then
      match visit d complete with
      | (some cycle, complete) => (some cycle, complete)
      | (none, complete) => visitAll graph visit ds complete
    else visitAll graph visit ds complete

/-- `visit`; the active path has no run twice, so `fuel` is more than the runs of the graph. -/
def visit (graph : Graph) : Nat → List String → String → List String → Option (List String) × List String
  | 0, _, _, complete => (none, complete)
  | fuel + 1, active, node, complete =>
    match active.findIdx? (· == node) with
    | some position => (some (active.drop position ++ [node]), complete)
    | none =>
      if complete.contains node then (none, complete)
      else
        match visitAll graph (visit graph fuel (active ++ [node])) ((Table.get node graph).getD []) complete with
        | (some cycle, complete) => (some cycle, complete)
        | (none, complete) => (none, node :: complete)

end ChildDependencies

def childDependencyCycle (graph : ChildDependencies.Graph) : Option (List String) :=
  (ChildDependencies.visitAll graph (ChildDependencies.visit graph (graph.length + 1) []) (graph.map Prod.fst) []).1

structure ChildJson (J : Type) where
  toString : J → Except String String
  listToString : List String → Except String String
  parseList : String → Except String (List String)

structure ChildContract (J : Type) where
  parentRunId : String
  childRunId : String
  task : J
  taskHash : String
  trustCeiling : J
  budget : ChildExecutionBudget
  aggregate : ChildExecutionBudget
  dependencies : List String

structure EncodedContract where
  parentRunId : String
  childRunId : String
  taskJson : String
  taskHash : String
  trustCeilingJson : String
  budget : ChildExecutionBudget
  aggregate : ChildExecutionBudget
  dependencies : List String
  dependenciesJson : String
  budgetTokens : 0 < budget.tokens
  aggregateTokens : 0 < aggregate.tokens
  budgetTime : 0 < budget.timeMs
  aggregateTime : 0 < aggregate.timeMs
  budgetFits : budget.timeMs.toNat < 2 ^ 63
  aggregateFits : aggregate.timeMs.toNat < 2 ^ 63

def misfits (task aggregate : ChildExecutionBudget) : Bool :=
  task.tokens == 0 || aggregate.tokens == 0 || aggregate.tokens < task.tokens || task.timeMs == 0 ||
    aggregate.timeMs == 0 || aggregate.timeMs < task.timeMs || aggregate.retries < task.retries ||
    aggregate.effects < task.effects

def badDependencies (dependencies : List String) : Bool :=
  64 < dependencies.length || dependencies.any (fun d => 128 < d.utf8ByteSize) ||
    dependencies.dedup.length != dependencies.length

theorem budgets_pos {task aggregate : ChildExecutionBudget} (h : misfits task aggregate = false) :
    (0 < task.tokens ∧ 0 < aggregate.tokens) ∧ 0 < task.timeMs ∧ 0 < aggregate.timeMs := by
  simp only [misfits, Bool.or_eq_false_iff, beq_eq_false_iff_ne] at h
  obtain ⟨⟨⟨⟨⟨⟨⟨htask, hagg⟩, -⟩, htime⟩, haggTime⟩, -⟩, -⟩, -⟩ := h
  exact ⟨⟨UInt32.pos_iff_ne_zero.2 htask, UInt32.pos_iff_ne_zero.2 hagg⟩, UInt64.pos_iff_ne_zero.2 htime,
    UInt64.pos_iff_ne_zero.2 haggTime⟩

section Reserve

variable {J : Type} (json : ChildJson J)

def encodeContract (c : ChildContract J) : Except RunStoreError EncodedContract :=
  if hfit : misfits c.budget c.aggregate = false then
    if badDependencies c.dependencies then
      .error (.conflict "child dependency list exceeds its bounds or repeats an edge")
    else do
      let taskJson ← (json.toString c.task).mapError (fun e => .conflict ("encode child task: " ++ e))
      let trustJson ← (json.toString c.trustCeiling).mapError (fun e => .conflict ("encode child trust ceiling: " ++ e))
      let dependenciesJson ←
        (json.listToString c.dependencies).mapError (fun e => .conflict ("encode child dependencies: " ++ e))
      if 64 * 1024 < taskJson.utf8ByteSize || 8 * 1024 < trustJson.utf8ByteSize || c.taskHash.utf8ByteSize != 64 then
        .error (.conflict "child task contract is malformed or oversized")
      else if hbudget : c.budget.timeMs.toNat < 2 ^ 63 then
        if haggregate : c.aggregate.timeMs.toNat < 2 ^ 63 then
          .ok { parentRunId := c.parentRunId
                childRunId := c.childRunId
                taskJson := taskJson
                taskHash := c.taskHash
                trustCeilingJson := trustJson
                budget := c.budget
                aggregate := c.aggregate
                dependencies := c.dependencies
                dependenciesJson := dependenciesJson
                budgetTokens := (budgets_pos hfit).1.1
                aggregateTokens := (budgets_pos hfit).1.2
                budgetTime := (budgets_pos hfit).2.1
                aggregateTime := (budgets_pos hfit).2.2
                budgetFits := hbudget
                aggregateFits := haggregate }
        else .error (.conflict "parent time budget is too large")
      else .error (.conflict "child time budget is too large")
  else .error (.conflict "child budgets must be positive and fit the parent aggregate limits")

def decodeDependencies (r : ChildTaskRow) : Except DbError (String × List String) :=
  match json.parseList r.dependenciesJson with
  | .ok dependencies => .ok (r.childRunId, dependencies)
  | .error e => .error (.invariant ("stored child dependency list is invalid: " ++ e))

def ChildTables.children (t : ChildTables) (parentRunId : String) : List ChildTaskRow :=
  t.tasks.rows.filter (fun r => r.parentRunId == parentRunId)

def storedGraph (t : ChildTables) (parentRunId : String) : Except DbError ChildDependencies.Graph :=
  ((Table.orderBy ChildTaskRow.childRunId (t.children parentRunId)).take (maxChildTasksPerParent + 1)).mapM
    (decodeDependencies json)

def newChildBudget (c : EncodedContract) (now : Int) : ChildBudgetRow where
  parentRunId := c.parentRunId
  limit := c.aggregate
  tokensReserved := .integer 0
  timeReservedMs := .integer 0
  retriesReserved := .integer 0
  effectsReserved := .integer 0
  updatedAt := now

@[simp] theorem newChildBudget_reserved (c : EncodedContract) (now : Int) (d : Dimension) :
    (newChildBudget c now).reserved d = .integer 0 := by
  cases d <;> rfl

theorem newChildBudget_check (c : EncodedContract) (now : Int) : (newChildBudget c now).Check where
  tokens := c.aggregateTokens
  timeMs := c.aggregateTime
  fits := c.aggregateFits
  reserved := by simp [Sql.Number.value]

/-- `row.get` of a counter: the value, when the column holds one of its type. -/
def readReserved (b : ChildBudgetRow) (d : Dimension) : Except DbError Nat :=
  match b.reserved d with
  | .integer v => if 0 ≤ v ∧ v ≤ d.max then .ok v.toNat else .error (.sqlite "Integer out of range")
  | .real _ => .error (.sqlite "Invalid column type Real")

def readLimits (b : ChildBudgetRow) : Except DbError (Dimension → Nat) := do
  let tokens ← readReserved b .tokens
  let timeMs ← readReserved b .timeMs
  let retries ← readReserved b .retries
  let effects ← readReserved b .effects
  return fun
    | .tokens => tokens
    | .timeMs => timeMs
    | .retries => retries
    | .effects => effects

def withBudgetRow (c : EncodedContract) (now : Int) (t : ChildTables) : ChildTables :=
  { t with budgets := t.budgets.insertOrIgnore (newChildBudget c now) (newChildBudget_check c now) }

def admitChild (db : Db) (c : EncodedContract) (now : Int) (t : ChildTables) : Except DbError (Dimension → Nat) :=
  if (db.run c.parentRunId).isNone || (db.run c.childRunId).bind RunRow.parentRunId != some c.parentRunId then
    .error (.invariant "child contract must reference an existing child and parent run")
  else do
    let graph ← storedGraph json t c.parentRunId
    if maxChildTasksPerParent ≤ graph.length then .error (.invariant "parent child-task limit (128) reached")
    else
      match childDependencyCycle (Table.upsert c.childRunId c.dependencies graph) with
      | some cycle => .error (.invariant ("child dependency cycle rejected: " ++ " -> ".intercalate cycle))
      | none =>
        match (withBudgetRow c now t).budgets.row c.parentRunId with
        | none => .error (.sqlite "Query returned no rows")
        | some limits => do
          let reserved ← readLimits limits
          if limits.limit ≠ c.aggregate then
            .error (.invariant "parent aggregate child budget changed during a run")
          else .ok reserved

def ChildTaskRow.sameContract (r : ChildTaskRow) (c : EncodedContract) : Bool :=
  r.taskJson == c.taskJson && r.taskHash == c.taskHash && r.trustCeilingJson == c.trustCeilingJson &&
    r.dependenciesJson == c.dependenciesJson && r.budget == c.budget

def EncodedContract.row (c : EncodedContract) (now : Int) : ChildTaskRow where
  childRunId := c.childRunId
  parentRunId := c.parentRunId
  taskJson := c.taskJson
  taskHash := c.taskHash
  trustCeilingJson := c.trustCeilingJson
  budget := c.budget
  used := .none
  dependenciesJson := c.dependenciesJson
  resultArtifactId := none
  settled := false
  createdAt := now
  updatedAt := now

theorem EncodedContract.row_check (c : EncodedContract) (now : Int) : (c.row now).Check where
  tokens := c.budgetTokens
  timeMs := c.budgetTime
  fits := c.budgetFits
  usedFits := rfl
  unmeasured := fun _ => rfl

def Dimension.all : List Dimension := [.tokens, .timeMs, .retries, .effects]

def exhausted (reserved : Dimension → Nat) (c : EncodedContract) : Bool :=
  Dimension.all.any (fun d => c.aggregate.get d < d.saturatingAdd (reserved d) (c.budget.get d))

/-- The `UPDATE` of a reservation. -/
def reserveChange (budget : ChildExecutionBudget) (now : Int) :
    Change ChildBudgetRow.parentRunId ChildBudgetRow.Check where
  takes := fun _ => true
  set := fun b => b.setReserved (fun d x => (x.add (.integer (budget.get d))).store) now
  key_set := fun _ => rfl
  keeps_ok := by
    intro b hb _
    refine ⟨hb.tokens, hb.timeMs, hb.fits, fun d => ?_⟩
    rw [ChildBudgetRow.reserved_setReserved, Sql.Number.value_store]
    exact Sql.Number.value_add (hb.reserved d) (Int.natCast_nonneg _)

def storeChild (c : EncodedContract) (now : Int) (t : ChildTables) : ChildTables where
  budgets := (withBudgetRow c now t).budgets.update c.parentRunId (reserveChange c.budget now)
  tasks := t.tasks.insertOrIgnore (c.row now) (c.row_check now)

def reserveTx (db : Db) (c : EncodedContract) (now : Int) (t : ChildTables) : Except DbError (Bool × ChildTables) := do
  let reserved ← admitChild json db c now t
  match t.tasks.row c.childRunId with
  | some existing =>
    if existing.sameContract c then .ok (false, withBudgetRow c now t)
    else .error (.invariant "child run id was reused with a different task contract or budget")
  | none =>
    if exhausted reserved c then .error (.invariant "aggregate child execution budget exhausted")
    else .ok (true, storeChild c now t)

def reserveChildTaskWithBudgets (db : Db) (contract : ChildContract J) (now : Int) (t : ChildTables) :
    Except RunStoreError Bool × ChildTables :=
  match encodeContract json contract with
  | .error e => (.error e, t)
  | .ok c =>
    match reserveTx json db c now t with
    | .ok (created, t') => (.ok created, t')
    | .error e => (.error (.db e), t)

end Reserve

/-- The `UPDATE` of the parent's counters: each budget is replaced by its charge. -/
def settleBudgetChange (r : ChildTaskRow) (usage : ChildUsage) (now : Int) :
    Change ChildBudgetRow.parentRunId ChildBudgetRow.Check where
  takes := fun _ => true
  set := fun b => b.setReserved (fun d x =>
    ((x.sub (.integer (r.budget.get d))).add (.integer ((usage.get d).getD (r.budget.get d)))).maxZero.store) now
  key_set := fun _ => rfl
  keeps_ok := by
    intro b hb _
    refine ⟨hb.tokens, hb.timeMs, hb.fits, fun d => ?_⟩
    rw [ChildBudgetRow.reserved_setReserved, Sql.Number.value_store]
    exact Sql.Number.value_maxZero _

theorem timeFits_or {u v : ChildUsage} (hu : u.timeFits = true) (hv : v.timeFits = true) :
    (u.or v).timeFits = true := by
  unfold ChildUsage.timeFits ChildUsage.or at *
  cases h : u.timeMs with
  | none => simpa [h] using hv
  | some t => simpa [h] using hu

/-- The `UPDATE` of the child's row. -/
def settleTaskChange (parentRunId : String) (usage : ChildUsage) (hfits : usage.timeFits = true)
    (resultArtifactId : Option String) (now : Int) : Change ChildTaskRow.childRunId ChildTaskRow.Check where
  takes := fun r => r.parentRunId == parentRunId
  set := fun r =>
    { r with used := usage.or r.used, resultArtifactId := resultArtifactId.or r.resultArtifactId, settled := true,
             updatedAt := now }
  key_set := fun _ => rfl
  keeps_ok := fun _ hr _ => ⟨hr.tokens, hr.timeMs, hr.fits, timeFits_or hfits hr.usedFits, nofun⟩

def settleChild (parentRunId : String) (r : ChildTaskRow) (usage : ChildUsage) (hfits : usage.timeFits = true)
    (resultArtifactId : Option String) (now : Int) (t : ChildTables) : ChildTables where
  budgets := t.budgets.update parentRunId (settleBudgetChange r usage now)
  tasks := t.tasks.update r.childRunId (settleTaskChange parentRunId usage hfits resultArtifactId now)

def settleChildTaskWithUsage (parentRunId childRunId : String) (usage : ChildUsage) (resultArtifactId : Option String)
    (now : Int) (t : ChildTables) : Except RunStoreError Unit × ChildTables :=
  if hfits : usage.timeFits = true then
    match (t.tasks.row childRunId).filter (fun r => r.parentRunId == parentRunId) with
    | none => (.error (.db (.invariant "child task contract was not found")), t)
    | some r =>
      if r.settled then (.ok (), t) else (.ok (), settleChild parentRunId r usage hfits resultArtifactId now t)
  else (.error (.conflict "child time usage is too large"), t)

end Execlaw
