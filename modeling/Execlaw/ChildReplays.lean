import Execlaw.ChildBudgets
import Execlaw.ChildCycles
/-!
# ChildReplays — contracts are kept, and their dependencies stay acyclic

A call stores one new contract or none, and changes none that is stored; a contract is stored only where the graph of
its parent's children, with it, has no cycle.  So a contract that was accepted is still there when it is submitted
again.  The replay passes the same guards as the first submission: it is refused where the parent has all the children
it may have, and where a counter of the parent has outgrown the type it is read as.
-/
namespace Execlaw

open Table Steps Cycles

/-! ## Contracts -/

structure ChildTerms where
  parentRunId : String
  taskJson : String
  taskHash : String
  trustCeilingJson : String
  dependenciesJson : String
  budget : ChildExecutionBudget

def ChildTaskRow.terms (r : ChildTaskRow) : ChildTerms :=
  ⟨r.parentRunId, r.taskJson, r.taskHash, r.trustCeilingJson, r.dependenciesJson, r.budget⟩

def EncodedContract.terms (c : EncodedContract) : ChildTerms :=
  ⟨c.parentRunId, c.taskJson, c.taskHash, c.trustCeilingJson, c.dependenciesJson, c.budget⟩

namespace ChildTables

def terms (t : ChildTables) (k : String) : Option ChildTerms := (t.tasks.row k).map ChildTaskRow.terms

def limit (t : ChildTables) (p : String) : Option ChildExecutionBudget := (t.budgets.row p).map ChildBudgetRow.limit

/-- A child of `p` whose stored list names another child of `p`. -/
def Waits {J : Type} (json : ChildJson J) (t : ChildTables) (p a b : String) : Prop :=
  (∃ s deps, t.terms a = some s ∧ s.parentRunId = p ∧ json.parseList s.dependenciesJson = .ok deps ∧ b ∈ deps) ∧
    ∃ s, t.terms b = some s ∧ s.parentRunId = p

end ChildTables

/-- What `serde_json` encodes of a list of strings, it decodes. -/
def ChildJson.RoundTrips {J : Type} (json : ChildJson J) : Prop :=
  ∀ l s, json.listToString l = .ok s → json.parseList s = .ok l

/-- **The runs behind the tables**: a run keeps the parent it was created with, and the tables' keys are runs. -/
structure Db.Backs (db : Db) (parentOf : String → Option String) (t : ChildTables) : Prop where
  parents : ∀ r ∈ db.runs, r.parentRunId = parentOf r.runId
  stored : ∀ r ∈ t.tasks.rows, (db.run r.childRunId).isSome = true ∧ (db.run r.parentRunId).isSome = true

section Replays

variable {J : Type} (json : ChildJson J)

def lineageStep (parentOf : String → Option String) (t : ChildTables) (a : Db × ChildCall J) (t' : ChildTables) :
    Prop :=
  a.1.Backs parentOf t ∧ childStep json t a t'

variable {json} {db : Db} {t : ChildTables} {contract : ChildContract J} {c : EncodedContract} {now : Int}
  {parentOf : String → Option String} {p : String}

theorem terms_withBudgetRow (k : String) : (withBudgetRow c now t).terms k = t.terms k := rfl

theorem terms_storeChild (hnone : t.tasks.row c.childRunId = none) (k : String) :
    (storeChild c now t).terms k = if k = c.childRunId then some c.terms else t.terms k := by
  show ((t.tasks.insertOrIgnore (c.row now) (c.row_check now)).row k).map ChildTaskRow.terms = _
  have hkey : (c.row now).childRunId = c.childRunId := rfl
  rw [Keyed.row_insertOrIgnore, hkey]
  by_cases hk : k = c.childRunId
  · subst hk
    rw [hnone, Option.none_or, if_pos rfl, if_pos rfl]
    rfl
  · rw [if_neg (Ne.symm hk), if_neg hk, Option.or_none]
    rfl

variable {r : ChildTaskRow}

theorem terms_settleChild {usage : ChildUsage} {hfits : usage.timeFits = true} {artifact : Option String} (k : String) :
    (settleChild p r usage hfits artifact now t).terms k = t.terms k :=
  Keyed.map_row_update t.tasks r.childRunId k (settleTaskChange p usage hfits artifact now) fun _ => rfl

theorem exec_terms (json : ChildJson J) (db : Db) (call : ChildCall J) (t : ChildTables) :
    (∀ k, (call.exec json db t).terms k = t.terms k) ∨
    ∃ contract now c reserved, call = .reserve contract now ∧ encodeContract json contract = .ok c ∧
      admitChild json db c now t = .ok reserved ∧ t.terms c.childRunId = none ∧
      ∀ k, (call.exec json db t).terms k = if k = c.childRunId then some c.terms else t.terms k := by
  cases call with
  | reserve contract now =>
    rw [ChildCall.exec]
    rcases reserve_cases json db contract now t with
      ⟨e, heq⟩ | ⟨c, reserved, hc, hgranted, ⟨r, -, heq⟩ | ⟨hnone, -, heq⟩⟩
    · rw [heq]
      exact .inl fun _ => rfl
    · rw [heq]
      exact .inl terms_withBudgetRow
    · rw [heq]
      exact .inr ⟨contract, now, c, reserved, rfl, hc, hgranted, by rw [ChildTables.terms, hnone]; rfl,
        terms_storeChild hnone⟩
  | settle p child usage artifact now =>
    rw [ChildCall.exec]
    rcases settle_cases p child usage artifact now t with heq | ⟨hfits, r, -, -, -, heq⟩
    · rw [heq]
      exact .inl fun _ => rfl
    · rw [heq]
      exact .inl terms_settleChild

variable {l : ChildExecutionBudget}

theorem limit_withBudgetRow (h : t.limit p = some l) : (withBudgetRow c now t).limit p = some l := by
  obtain ⟨b, hb, rfl⟩ := Option.map_eq_some_iff.1 h
  rw [ChildTables.limit, row_withBudgetRow, hb]
  rfl

theorem exec_limit (json : ChildJson J) (db : Db) (call : ChildCall J) (h : t.limit p = some l) :
    (call.exec json db t).limit p = some l := by
  cases call with
  | reserve contract now =>
    rw [ChildCall.exec]
    rcases reserve_cases json db contract now t with ⟨e, heq⟩ | ⟨c, reserved, -, -, ⟨r, -, heq⟩ | ⟨-, -, heq⟩⟩
    · rw [heq]
      exact h
    · rw [heq]
      exact limit_withBudgetRow h
    · rw [heq]
      exact (Keyed.map_row_update _ c.parentRunId p (reserveChange c.budget now) fun _ => rfl).trans
        (limit_withBudgetRow h)
  | settle q child usage artifact now =>
    rw [ChildCall.exec]
    rcases settle_cases q child usage artifact now t with heq | ⟨hfits, r, -, -, -, heq⟩
    · rw [heq]
      exact h
    · rw [heq]
      exact (Keyed.map_row_update t.budgets q p (settleBudgetChange r usage now) fun _ => rfl).trans h

/-! ## The graph a reservation reads -/

theorem decodeDependencies_ok {e : String × List String} :
    decodeDependencies json r = .ok e ↔ r.childRunId = e.1 ∧ json.parseList r.dependenciesJson = .ok e.2 := by
  unfold decodeDependencies
  cases json.parseList r.dependenciesJson with
  | error e => simp
  | ok deps => simp [Prod.ext_iff]

variable {g : ChildDependencies.Graph}

theorem get_of_decoded {rows : List ChildTaskRow}
    (h : List.Forall₂ (fun r e => decodeDependencies json r = .ok e) rows g) (k : String) (deps : List String) :
    Table.get k g = some deps ↔
      ∃ r, byKey ChildTaskRow.childRunId k rows = some r ∧ json.parseList r.dependenciesJson = .ok deps := by
  induction h with
  | nil => simp [Table.get, byKey]
  | @cons r e rows g he _ ih =>
    obtain ⟨hkey, hdeps⟩ := decodeDependencies_ok.1 he
    rw [Table.get, byKey_cons, hkey]
    by_cases hk : e.1 = k
    · simp [hk, hdeps]
    · rw [if_neg hk, if_neg hk, ih]

theorem mem_children : r ∈ t.children p ↔ r ∈ t.tasks.rows ∧ r.parentRunId = p := by
  simp [ChildTables.children]

theorem row_children (k : String) (r : ChildTaskRow) :
    byKey ChildTaskRow.childRunId k (t.children p) = some r ↔ t.tasks.row k = some r ∧ r.parentRunId = p := by
  have hunique : ((t.children p).map ChildTaskRow.childRunId).Nodup :=
    t.tasks.unique.sublist (List.filter_sublist.map _)
  rw [byKey_iff hunique, mem_children, Keyed.row_iff]
  exact and_right_comm

theorem take_children (h : t.count p ≤ maxChildTasksPerParent) :
    (orderBy ChildTaskRow.childRunId (t.children p)).take (maxChildTasksPerParent + 1) =
      orderBy ChildTaskRow.childRunId (t.children p) := by
  refine List.take_of_length_le ?_
  rw [orderBy, List.length_insertionSort, length_children]
  omega

theorem get_storedGraph (h : storedGraph json t p = .ok g) (hfew : t.count p ≤ maxChildTasksPerParent) (k : String)
    (deps : List String) : Table.get k g = some deps ↔
      ∃ s, t.terms k = some s ∧ s.parentRunId = p ∧ json.parseList s.dependenciesJson = .ok deps := by
  rw [storedGraph, take_children hfew] at h
  rw [get_of_decoded (mapM_eq_ok_iff.1 h), byKey_orderBy]
  constructor
  · rintro ⟨r, hr, hdeps⟩
    obtain ⟨hrow, hparent⟩ := (row_children k r).1 hr
    exact ⟨r.terms, by rw [ChildTables.terms, hrow]; rfl, hparent, hdeps⟩
  · rintro ⟨s, hs, hparent, hdeps⟩
    obtain ⟨r, hrow, rfl⟩ := Option.map_eq_some_iff.1 hs
    exact ⟨r, (row_children k r).2 ⟨hrow, hparent⟩, hdeps⟩

theorem storedGraph_isOk (h : ∀ k s, t.terms k = some s → ∃ deps, json.parseList s.dependenciesJson = .ok deps)
    (p : String) : ∃ g, storedGraph json t p = .ok g := by
  have hdecode : ∀ r ∈ (orderBy ChildTaskRow.childRunId (t.children p)).take (maxChildTasksPerParent + 1),
      ∃ e, decodeDependencies json r = .ok e := by
    intro r hr
    have hmem := (mem_children.1 ((mem_orderBy _).1 (List.mem_of_mem_take hr))).1
    have hrow : t.tasks.row r.childRunId = some r := Keyed.row_iff.2 ⟨hmem, rfl⟩
    obtain ⟨deps, hdeps⟩ := h r.childRunId r.terms (by rw [ChildTables.terms, hrow]; rfl)
    exact ⟨(r.childRunId, deps), decodeDependencies_ok.2 ⟨rfl, hdeps⟩⟩
  unfold storedGraph
  generalize (orderBy ChildTaskRow.childRunId (t.children p)).take _ = rows at hdecode
  induction rows with
  | nil => exact ⟨[], rfl⟩
  | cons r rows ih =>
    obtain ⟨e, he⟩ := hdecode r List.mem_cons_self
    obtain ⟨g, hg⟩ := ih fun r' hr' => hdecode r' (List.mem_cons_of_mem r hr')
    exact ⟨e :: g, mapM_eq_ok_iff.2 (.cons he (mapM_eq_ok_iff.1 hg))⟩

theorem length_storedGraph (h : storedGraph json t p = .ok g) :
    g.length = min (maxChildTasksPerParent + 1) (t.count p) := by
  rw [length_of_mapM h, List.length_take, orderBy, List.length_insertionSort, length_children]

/-! ## Admission -/

variable {reserved : Dimension → Nat}

theorem admitChild_iff : admitChild json db c now t = .ok reserved ↔
    (db.run c.parentRunId).isSome = true ∧ (db.run c.childRunId).bind RunRow.parentRunId = some c.parentRunId ∧
    ∃ g, storedGraph json t c.parentRunId = .ok g ∧ g.length < maxChildTasksPerParent ∧
      childDependencyCycle (Table.upsert c.childRunId c.dependencies g) = none ∧
      ∃ b, (withBudgetRow c now t).budgets.row c.parentRunId = some b ∧ readLimits b = .ok reserved ∧
        b.limit = c.aggregate := by
  unfold admitChild
  by_cases hruns : (db.run c.parentRunId).isSome = true ∧
      (db.run c.childRunId).bind RunRow.parentRunId = some c.parentRunId
  · obtain ⟨hparent, hchild⟩ := hruns
    rw [if_neg (by simp [hchild, Option.isSome_iff_ne_none.1 hparent])]
    simp only [hparent, hchild, true_and]
    rw [bind_eq_ok]
    refine exists_congr fun g => and_congr_right fun _ => ?_
    by_cases hfew : g.length < maxChildTasksPerParent
    · rw [if_neg (Nat.not_le.2 hfew)]
      cases hcycle : childDependencyCycle (Table.upsert c.childRunId c.dependencies g) with
      | some cycle => simp
      | none =>
        cases hrow : (withBudgetRow c now t).budgets.row c.parentRunId with
        | none => simp
        | some b =>
          rw [bind_eq_ok]
          by_cases hlimit : b.limit = c.aggregate
          · simp [hfew, hlimit]
          · simp [hlimit]
    · rw [if_pos (Nat.not_lt.1 hfew)]
      simp [hfew]
  · rw [if_pos (by
      rw [Bool.or_eq_true, Option.isNone_iff_eq_none, bne_iff_ne]
      by_contra hno
      rw [not_or, not_not] at hno
      exact hruns ⟨Option.isSome_iff_ne_none.2 hno.1, hno.2⟩)]
    constructor
    · exact nofun
    · rintro ⟨hparent, hchild, -⟩
      exact absurd ⟨hparent, hchild⟩ hruns

theorem readReserved_eq {b : ChildBudgetRow} {d : Dimension} {n : Nat} (h : b.reserved d = .integer n)
    (hn : n ≤ d.max) : readReserved b d = .ok n := by
  rw [readReserved, h]
  simp [hn]

theorem readLimits_isOk {b : ChildBudgetRow} :
    (∃ reserved, readLimits b = .ok reserved) ↔
      ∀ d, ∃ n : Nat, n ≤ Dimension.max d ∧ b.reserved d = .integer n := by
  constructor
  · rintro ⟨reserved, h⟩ d
    exact ⟨reserved d, (readLimits_ok h d).2, (readLimits_ok h d).1⟩
  · intro h
    choose n hn using h
    unfold readLimits
    simp only [readReserved_eq (hn _).2 (hn _).1]
    exact ⟨_, rfl⟩

theorem encodeContract_dependencies (h : encodeContract json contract = .ok c) :
    json.listToString c.dependencies = .ok c.dependenciesJson := by
  unfold encodeContract at h
  split at h
  · split at h
    · cases h
    · obtain ⟨taskJson, -, h⟩ := bind_eq_ok.1 h
      obtain ⟨trustJson, -, h⟩ := bind_eq_ok.1 h
      obtain ⟨dependenciesJson, hjson, h⟩ := bind_eq_ok.1 h
      split at h
      · cases h
      · split at h
        · split at h
          · cases h
            cases hlist : json.listToString contract.dependencies with
            | error e => rw [hlist] at hjson; cases hjson
            | ok s =>
              rw [hlist] at hjson
              exact congrArg Except.ok (Except.ok.inj hjson)
          · cases h
        · cases h
  · cases h

/-! ## What every call keeps -/

theorem isSome_of_bind {α β : Type} {o : Option α} {f : α → Option β} {b : β} (h : o.bind f = some b) :
    o.isSome = true := by
  obtain ⟨a, rfl, -⟩ := Option.bind_eq_some_iff.1 h
  rfl

theorem Db.Backs.parentRunId (h : db.Backs parentOf t) {id : String} (hrun : (db.run id).isSome = true) :
    (db.run id).bind RunRow.parentRunId = parentOf id := by
  obtain ⟨r, hr⟩ := Option.isSome_iff_exists.1 hrun
  rw [hr, Option.bind_some, h.parents r (mem_of_byKey hr), key_of_byKey hr]

/-- **The invariant of the stored contracts**: each belongs to its run's parent and has a list that was encoded, and
no parent has children that wait for each other in a circle. -/
structure ChildTables.Family (json : ChildJson J) (parentOf : String → Option String) (t : ChildTables) : Prop where
  parents : ∀ k s, t.terms k = some s → parentOf k = some s.parentRunId
  lists : ∀ k s, t.terms k = some s → ∃ l, json.listToString l = .ok s.dependenciesJson
  acyclic : ∀ p, Acyclic (t.Waits json p)

variable {t' : ChildTables}

theorem ChildTables.waits_congr (h : ∀ k, t'.terms k = t.terms k) (p a b : String) :
    t'.Waits json p a b ↔ t.Waits json p a b := by
  simp [ChildTables.Waits, h]

theorem ChildTables.Family.empty : ChildTables.empty.Family json parentOf where
  parents := nofun
  lists := nofun
  acyclic := by
    intro p a hcycle
    obtain ⟨b, ⟨⟨s, deps, hs, -⟩, -⟩, -⟩ := Relation.TransGen.head'_iff.1 hcycle
    cases hs

theorem edge_upsert (hg : storedGraph json t c.parentRunId = .ok g)
    (hfew : t.count c.parentRunId ≤ maxChildTasksPerParent)
    (hterms : ∀ k, t'.terms k = if k = c.childRunId then some c.terms else t.terms k)
    (hlist : json.parseList c.dependenciesJson = .ok c.dependencies)
    (hlists : ∀ k s, t.terms k = some s → ∃ deps, json.parseList s.dependenciesJson = .ok deps) (a b : String) :
    ChildDependencies.Edge (Table.upsert c.childRunId c.dependencies g) a b ↔ t'.Waits json c.parentRunId a b := by
  have hentry : ∀ k deps, Table.get k (Table.upsert c.childRunId c.dependencies g) = some deps ↔
      ∃ s, t'.terms k = some s ∧ s.parentRunId = c.parentRunId ∧ json.parseList s.dependenciesJson = .ok deps := by
    intro k deps
    rw [hterms]
    by_cases hk : k = c.childRunId
    · subst hk
      rw [get_upsert_self, if_pos rfl]
      constructor
      · intro h
        cases h
        exact ⟨c.terms, rfl, rfl, hlist⟩
      · rintro ⟨s, hs, -, hdeps⟩
        cases hs
        exact congrArg some (Except.ok.inj (hlist.symm.trans hdeps))
    · rw [get_upsert_of_ne hk, if_neg hk]
      exact get_storedGraph hg hfew k deps
  constructor
  · rintro ⟨⟨deps, hdeps, hb⟩, hkey⟩
    obtain ⟨s, hs, hparent, hparse⟩ := (hentry a deps).1 hdeps
    obtain ⟨deps', hdeps'⟩ := Option.isSome_iff_exists.1 hkey
    obtain ⟨s', hs', hparent', -⟩ := (hentry b deps').1 hdeps'
    exact ⟨⟨s, deps, hs, hparent, hparse, hb⟩, s', hs', hparent'⟩
  · rintro ⟨⟨s, deps, hs, hparent, hparse, hb⟩, s', hs', hparent'⟩
    refine ⟨⟨deps, (hentry a deps).2 ⟨s, hs, hparent, hparse⟩, hb⟩, ?_⟩
    obtain ⟨deps', hdeps'⟩ : ∃ deps', json.parseList s'.dependenciesJson = .ok deps' := by
      rw [hterms] at hs'
      split at hs'
      · cases hs'
        exact ⟨_, hlist⟩
      · exact hlists b s' hs'
    exact Option.isSome_of_eq_some ((hentry b deps').2 ⟨s', hs', hparent', hdeps'⟩)

theorem ChildTables.Family.parse (hjson : json.RoundTrips) (h : t.Family json parentOf) (k : String) (s : ChildTerms)
    (hs : t.terms k = some s) : ∃ deps, json.parseList s.dependenciesJson = .ok deps := by
  obtain ⟨l, hl⟩ := h.lists k s hs
  exact ⟨l, hjson l _ hl⟩

theorem ChildTables.Family.store (hjson : json.RoundTrips) (h : t.Family json parentOf) (hbacks : db.Backs parentOf t)
    (hc : encodeContract json contract = .ok c) (hgranted : admitChild json db c now t = .ok reserved)
    (hterms : ∀ k, t'.terms k = if k = c.childRunId then some c.terms else t.terms k) : t'.Family json parentOf := by
  obtain ⟨-, hchild, g, hg, -, hcycle, -⟩ := admitChild_iff.1 hgranted
  have hencoded := encodeContract_dependencies hc
  refine ⟨fun k s hs => ?_, fun k s hs => ?_, fun p => ?_⟩
  · rw [hterms] at hs
    split at hs
    · next hk =>
      cases hs
      rw [hk, ← hbacks.parentRunId (isSome_of_bind hchild)]
      exact hchild
    · exact h.parents k s hs
  · rw [hterms] at hs
    split at hs
    · cases hs
      exact ⟨_, hencoded⟩
    · exact h.lists k s hs
  · by_cases hp : p = c.parentRunId
    · subst hp
      refine (Acyclic.congr fun a b => ?_).1 (childDependencyCycle_eq_none_iff.1 hcycle)
      exact edge_upsert hg (admitChild_ok hgranted).1.le hterms (hjson _ _ hencoded) (h.parse hjson) a b
    · -- the contract is no child of another parent
      refine (h.acyclic p).mono ?_
      rintro a b ⟨⟨s, deps, hs, hparent, hparse, hb⟩, s', hs', hparent'⟩
      have hold : ∀ k s, t'.terms k = some s → s.parentRunId = p → t.terms k = some s := by
        intro k s hs hparent
        rw [hterms] at hs
        split at hs
        · cases hs
          exact absurd hparent.symm hp
        · exact hs
      exact ⟨⟨s, deps, hold a s hs hparent, hparent, hparse, hb⟩, s', hold b s' hs' hparent', hparent'⟩

theorem lineageStep_family (hjson : json.RoundTrips) {a : Db × ChildCall J} (h : t.Family json parentOf)
    (hstep : lineageStep json parentOf t a t') : t'.Family json parentOf := by
  obtain ⟨db, call⟩ := a
  obtain ⟨hbacks, rfl⟩ := hstep
  rcases exec_terms json db call t with hsame | ⟨contract, now, c, reserved, -, hc, hgranted, -, hterms⟩
  · refine ⟨fun k s hs => h.parents k s (hsame k ▸ hs), fun k s hs => h.lists k s (hsame k ▸ hs), fun p => ?_⟩
    exact (Acyclic.congr (ChildTables.waits_congr hsame p)).2 (h.acyclic p)
  · exact h.store hjson hbacks hc hgranted hterms

variable {calls : List (Db × ChildCall J)}

theorem run_family (hjson : json.RoundTrips) (h : t.Family json parentOf)
    (hrun : Run (lineageStep json parentOf) t calls t') : t'.Family json parentOf :=
  run_invariant hrun h fun _ _ _ hf hstep => lineageStep_family hjson hf hstep

/-- **An accepted contract is there for good**, with its parent's aggregate budget. -/
structure ChildTables.Holds (t : ChildTables) (c : EncodedContract) : Prop where
  terms : t.terms c.childRunId = some c.terms
  limit : t.limit c.parentRunId = some c.aggregate

theorem exec_holds {call : ChildCall J} (h : t.Holds c) : (call.exec json db t).Holds c where
  terms := by
    rcases exec_terms json db call t with hsame | ⟨contract, now, c', reserved, -, -, -, hnone, hterms⟩
    · exact (hsame _).trans h.terms
    · rw [hterms, if_neg (fun hk => by rw [← hk, h.terms] at hnone; cases hnone)]
      exact h.terms
  limit := exec_limit json db call h.limit

theorem run_holds (h : t.Holds c) (hrun : Run (lineageStep json parentOf) t calls t') : t'.Holds c :=
  run_invariant (P := fun t => t.Holds c) hrun h fun _ _ _ hc hstep => by
    rw [hstep.2]
    exact exec_holds hc

theorem sameContract_iff (h : r.parentRunId = c.parentRunId) : r.sameContract c = true ↔ r.terms = c.terms := by
  simp only [ChildTaskRow.sameContract, ChildTaskRow.terms, EncodedContract.terms, Bool.and_eq_true, beq_iff_eq,
    ChildTerms.mk.injEq, h, true_and]
  tauto

/-! ## Replays -/

theorem reserve_refused (hc : encodeContract json contract = .ok c) {e : DbError}
    (h : admitChild json db c now t = .error e) :
    reserveChildTaskWithBudgets json db contract now t = (.error (.db e), t) := by
  simp [reserveChildTaskWithBudgets, hc, reserveTx, h, bind, Except.bind]

theorem reserve_stored (hc : encodeContract json contract = .ok c)
    (hgranted : admitChild json db c now t = .ok reserved) (hr : t.tasks.row c.childRunId = some r) :
    reserveChildTaskWithBudgets json db contract now t =
      if r.sameContract c then (.ok false, withBudgetRow c now t)
      else (.error (.db (.invariant "child run id was reused with a different task contract or budget")), t) := by
  cases hsame : r.sameContract c <;>
    simp [reserveChildTaskWithBudgets, hc, reserveTx, hgranted, bind, Except.bind, hr, hsame]

theorem holds_of_reserve (hfamily : t.Family json parentOf) (hbacks : db.Backs parentOf t) {created : Bool}
    (h : (reserveChildTaskWithBudgets json db contract now t).1 = .ok created) :
    ∃ c, encodeContract json contract = .ok c ∧ (reserveChildTaskWithBudgets json db contract now t).2.Holds c := by
  rcases reserve_cases json db contract now t with ⟨e, heq⟩ | ⟨c, reserved, hc, hgranted, hcases⟩
  · rw [heq] at h
    cases h
  obtain ⟨-, hchild, g, -, -, -, b, hb, -, hlimit⟩ := admitChild_iff.1 hgranted
  have hlimit : (withBudgetRow c now t).limit c.parentRunId = some c.aggregate := by
    rw [ChildTables.limit, hb, ← hlimit]
    rfl
  refine ⟨c, hc, ?_⟩
  rcases hcases with ⟨r, hr, heq⟩ | ⟨hnone, -, heq⟩
  · rw [heq]
    have hterms : t.terms c.childRunId = some r.terms := by rw [ChildTables.terms, hr]; rfl
    have hparent : r.parentRunId = c.parentRunId := by
      have hfixed := hfamily.parents _ _ hterms
      rw [← hbacks.parentRunId (isSome_of_bind hchild), hchild] at hfixed
      exact (Option.some.inj hfixed).symm
    have hsame : r.sameContract c = true := by
      by_contra hdiff
      rw [reserve_stored hc hgranted hr, if_neg hdiff] at h
      cases h
    exact ⟨by rw [terms_withBudgetRow, hterms, (sameContract_iff hparent).1 hsame], hlimit⟩
  · rw [heq]
    refine ⟨by rw [terms_storeChild hnone, if_pos rfl], ?_⟩
    exact (Keyed.map_row_update _ c.parentRunId c.parentRunId (reserveChange c.budget now) fun _ => rfl).trans hlimit

theorem admitted_iff (hjson : json.RoundTrips) (hfamily : t.Family json parentOf) (hbacks : db.Backs parentOf t)
    (hc : encodeContract json contract = .ok c) (hholds : t.Holds c) :
    (∃ reserved, admitChild json db c now t = .ok reserved) ↔ t.count c.parentRunId < maxChildTasksPerParent ∧
      ∀ d, ∃ n : Nat, n ≤ Dimension.max d ∧ t.counter c.parentRunId d = .integer n := by
  obtain ⟨r, hr, hterms⟩ := Option.map_eq_some_iff.1 hholds.terms
  obtain ⟨b, hb, hlimit⟩ := Option.map_eq_some_iff.1 hholds.limit
  have hparent : r.parentRunId = c.parentRunId := congrArg ChildTerms.parentRunId hterms
  have hb' : (withBudgetRow c now t).budgets.row c.parentRunId = some b := by
    rw [row_withBudgetRow, hb, Option.some_or]
  have hcounter : ∀ d, t.counter c.parentRunId d = b.reserved d := fun d => by rw [ChildTables.counter, hb]; rfl
  simp only [hcounter]
  rw [← readLimits_isOk]
  obtain ⟨g, hg⟩ := storedGraph_isOk (hfamily.parse hjson) c.parentRunId
  have hlen := length_storedGraph hg
  constructor
  · rintro ⟨reserved, hgranted⟩
    obtain ⟨-, -, g', hg', hfew, -, b', hrow, hread, -⟩ := admitChild_iff.1 hgranted
    cases hg.symm.trans hg'
    cases hb'.symm.trans hrow
    unfold maxChildTasksPerParent at *
    exact ⟨by omega, reserved, hread⟩
  · rintro ⟨hfew, reserved, hread⟩
    have hruns := hbacks.stored r (Keyed.row_iff.1 hr).1
    rw [Keyed.key_of_row hr, hparent] at hruns
    have hchild : (db.run c.childRunId).bind RunRow.parentRunId = some c.parentRunId := by
      rw [hbacks.parentRunId hruns.1, hfamily.parents _ _ hholds.terms]
      rfl
    refine ⟨reserved, admitChild_iff.2 ⟨hruns.2, hchild, g, hg, by omega, ?_, b, hb', hread, hlimit⟩⟩
    -- the contract is one of the stored ones, so the graph with it is the stored one
    refine childDependencyCycle_eq_none_iff.2 ((Acyclic.congr fun x y => ?_).2 (hfamily.acyclic c.parentRunId))
    refine edge_upsert hg hfew.le (fun k => ?_) (hjson _ _ (encodeContract_dependencies hc)) (hfamily.parse hjson) x y
    split
    · next hk => rw [hk, hholds.terms]
    · rfl

theorem replay_iff (hjson : json.RoundTrips) (hfamily : t.Family json parentOf) (hbacks : db.Backs parentOf t)
    (hc : encodeContract json contract = .ok c) (hholds : t.Holds c) :
    reserveChildTaskWithBudgets json db contract now t = (.ok false, t) ↔
      t.count c.parentRunId < maxChildTasksPerParent ∧
        ∀ d, ∃ n : Nat, n ≤ Dimension.max d ∧ t.counter c.parentRunId d = .integer n := by
  have hadmitted : (∃ reserved, admitChild json db c now t = .ok reserved) ↔ _ :=
    admitted_iff hjson hfamily hbacks hc hholds
  rw [← hadmitted]
  cases hgranted : admitChild json db c now t with
  | error e =>
    rw [reserve_refused hc hgranted]
    constructor
    · intro h
      cases congrArg Prod.fst h
    · rintro ⟨reserved, h⟩
      cases h
  | ok reserved =>
    refine iff_of_true ?_ ⟨reserved, rfl⟩
    obtain ⟨r, hr, hterms⟩ := Option.map_eq_some_iff.1 hholds.terms
    obtain ⟨b, hb, -⟩ := Option.map_eq_some_iff.1 hholds.limit
    have hsame := (sameContract_iff (congrArg ChildTerms.parentRunId hterms)).2 hterms
    have hrow : (t.budgets.row (newChildBudget c now).parentRunId).isSome = true := Option.isSome_of_eq_some hb
    rw [reserve_stored hc hgranted hr, if_pos hsame, withBudgetRow, Keyed.insertOrIgnore_of_isSome _ hrow]

/-- **Replays are idempotent while the guards let them, and dependencies are acyclic.**  In every reachable state the
children of a parent wait for each other without a circle, and an accepted contract that is submitted again is found
and changes nothing exactly while its parent has room for another child and each counter of the parent fits its type.
The search behind it returns on every graph, finds nothing exactly where there is no cycle, and shows one otherwise. -/
theorem child_replays_iff (hjson : json.RoundTrips) {calls : List (Db × ChildCall J)}
    (hrun : Run (lineageStep json parentOf) .empty calls t) :
    (∀ p, Acyclic (t.Waits json p)) ∧
    (∀ db contract now created, db.Backs parentOf t →
      (reserveChildTaskWithBudgets json db contract now t).1 = .ok created →
      ∀ later t', Run (lineageStep json parentOf) (reserveChildTaskWithBudgets json db contract now t).2 later t' →
      ∀ db' now', Db.Backs db' parentOf t' →
        (reserveChildTaskWithBudgets json db' contract now' t' = (.ok false, t') ↔
          t'.count contract.parentRunId < maxChildTasksPerParent ∧
            ∀ d, ∃ n : Nat, n ≤ Dimension.max d ∧ t'.counter contract.parentRunId d = .integer n)) ∧
    ∀ g, (∃ complete, ChildDependencies.VisitsAll g [] (g.map Prod.fst) [] (childDependencyCycle g, complete)) ∧
      (childDependencyCycle g = none ↔ Acyclic (ChildDependencies.Edge g)) ∧
      ∀ cycle, childDependencyCycle g = some cycle → ClosedWalk (ChildDependencies.Edge g) cycle := by
  have hfamily := run_family hjson .empty hrun
  refine ⟨hfamily.acyclic, ?_, fun g => ⟨?_, childDependencyCycle_eq_none_iff,
    fun cycle => closedWalk_of_childDependencyCycle⟩⟩
  · intro db contract now created hbacks hok later t' hlater db' now' hbacks'
    obtain ⟨c, hc, hholds⟩ := holds_of_reserve hfamily hbacks hok
    have hstep : lineageStep json parentOf t (db, .reserve contract now)
        (reserveChildTaskWithBudgets json db contract now t).2 := ⟨hbacks, rfl⟩
    have hfamily' := run_family hjson (lineageStep_family hjson hfamily hstep) hlater
    rw [← (encodeContract_ok hc).1]
    exact replay_iff hjson hfamily' hbacks' hc (run_holds hholds hlater)
  · obtain ⟨complete, hreturns, -⟩ := childDependencyCycle_spec g
    exact ⟨complete, hreturns⟩

end Replays

/-! ## A child that waits for its sibling -/

def sampleListJson : ChildJson String where
  toString := .ok
  listToString := fun l => if l = [] then .ok "[]" else if l = ["x"] then .ok "[\"x\"]" else .error "not modelled"
  parseList := fun text =>
    if text = "[]" then .ok [] else if text = "[\"x\"]" then .ok ["x"] else .error "not modelled"

theorem sampleListJson_roundTrips : sampleListJson.RoundTrips := by
  intro l s h
  simp only [sampleListJson] at h ⊢
  split at h
  · cases h
    next hl => simp [hl]
  · split at h
    · cases h
      next hl => simp [hl]
    · cases h

def sampleParents (id : String) : Option String := if id = "x" ∨ id = "y" then some "p" else none

/-- `y` waits for `x`. -/
def waitingContract : ChildContract String := { tokenContract "y" 4 10 with dependencies := ["x"] }

theorem sampleFamily_backs {t : ChildTables} (h : ∀ r ∈ t.tasks.rows, (r.childRunId = "x" ∨ r.childRunId = "y") ∧
    r.parentRunId = "p") : sampleFamily.Backs sampleParents t where
  parents := by decide
  stored := by
    intro r hr
    obtain ⟨hchild | hchild, hparent⟩ := h r hr <;> rw [hchild, hparent] <;> decide

def waitingTables : ChildTables :=
  (ChildCall.reserve (tokenContract "x" 5 10) 1).exec sampleListJson sampleFamily .empty

def waitingTablesAfter : ChildTables :=
  (ChildCall.reserve waitingContract 2).exec sampleListJson sampleFamily waitingTables

theorem child_replays_waiting :
    reserveChildTaskWithBudgets sampleListJson sampleFamily waitingContract 3 waitingTablesAfter =
      (.ok false, waitingTablesAfter) := by
  have hrun : Run (lineageStep sampleListJson sampleParents) .empty
      [(sampleFamily, .reserve (tokenContract "x" 5 10) 1)] waitingTables :=
    ⟨_, ⟨sampleFamily_backs nofun, rfl⟩, rfl⟩
  refine ((child_replays_iff sampleListJson_roundTrips hrun).2.1 sampleFamily waitingContract 2 true
    (sampleFamily_backs (by decide +kernel)) (by decide +kernel) [] waitingTablesAfter rfl sampleFamily 3
    (sampleFamily_backs (by decide +kernel))).2 ⟨by decide +kernel, fun d => ?_⟩
  cases d with
  | tokens => exact ⟨9, by decide, by decide +kernel⟩
  | timeMs => exact ⟨2, by decide, by decide +kernel⟩
  | retries | effects => exact ⟨0, by decide, by decide +kernel⟩

theorem sampleChildJson_roundTrips : sampleChildJson.RoundTrips := by
  intro l s h
  cases l with
  | nil =>
    cases h
    rfl
  | cons d l => cases h

/-- **A counter past `u32` refuses every replay**, that of the contract it admitted last with the others. -/
theorem saturated_replay_refused : sampleChildJson.RoundTrips ∧
    Run (lineageStep sampleChildJson sampleParents) .empty saturatingCalls (childTablesAfter saturatingCalls) ∧
    sampleFamily.Backs sampleParents (childTablesAfter saturatingCalls) ∧
    (reserveChildTaskWithBudgets sampleChildJson sampleFamily (tokenContract "y" 4294967295 4294967295) 2
      (childTablesAfter (saturatingCalls.take 1))).1 = .ok true ∧
    (reserveChildTaskWithBudgets sampleChildJson sampleFamily (tokenContract "y" 4294967295 4294967295) 3
      (childTablesAfter saturatingCalls)).1 = .error (.db (.sqlite "Integer out of range")) := by
  refine ⟨sampleChildJson_roundTrips, ⟨_, ⟨sampleFamily_backs nofun, rfl⟩, _,
    ⟨sampleFamily_backs (by decide +kernel), rfl⟩, rfl⟩, sampleFamily_backs (by decide +kernel), ?_, ?_⟩
  · decide +kernel
  · decide +kernel

end Execlaw
