import Execlaw.ChildTasks
import Execlaw.Cycles
/-!
# ChildCycles — the search for a dependency cycle

`visit` follows the dependencies of a run with the path that led to it; what it has finished it never visits again.
Three facts carry the search: the active path is a walk of distinct runs of the graph, so there is fuel for it; what is
finished is layered, so no cycle passes through it; and no run of the path is finished, so a run met twice on the path
is found there.  A dependency outside the graph is no edge of it.
-/
namespace Execlaw
namespace ChildDependencies

open Table Cycles

def Edge (g : Graph) (a b : String) : Prop :=
  (∃ deps, Table.get a g = some deps ∧ b ∈ deps) ∧ (Table.get b g).isSome = true

/-! ## The recursion without fuel -/

abbrev Outcome := Option (List String) × List String

mutual

/-- **`visit` returns**, by as many calls as this derivation has. -/
inductive Visits (g : Graph) : List String → String → List String → Outcome → Prop
  | onPath {active : List String} {node : String} {complete : List String} {position : Nat}
      (h : active.findIdx? (· == node) = some position) :
      Visits g active node complete (some (active.drop position ++ [node]), complete)
  | finished {active : List String} {node : String} {complete : List String}
      (h : active.findIdx? (· == node) = none) (hmem : complete.contains node = true) :
      Visits g active node complete (none, complete)
  | found {active : List String} {node : String} {complete complete' cycle : List String}
      (h : active.findIdx? (· == node) = none) (hnew : complete.contains node = false)
      (hdeps : VisitsAll g (active ++ [node]) ((Table.get node g).getD []) complete (some cycle, complete')) :
      Visits g active node complete (some cycle, complete')
  | passed {active : List String} {node : String} {complete complete' : List String}
      (h : active.findIdx? (· == node) = none) (hnew : complete.contains node = false)
      (hdeps : VisitsAll g (active ++ [node]) ((Table.get node g).getD []) complete (none, complete')) :
      Visits g active node complete (none, node :: complete')

/-- **The loop over runs returns.** -/
inductive VisitsAll (g : Graph) : List String → List String → List String → Outcome → Prop
  | nil {active complete : List String} : VisitsAll g active [] complete (none, complete)
  | skip {active : List String} {d : String} {ds complete : List String} {r : Outcome}
      (hd : (Table.get d g).isSome = false) (hrest : VisitsAll g active ds complete r) :
      VisitsAll g active (d :: ds) complete r
  | found {active : List String} {d : String} {ds complete complete' cycle : List String}
      (hd : (Table.get d g).isSome = true) (hvisit : Visits g active d complete (some cycle, complete')) :
      VisitsAll g active (d :: ds) complete (some cycle, complete')
  | next {active : List String} {d : String} {ds complete complete' : List String} {r : Outcome}
      (hd : (Table.get d g).isSome = true) (hvisit : Visits g active d complete (none, complete'))
      (hrest : VisitsAll g active ds complete' r) : VisitsAll g active (d :: ds) complete r

end

/-! ## What a search keeps and finds -/

structure Path (g : Graph) (active : List String) : Prop where
  nodup : active.Nodup
  runs : ∀ a ∈ active, (Table.get a g).isSome = true

structure Settled (g : Graph) (active complete : List String) : Prop where
  layered : Layered (Edge g) complete
  off : ∀ a ∈ active, a ∉ complete

/-- A search of `todo` reports a closed walk, or has finished the runs of `todo`. -/
structure Found (g : Graph) (active todo complete : List String) (r : Outcome) : Prop where
  cycle : ∀ cycle, r.1 = some cycle → ClosedWalk (Edge g) cycle
  settled : r.1 = none → Settled g active r.2
  grows : r.1 = none → complete ⊆ r.2
  covers : r.1 = none → ∀ d ∈ todo, (Table.get d g).isSome = true → d ∈ r.2

variable {g : Graph} {active complete : List String} {node : String}

theorem Path.length_le (h : Path g active) : active.length ≤ g.length := by
  have hsub : active ⊆ g.map Prod.fst := by
    intro a ha
    by_contra hout
    have hrun := h.runs a ha
    rw [(Table.get_eq_none_iff a g).2 hout] at hrun
    cases hrun
  have hlen := (List.subperm_of_subset h.nodup hsub).length_le
  rwa [List.length_map] at hlen

theorem Path.snoc (h : Path g active) (hnode : (Table.get node g).isSome = true) (hnew : node ∉ active) :
    Path g (active ++ [node]) where
  nodup := List.nodup_append.2 ⟨h.nodup, List.nodup_singleton _, fun a ha b hb hab =>
    hnew (by rwa [← List.mem_singleton.1 hb, ← hab])⟩
  runs := by
    intro a ha
    rcases List.mem_append.1 ha with ha | ha
    · exact h.runs a ha
    · rwa [List.mem_singleton.1 ha]

theorem closedWalk_of_onPath {position : Nat} (hchain : (active ++ [node]).IsChain (Edge g))
    (h : active.findIdx? (· == node) = some position) : ClosedWalk (Edge g) (active.drop position ++ [node]) := by
  obtain ⟨hlt, hnode, -⟩ := List.findIdx?_eq_some_iff_getElem.1 h
  have hnode : active[position] = node := eq_of_beq hnode
  have hdrop : active.drop position = node :: active.drop (position + 1) := by
    rw [List.drop_eq_getElem_cons hlt, hnode]
  constructor
  · have := hchain.drop position
    rwa [List.drop_append_of_le_length hlt.le] at this
  · rw [List.getLast?_concat, hdrop]
    rfl
  · rw [hdrop]
    simp

theorem visitAll_spec {v : String → List String → Outcome} : ∀ {todo complete : List String},
    (∀ d ∈ todo, (Table.get d g).isSome = true → ∀ complete, Settled g active complete →
      Visits g active d complete (v d complete) ∧ Found g active [d] complete (v d complete)) →
    Settled g active complete →
    VisitsAll g active todo complete (visitAll g v todo complete) ∧
      Found g active todo complete (visitAll g v todo complete)
  | [], complete, _, hsettled => ⟨.nil, ⟨nofun, fun _ => hsettled, fun _ => List.Subset.refl _, fun _ => nofun⟩⟩
  | d :: ds, complete, hv, hsettled => by
    have hrest := fun d' hd' => hv d' (List.mem_cons_of_mem d hd')
    cases hd : (Table.get d g).isSome with
    | false =>
      obtain ⟨hreturns, hfound⟩ := visitAll_spec hrest hsettled
      rw [visitAll, if_neg (by simp [hd])]
      refine ⟨.skip hd hreturns, hfound.cycle, hfound.settled, hfound.grows, fun hnone d' hd' hkey => ?_⟩
      rcases List.mem_cons.1 hd' with rfl | hd'
      · rw [hd] at hkey
        cases hkey
      · exact hfound.covers hnone d' hd' hkey
    | true =>
      obtain ⟨hvisit, hone⟩ := hv d List.mem_cons_self hd complete hsettled
      rw [visitAll, if_pos hd]
      match hr : v d complete with
      | (some cycle, complete') =>
        rw [hr] at hvisit hone
        exact ⟨.found hd hvisit, hone.cycle, nofun, nofun, nofun⟩
      | (none, complete') =>
        rw [hr] at hvisit hone
        obtain ⟨hreturns, hfound⟩ := visitAll_spec hrest (hone.settled rfl)
        refine ⟨.next hd hvisit hreturns, hfound.cycle, hfound.settled,
          fun hnone => List.Subset.trans (hone.grows rfl) (hfound.grows hnone), fun hnone d' hd' hkey => ?_⟩
        rcases List.mem_cons.1 hd' with rfl | hd'
        · exact hfound.grows hnone (hone.covers rfl d' List.mem_cons_self hkey)
        · exact hfound.covers hnone d' hd' hkey

theorem visit_spec : ∀ {fuel : Nat} {active : List String} {node : String} {complete : List String},
    g.length < fuel + active.length → Path g active → (active ++ [node]).IsChain (Edge g) →
    (Table.get node g).isSome = true → Settled g active complete →
    Visits g active node complete (visit g fuel active node complete) ∧
      Found g active [node] complete (visit g fuel active node complete)
  | 0, active, _, _, hfuel, hpath, _, _, _ => by
    have := hpath.length_le
    omega
  | fuel + 1, active, node, complete, hfuel, hpath, hchain, hnode, hsettled => by
    rw [visit]
    cases hpos : active.findIdx? (· == node) with
    | some position =>
      refine ⟨.onPath hpos, fun cycle hcycle => ?_, nofun, nofun, nofun⟩
      cases hcycle
      exact closedWalk_of_onPath hchain hpos
    | none =>
      have hnew : node ∉ active := fun hmem => by
        have := List.findIdx?_eq_none_iff.1 hpos node hmem
        simp at this
      cases hmem : complete.contains node with
      | true =>
        refine ⟨.finished hpos hmem, nofun, fun _ => hsettled, fun _ => List.Subset.refl _, fun _ d hd _ => ?_⟩
        rw [List.mem_singleton.1 hd]
        simpa using hmem
      | false =>
        have hfresh : node ∉ complete := by simpa using hmem
        have hoff : Settled g (active ++ [node]) complete := by
          refine ⟨hsettled.layered, fun a ha => ?_⟩
          rcases List.mem_append.1 ha with ha | ha
          · exact hsettled.off a ha
          · rwa [List.mem_singleton.1 ha]
        -- each dependency in the graph extends the path by an edge
        have hdeps : ∀ d ∈ (Table.get node g).getD [], (Table.get d g).isSome = true → ∀ complete,
            Settled g (active ++ [node]) complete →
            Visits g (active ++ [node]) d complete (visit g fuel (active ++ [node]) d complete) ∧
              Found g (active ++ [node]) [d] complete (visit g fuel (active ++ [node]) d complete) := by
          intro d hd hkey complete' hsettled'
          refine visit_spec ?_ (hpath.snoc hnode hnew) ?_ hkey hsettled'
          · rw [List.length_append, List.length_singleton]
            omega
          · obtain ⟨deps, hdeps⟩ := Option.isSome_iff_exists.1 hnode
            rw [hdeps] at hd
            rw [List.append_assoc]
            exact List.isChain_append_cons_cons.2 ⟨hchain, ⟨⟨deps, hdeps, hd⟩, hkey⟩, List.isChain_singleton _⟩
        obtain ⟨hreturns, hfound⟩ := visitAll_spec hdeps hoff
        match hr : visitAll g (visit g fuel (active ++ [node])) ((Table.get node g).getD []) complete with
        | (some cycle, complete') =>
          rw [hr] at hreturns hfound
          exact ⟨.found hpos hmem hreturns, hfound.cycle, nofun, nofun, nofun⟩
        | (none, complete') =>
          rw [hr] at hreturns hfound
          obtain ⟨hlayered, hoff'⟩ := hfound.settled rfl
          have hlast : node ∈ active ++ [node] := by simp
          refine ⟨.passed hpos hmem hreturns, nofun, fun _ => ⟨⟨?_, hoff' node hlast, hlayered⟩, ?_⟩,
            fun _ => List.Subset.trans (hfound.grows rfl) (List.subset_cons_self _ _), fun _ d hd _ => ?_⟩
          · rintro b ⟨⟨deps, hdeps, hb⟩, hkey⟩
            exact hfound.covers rfl b (by rw [hdeps]; exact hb) hkey
          · intro a ha hmem'
            rcases List.mem_cons.1 hmem' with rfl | hmem'
            · exact hnew ha
            · exact hoff' a (List.mem_append_left _ ha) hmem'
          · rw [List.mem_singleton.1 hd]
            exact List.mem_cons_self

end ChildDependencies

open ChildDependencies Cycles

theorem childDependencyCycle_spec (g : Graph) :
    ∃ complete, VisitsAll g [] (g.map Prod.fst) [] (childDependencyCycle g, complete) ∧
      Found g [] (g.map Prod.fst) [] (childDependencyCycle g, complete) :=
  ⟨_, visitAll_spec (fun _ _ hkey _ hsettled => visit_spec (Nat.lt_succ_self _) ⟨List.nodup_nil, nofun⟩
    (List.isChain_singleton _) hkey hsettled) ⟨trivial, nofun⟩⟩

theorem closedWalk_of_childDependencyCycle {g : Graph} {cycle : List String} (h : childDependencyCycle g = some cycle) :
    ClosedWalk (Edge g) cycle := by
  obtain ⟨complete, -, hfound⟩ := childDependencyCycle_spec g
  exact hfound.cycle cycle h

theorem childDependencyCycle_eq_none_iff {g : Graph} : childDependencyCycle g = none ↔ Acyclic (Edge g) := by
  obtain ⟨complete, -, hfound⟩ := childDependencyCycle_spec g
  constructor
  · intro hnone
    refine (hfound.settled hnone).layered.acyclic ?_
    rintro a b ⟨⟨deps, hdeps, -⟩, -⟩
    refine hfound.covers hnone a ?_ (Option.isSome_of_eq_some hdeps)
    exact List.mem_map.2 ⟨(a, deps), Table.mem_of_get hdeps, rfl⟩
  · intro hacyclic
    cases hr : childDependencyCycle g with
    | none => rfl
    | some cycle => exact absurd hacyclic (closedWalk_of_childDependencyCycle hr).not_acyclic

example : childDependencyCycle [("a", ["b", "z"]), ("b", ["c"]), ("c", ["a"])] = some ["a", "b", "c", "a"] := by decide

end Execlaw
