import Execlaw.AutomationGraphs
/-!
# AutomationResume — resumed automation runs (`run_one`, `redrive_failed`)

What a hop writes is enough to find its position again, so a resumed run goes on where the stored traces end, as far as
they are read back as they were written; but it has all its hops anew, and a node whose name begins like an edge's trace
ends it.
-/
namespace Execlaw

open Walks

/-! ## What validation accepts -/

/-- Every edge leads to a node or to the end. -/
def Resolves (d : AutomationDef) : Prop := ∀ e ∈ d.edges, e.to = endSentinel ∨ e.to ∈ d.nodes.map NodeDef.id

variable {decode : Json → Except String AskAgentConfig}

theorem validateNodes_ok : ∀ {nodes : List NodeDef} {ids ids' : List String},
    validateNodes decode ids nodes = .ok ids' → ids' = (nodes.map NodeDef.id).reverse ++ ids
  | [], ids, ids', h => (Except.ok.inj h).symm
  | n :: rest, ids, ids', h => by
    rw [validateNodes] at h
    repeat' split at h
    all_goals first | cases h | rw [validateNodes_ok h, List.map_cons, List.reverse_cons, List.append_assoc]
    rfl

theorem validateEdges_ok {ids : List String} : ∀ {edges : List EdgeDef}, validateEdges ids edges = .ok () →
    ∀ e ∈ edges, e.to = endSentinel ∨ e.to ∈ ids
  | [], _, e, he => by cases he
  | x :: rest, h, e, he => by
    rw [validateEdges] at h
    split at h
    · cases h
    · split at h
      · cases h
      · next hto =>
        rcases List.mem_cons.1 he with rfl | he
        · tauto
        · exact validateEdges_ok h e he

theorem resolves_of_validate {d : AutomationDef} (h : validate decode d = .ok ()) : Resolves d := by
  unfold validate at h
  split at h
  · cases h
  · next ids hnodes =>
    obtain rfl := validateNodes_ok hnodes
    split at h
    · cases h
    · next hedges => exact fun e he => by simpa using validateEdges_ok hedges e he

structure AcceptedDef (decode : Json → Except String AskAgentConfig) where
  definition : AutomationDef
  valid : validate decode definition = .ok ()

/-! ## Hops -/

variable {ex ex' : Executor} {d : AutomationDef} {p p' q : Position} {t : StepTrace}

def StepTrace.named (t : StepTrace) : Bool := edgePrefix.toList.isPrefixOf t.nodeId.toList

theorem ends_eq (t : StepTrace) : t.ends = (t.error.isSome || t.named) := rfl

structure Resumes (d : AutomationDef) (t : StepTrace) : Prop where
  error : t.error = none
  node : ∃ n, d.nodes.find? (fun n => n.id == t.nodeId) = some n ∧ n.kind ≠ .terminal ∧
    (n.kind = .filter → t.output = .obj [("passed", .bool true)])

theorem hop_on (h : hop ex d p = .on t p') : Resumes d t ∧ p' = ⟨t.nodeId, p.state.insert t.nodeId t.output⟩ := by
  unfold hop at h
  split at h
  · cases h
  · cases h
  · next next hnext =>
    split at h
    · cases h
    · split at h
      · cases h
      · next node hnode =>
        split at h
        · next value hvalue =>
          obtain ⟨rfl, rfl⟩ := Hop.on.inj h
          have hid : node.id = next := by simpa using List.find?_some hnode
          refine ⟨⟨rfl, node, ?_, ?_, ?_⟩, rfl⟩
          · rw [hid]
            exact hnode
          · intro hkind
            simp [executeNode, hkind] at hvalue
          · intro hkind
            simp only [executeNode, hkind, executeFilter] at hvalue
            split at hvalue
            · cases hvalue
            · split at hvalue
              · obtain rfl := NodeOutcome.output.inj hvalue
                rfl
              · cases hvalue
              · cases hvalue
        · cases h
        · cases h
        · cases h

theorem executeNode_drop {n : NodeDef} {state : NodeState} (h : executeNode ex n state = .drop) : n.kind = .filter := by
  cases hkind : n.kind
  case filter => rfl
  all_goals
    simp only [executeNode, executeTransform, hkind] at h
    repeat' split at h
    all_goals cases h

theorem executeNode_terminal {n : NodeDef} {state : NodeState} (h : executeNode ex n state = .terminal) :
    n.kind = .terminal := by
  cases hkind : n.kind
  case terminal => rfl
  all_goals
    simp only [executeNode, executeTransform, executeFilter, hkind] at h
    repeat' split at h
    all_goals cases h

inductive Stops (d : AutomationDef) : ExecOutcome → List StepTrace → Prop
  | ended : Stops d .success []
  | done {t : StepTrace} {n : NodeDef} (error : t.error = none)
      (node : d.nodes.find? (fun n => n.id == t.nodeId) = some n) (kind : n.kind = .terminal) : Stops d .success [t]
  | dropped {t : StepTrace} {n : NodeDef} (error : t.error = none)
      (node : d.nodes.find? (fun n => n.id == t.nodeId) = some n) (kind : n.kind = .filter)
      (output : t.output = .null) : Stops d .skipped [t]
  | broke {t : StepTrace} (error : t.error.isSome = true) (other : [t] ≠ hopLimit.1) : Stops d .failed [t]

theorem hop_stop {o : ExecOutcome} {last : List StepTrace} (h : hop ex d p = .stop o last) : Stops d o last := by
  unfold hop at h
  split at h
  · obtain ⟨rfl, rfl⟩ := Hop.stop.inj h
    exact .ended
  · next msg _ =>
    obtain ⟨rfl, rfl⟩ := Hop.stop.inj h
    refine .broke rfl fun heq => ?_
    have hid := congrArg StepTrace.nodeId (List.cons.inj heq).1
    have hlist := congrArg String.toList hid
    simp [edgePrefix, String.toList_append] at hlist
  · next next hnext =>
    split at h
    · obtain ⟨rfl, rfl⟩ := Hop.stop.inj h
      exact .ended
    · split at h
      · cases h
      · next node hnode =>
        have hid : node.id = next := by simpa using List.find?_some hnode
        split at h
        · cases h
        · next hdrop =>
          obtain ⟨rfl, rfl⟩ := Hop.stop.inj h
          exact .dropped rfl (by dsimp only; rw [hid]; exact hnode) (executeNode_drop hdrop) rfl
        · next hterminal =>
          obtain ⟨rfl, rfl⟩ := Hop.stop.inj h
          exact .done rfl (by dsimp only; rw [hid]; exact hnode) (executeNode_terminal hterminal)
        · obtain ⟨rfl, rfl⟩ := Hop.stop.inj h
          refine .broke rfl fun heq => ?_
          have hinput := congrArg StepTrace.input (List.cons.inj heq).1
          cases hinput

theorem hop_moves (hd : Resolves d) (p : Position) : hop ex d p ≠ .stuck := by
  intro h
  unfold hop at h
  split at h
  · cases h
  · cases h
  · next next hnext =>
    split at h
    · cases h
    · next hne =>
      split at h
      · next hnone =>
        have htarget : ∀ edges : List EdgeDef, pickNextEdge ex p.current p.state edges = .ok (some next) →
            ∃ e ∈ edges, e.to = next := by
          intro edges
          induction edges with
          | nil => intro h; cases h
          | cons e rest ih =>
            intro h
            rw [pickNextEdge] at h
            split at h
            · split at h
              · exact ⟨e, List.mem_cons_self, Option.some.inj (Except.ok.inj h)⟩
              · split at h
                · cases h
                · exact ⟨e, List.mem_cons_self, Option.some.inj (Except.ok.inj h)⟩
                · obtain ⟨e', he', hto⟩ := ih h
                  exact ⟨e', List.mem_cons_of_mem _ he', hto⟩
            · obtain ⟨e', he', hto⟩ := ih h
              exact ⟨e', List.mem_cons_of_mem _ he', hto⟩
        obtain ⟨e, he, rfl⟩ := htarget d.edges hnext
        obtain ⟨n, hn, hid⟩ := List.mem_map.1 ((hd e he).resolve_left hne)
        have hmissing := List.find?_eq_none.1 hnone n hn
        simp [hid] at hmissing
      · split at h <;> cases h

/-! ## Resuming -/

theorem resumes_of_goes {traces : List StepTrace} (h : Goes (hop ex d) p traces q) : ∀ t ∈ traces, Resumes d t := by
  induction traces generalizing p with
  | nil => simp
  | cons t rest ih =>
    obtain ⟨m, hm, hrest⟩ := h
    intro t' ht'
    rcases List.mem_cons.1 ht' with rfl | ht'
    · exact (hop_on hm).1
    · exact ih hrest t' ht'

theorem restore_of_goes {traces : List StepTrace} (h : Goes (hop ex d) p traces q) :
    q = ⟨(traces.getLast?.map StepTrace.nodeId).getD p.current, restore d p.state traces⟩ := by
  induction traces generalizing p with
  | nil =>
    obtain rfl : p = q := h
    rfl
  | cons t rest ih =>
    obtain ⟨m, hm, hrest⟩ := h
    obtain ⟨hresumes, rfl⟩ := hop_on hm
    obtain ⟨n, hn, -⟩ := hresumes.node
    have hfound : d.nodes.any (fun n => n.id == t.nodeId) = true :=
      List.any_eq_true.2 ⟨n, List.mem_of_find?_eq_some hn, by simpa using List.find?_some hn⟩
    have hstate : restore d p.state (t :: rest) = restore d (p.state.insert t.nodeId t.output) rest := by
      rw [restore, List.foldl_cons, if_pos hfound]
      rfl
    rw [ih hrest, hstate]
    cases rest with
    | nil => rfl
    | cons u rest =>
      rw [List.getLast?_cons_cons, List.getLast?_cons]
      rfl

/-! ### What is read back -/

section Read

variable {col : TraceColumn} {traces completed : List StepTrace} {state : NodeState}

theorem TraceColumn.trace_eq {t' : StepTrace} (h : col.trace t = some t') :
    t'.nodeId = t.nodeId ∧ t'.error = t.error ∧ col.reads t.output = some t'.output := by
  obtain ⟨input, -, h⟩ := Option.bind_eq_some_iff.1 h
  obtain ⟨output, houtput, rfl⟩ := Option.map_eq_some_iff.1 h
  exact ⟨rfl, rfl, houtput⟩

theorem forall₂_of_mapM {α β : Type} {g : α → Option β} : ∀ {l : List α} {bs : List β}, l.mapM g = some bs →
    List.Forall₂ (fun a b => g a = some b) l bs
  | [], bs, h => by
    cases h
    exact .nil
  | a :: l, bs, h => by
    rw [List.mapM_cons] at h
    obtain ⟨b, hb, h⟩ := Option.bind_eq_some_iff.1 h
    obtain ⟨bs, hbs, h⟩ := Option.bind_eq_some_iff.1 h
    cases h
    exact .cons hb (forall₂_of_mapM hbs)

theorem ends_of_read (hread : traces.mapM col.trace = some completed) :
    completed.any StepTrace.ends = traces.any StepTrace.ends := by
  have h := forall₂_of_mapM hread
  clear hread
  induction h with
  | nil => rfl
  | cons ht _ ih =>
    obtain ⟨hnode, herror, -⟩ := TraceColumn.trace_eq ht
    rw [List.any_cons, List.any_cons, ih, StepTrace.ends, StepTrace.ends, hnode, herror]

theorem getLast?_of_read (hread : traces.mapM col.trace = some completed) :
    completed.getLast? = traces.getLast?.bind col.trace := by
  have h := forall₂_of_mapM hread
  clear hread
  induction h with
  | nil => rfl
  | cons ht hrest ih =>
    cases hrest with
    | nil => exact ht.symm
    | cons => rwa [List.getLast?_cons_cons, List.getLast?_cons_cons]

/-- Where stored traces lead. -/
def position (d : AutomationDef) (state : NodeState) (traces : List StepTrace) : Position :=
  ⟨(traces.getLast?.map StepTrace.nodeId).getD triggerSentinel, restore d state traces⟩

theorem position_current (hread : traces.mapM col.trace = some completed) :
    (position d state completed).current = (position d state traces).current := by
  have hlast := getLast?_of_read hread
  rw [position, position]
  cases ht : traces.getLast? with
  | none =>
    rw [ht] at hlast
    rw [hlast]
    rfl
  | some t =>
    obtain rfl | ⟨ts, u, rfl⟩ := List.eq_nil_or_concat' completed
    · obtain rfl : traces = [] := List.forall₂_nil_right_iff.1 (forall₂_of_mapM hread)
      cases ht
    · rw [ht, List.getLast?_concat] at hlast
      rw [List.getLast?_concat]
      exact (TraceColumn.trace_eq hlast.symm).1

theorem resume_of_goes (h : Goes (hop ex d) ⟨triggerSentinel, state⟩ traces q)
    (hnames : ∀ t ∈ traces, t.named = false) (hread : traces.mapM col.trace = some completed) :
    executeGraphResuming ex' d state completed = walkGraph ex' d (position d state completed) := by
  have hlast := getLast?_of_read hread
  unfold executeGraphResuming position
  cases ht : completed.getLast? with
  | none =>
    obtain rfl := List.getLast?_eq_none_iff.1 ht
    rfl
  | some last' =>
    rw [ht] at hlast
    obtain ⟨last, hmem, hlast⟩ := Option.bind_eq_some_iff.1 hlast.symm
    obtain ⟨hid, -, houtput⟩ := TraceColumn.trace_eq hlast
    have hresumes := resumes_of_goes h
    have hgoes : completed.any StepTrace.ends = false := by
      rw [ends_of_read hread, List.any_eq_false]
      intro t ht
      simp [ends_eq, (hresumes t ht).error, hnames t ht]
    obtain ⟨n, hn, hkind, hfilter⟩ := (hresumes last (List.mem_of_getLast? hmem)).node
    have hpassed : ¬ (n.kind = .filter ∧ (last'.output.get "passed").bind Json.asBool ≠ some true) := by
      rintro ⟨hkind, hnot⟩
      rw [hfilter hkind, col.passed] at houtput
      obtain houtput := Option.some.inj houtput
      exact hnot (houtput ▸ rfl)
    simp only [hgoes, Bool.false_eq_true, if_false, Option.map_some, Option.getD_some, hid, hn, if_neg hkind,
      if_neg hpassed]

theorem resume_of_ends (h : ∃ t ∈ traces, t.ends = true) (hread : traces.mapM col.trace = some completed) :
    executeGraphResuming ex' d state completed = some ([], .failed) := by
  have hany : completed.any StepTrace.ends = true := (ends_of_read hread).trans (List.any_eq_true.2 h)
  unfold executeGraphResuming
  cases hlast : completed.getLast? with
  | none =>
    obtain rfl := List.getLast?_eq_none_iff.1 hlast
    cases hany
  | some last => simp only [hany, if_true]

/-! ### Where two states lead -/

/-- How the run ends where no further node is picked: with the error of an edge's condition, or with none. -/
def leaving (ex : Executor) (d : AutomationDef) (p : Position) : Option (Option String) :=
  match pickNextEdge ex p.current p.state d.edges with
  | .ok none => some none
  | .error msg => some (some msg)
  | .ok (some next) => if next = endSentinel then some none else none

/-- From either position the same comes: their states are the same, or from neither is a node picked. -/
def Alike (ex : Executor) (d : AutomationDef) (p p' : Position) : Prop :=
  p'.state = p.state ∨ ∃ e, leaving ex d p = some e ∧ leaving ex d p' = some e

def left (current : String) : Option String → List StepTrace × ExecOutcome
  | none => ([], .success)
  | some msg => ([⟨edgePrefix ++ current, .null, .null, some msg⟩], .failed)

theorem walk_leaving {e : Option String} (h : leaving ex d p = some e) :
    walkGraph ex d p = some (left p.current e) := by
  have hhop : hop ex d p = .stop (left p.current e).2 (left p.current e).1 := by
    unfold leaving at h
    unfold hop
    cases hpick : pickNextEdge ex p.current p.state d.edges with
    | error msg =>
      rw [hpick] at h
      cases h
      rfl
    | ok next =>
      rw [hpick] at h
      cases next with
      | none =>
        cases h
        rfl
      | some next =>
        obtain ⟨hnext, he⟩ := Option.ite_none_right_eq_some.1 h
        cases he
        exact if_pos hnext
  unfold walkGraph maxHops
  rw [walk, hhop]

theorem walk_staying (hd : Resolves d) (h : leaving ex d p = none) :
    ∃ t T o, walkGraph ex d p = some (t :: T, o) ∧ t.input = .obj p.state := by
  have hhop : (∃ t p', hop ex d p = .on t p' ∧ t.input = .obj p.state) ∨
      ∃ o t, hop ex d p = .stop o [t] ∧ t.input = .obj p.state := by
    have hmoves : hop ex d p ≠ .stuck := hop_moves hd p
    unfold leaving at h
    unfold hop at hmoves ⊢
    split at h
    · cases h
    · cases h
    · next next hnext =>
      have hne : next ≠ endSentinel := fun heq => by simp [heq] at h
      simp only [hnext, if_neg hne] at hmoves ⊢
      split
      · next hnone => simp [hnone] at hmoves
      · split
        · exact .inl ⟨_, _, rfl, rfl⟩
        · exact .inr ⟨_, _, rfl, rfl⟩
        · exact .inr ⟨_, _, rfl, rfl⟩
        · exact .inr ⟨_, _, rfl, rfl⟩
  unfold walkGraph maxHops
  rw [walk]
  rcases hhop with ⟨t, p', hhop, hinput⟩ | ⟨o, t, hhop, hinput⟩
  · have hsome : (walk (hop ex d) hopLimit 255 p').isSome = true := walk_isSome (hop_moves hd) 255 p'
    obtain ⟨⟨T, o⟩, hwalk⟩ := Option.isSome_iff_exists.1 hsome
    rw [hhop]
    exact ⟨t, T, o, by simp [hwalk], hinput⟩
  · rw [hhop]
    exact ⟨t, [], o, rfl, hinput⟩

theorem left_inj {current : String} {e e' : Option String} (h : left current e = left current e') : e = e' := by
  cases e <;> cases e' <;> simp_all [left]

theorem left_ne {current : String} {e : Option String} {T : List StepTrace} {o : ExecOutcome}
    (hinput : t.input = .obj state) : left current e ≠ (t :: T, o) := by
  intro h
  cases e with
  | none => cases (Prod.mk.inj h).1
  | some msg =>
    cases (List.cons.inj (Prod.mk.inj h).1).1
    cases hinput

theorem walk_eq_iff (hd : Resolves d) (hcurrent : p'.current = p.current) :
    walkGraph ex d p' = walkGraph ex d p ↔ Alike ex d p p' := by
  constructor
  · intro h
    cases hp : leaving ex d p with
    | none =>
      obtain ⟨t, T, o, hwalk, hinput⟩ := walk_staying hd hp
      cases hp' : leaving ex d p' with
      | none =>
        obtain ⟨t', T', o', hwalk', hinput'⟩ := walk_staying hd hp'
        rw [hwalk, hwalk'] at h
        obtain ⟨rfl, -⟩ := List.cons.inj (Prod.mk.inj (Option.some.inj h)).1
        exact .inl (Json.obj.inj (hinput'.symm.trans hinput))
      | some e =>
        rw [hwalk, walk_leaving hp'] at h
        exact absurd (Option.some.inj h) (left_ne hinput)
    | some e =>
      cases hp' : leaving ex d p' with
      | none =>
        obtain ⟨t', T', o', hwalk', hinput'⟩ := walk_staying hd hp'
        rw [hwalk', walk_leaving hp] at h
        exact absurd (Option.some.inj h).symm (left_ne hinput')
      | some e' =>
        rw [walk_leaving hp, walk_leaving hp', hcurrent] at h
        exact .inr ⟨e, hp, left_inj (Option.some.inj h) ▸ hp'⟩
  · rintro (hstate | ⟨e, he, he'⟩)
    · cases p
      cases p'
      obtain rfl := hcurrent
      obtain rfl := hstate
      rfl
    · rw [walk_leaving he, walk_leaving he', hcurrent]

/-- The last of the traces is the last of a run that ended well. -/
def Over (d : AutomationDef) (traces : List StepTrace) : Prop :=
  ∃ t n, traces.getLast? = some t ∧ d.nodes.find? (fun n => n.id == t.nodeId) = some n ∧
    (n.kind = .terminal ∨ n.kind = .filter ∧ t.output = .null)

/-- **What is read back leads on as it did when it was written**: the run was over, or what comes next is the same. -/
def LeadsOn (ex : Executor) (d : AutomationDef) (state : NodeState) (traces completed : List StepTrace) : Prop :=
  Over d traces ∨ Alike ex d (position d state traces) (position d state completed)

theorem not_over (h : Goes (hop ex d) p traces q) : ¬ Over d traces := by
  rintro ⟨t, n, hlast, hn, hkind⟩
  obtain ⟨n', hn', hterminal, hfilter⟩ := (resumes_of_goes h t (List.mem_of_getLast? hlast)).node
  cases hn.symm.trans hn'
  rcases hkind with hkind | ⟨hkind, houtput⟩
  · exact hterminal hkind
  · rw [hfilter hkind] at houtput
    cases houtput

end Read

theorem walk_failed {n : Nat} {T : List StepTrace} (h : walk (hop ex d) hopLimit n p = some (T, .failed)) :
    ∃ traces q t, T = traces ++ [t] ∧ t.error.isSome = true ∧ Goes (hop ex d) p traces q := by
  obtain ⟨traces, q, last, rfl, hgoes, ⟨-, hstop⟩ | ⟨-, hover⟩⟩ := walk_cases h
  · cases hop_stop hstop with
    | broke error _ => exact ⟨traces, q, _, rfl, error, hgoes⟩
  · cases hover
    exact ⟨traces, q, _, rfl, rfl, hgoes⟩

theorem executeGraphResuming_isSome (hd : Resolves d) (state : NodeState) (traces : List StepTrace) :
    (executeGraphResuming ex d state traces).isSome = true := by
  have hwalk (p : Position) : (walkGraph ex d p).isSome = true := walk_isSome (hop_moves hd) maxHops p
  unfold executeGraphResuming
  split
  · exact hwalk _
  · split
    · rfl
    · split
      · rfl
      · split
        · rfl
        · split
          · rfl
          · exact hwalk _

structure Firing (decode : Json → Except String AskAgentConfig) where
  accepted : AcceptedDef decode
  id : String
  automationId : String
  eventId : String
  eventCtx : Json
  startedAt : Int

namespace Firing

variable (f : Firing decode) (ex : Executor) (col : TraceColumn) (k : Nat)

abbrev definition : AutomationDef := f.accepted.definition

def row : AutomationRun := insertPending f.id f.automationId f.eventId f.definition f.startedAt

def start : Position := ⟨triggerSentinel, f.row.initial f.eventCtx⟩

def traces : List StepTrace := ((walkGraph ex f.definition f.start).map Prod.fst).getD []

/-- The row a crash leaves behind `k` traces. -/
def crashed : AutomationRun := ((f.traces ex).take k).foldl (AutomationRun.appendTrace col) f.row

/-- **Resuming is the same as never stopping**, after a crash and after a redrive, and nothing panics. -/
structure ResumesExactly : Prop where
  ends : ∀ current now, ∃ run, runOne ex col current f.eventCtx now f.row = some (run, .ok ())
  crash : ∀ current now,
    runOne ex col current f.eventCtx now (f.crashed ex col k) = runOne ex col current f.eventCtx now f.row
  redrive : ∀ current now failed, runOne ex col current f.eventCtx now f.row = some (failed, .ok ()) →
    failed.status = .failed → ∀ actor reason at_ valid, validateRedriveRequest actor reason = .ok valid →
      ∃ run resumed q failing, redriveFailed col actor reason at_ failed = (run, .ok resumed) ∧
        failed.stepTraces = run.stepTraces ++ [failing] ∧ Goes (hop ex f.definition) f.start run.stepTraces q ∧
        ∀ ex', executeGraphResuming ex' f.definition f.start.state resumed.stepTraces = walkGraph ex' f.definition q ∧
          ∀ current' now', runOne ex' col current' f.eventCtx now' run =
            (walkGraph ex' f.definition q).map (run.conclude col now')
  total : ∀ ex' state completed, executeGraphResuming ex' f.definition state completed ≠ none

/-- When it is: the column takes every trace, and reads back those stored; nothing was stored yet, or the failing trace
was; or no stored trace has the name of an edge's, the walk from the trigger ends within its hops, and what was read back
leads on.  The same of a failed run's traces before its last. -/
structure Resumable : Prop where
  stored : ∀ t ∈ f.traces ex, col.takes t = true
  crash : ∃ completed, ((f.traces ex).take k).mapM col.trace = some completed ∧
    ((f.traces ex).take k = [] ∨ (∃ t ∈ (f.traces ex).take k, t.error.isSome = true) ∨
      (∀ t ∈ (f.traces ex).take k, t.named = false) ∧ Ends (hop ex f.definition) maxHops f.start ∧
        LeadsOn ex f.definition f.start.state ((f.traces ex).take k) completed)
  redrive : (∃ t ∈ f.traces ex, t.error.isSome = true) →
    ∃ completed, (f.traces ex).dropLast.mapM col.trace = some completed ∧
      (∀ t ∈ (f.traces ex).dropLast, t.named = false) ∧
      ∀ ex', Alike ex' f.definition (position f.definition f.start.state (f.traces ex).dropLast)
        (position f.definition f.start.state completed)

variable {f ex col k} {completed : List StepTrace}

theorem resolves : Resolves f.definition := resolves_of_validate f.accepted.valid

theorem walk_traces (f : Firing decode) (ex : Executor) :
    ∃ o, walkGraph ex f.definition f.start = some (f.traces ex, o) := by
  have hsome : (walk (hop ex f.definition) hopLimit maxHops f.start).isSome = true :=
    walk_isSome (hop_moves f.resolves) maxHops f.start
  obtain ⟨⟨T, o⟩, h⟩ := Option.isSome_iff_exists.1 hsome
  have hT : f.traces ex = T := by simp [traces, walkGraph, h]
  exact ⟨o, hT ▸ h⟩

variable {ts : List StepTrace}

theorem foldl_appendTrace (htakes : ∀ t ∈ ts, col.takes t = true) (run : AutomationRun) :
    ∃ status, (run.status.isTerminal = false → status.isTerminal = false) ∧
      ts.foldl (AutomationRun.appendTrace col) run =
        { run with stepTraces := run.stepTraces ++ ts, status := status } := by
  induction ts generalizing run with
  | nil => exact ⟨run.status, fun h => h, by simp⟩
  | cons t rest ih =>
    have htake : col.takes t = true := htakes t List.mem_cons_self
    have hnext : run.status.isTerminal = false → (run.appendTrace col t).status.isTerminal = false := by
      intro hrun
      unfold AutomationRun.appendTrace
      rw [if_pos htake]
      split
      · rfl
      · exact hrun
    obtain ⟨status, hstatus, heq⟩ := ih (fun t ht => htakes t (List.mem_cons_of_mem _ ht)) (run.appendTrace col t)
    exact ⟨status, hstatus ∘ hnext, by rw [List.foldl_cons, heq]; simp [AutomationRun.appendTrace, htake]⟩

variable {r : List StepTrace × ExecOutcome}

theorem conclude_eq (htakes : ∀ t ∈ r.1, col.takes t = true) (run : AutomationRun) (now : Int) :
    run.conclude col now r =
      ({ run with stepTraces := run.stepTraces ++ r.1, status := r.2.status, finishedAt := some now }, .ok ()) := by
  obtain ⟨status, -, heq⟩ := foldl_appendTrace htakes run
  unfold AutomationRun.conclude
  rw [if_pos (List.all_eq_true.2 htakes), heq]
  rfl

theorem takes_of_conclude {run run' : AutomationRun} {now : Int} (h : run.conclude col now r = (run', .ok ())) :
    ∀ t ∈ r.1, col.takes t = true := by
  unfold AutomationRun.conclude at h
  split at h
  · next hall => exact List.all_eq_true.1 hall
  · cases h

theorem crashed_eq (f : Firing decode) (k : Nat) (htakes : ∀ t ∈ f.traces ex, col.takes t = true) :
    ∃ status, status.isTerminal = false ∧
      f.crashed ex col k = { f.row with stepTraces := (f.traces ex).take k, status := status } := by
  obtain ⟨status, hstatus, heq⟩ :=
    foldl_appendTrace (fun t ht => htakes t (List.mem_of_mem_take (i := k) ht)) f.row
  exact ⟨status, hstatus rfl, heq⟩

theorem runOne_row {run : AutomationRun} (hstatus : run.status.isTerminal = false)
    (hread : run.completed col = some completed) (hdefinition : run.definition = some f.definition)
    (hautomation : run.automationId = f.automationId) (current : AutomationDef) (now : Int) :
    runOne ex col current f.eventCtx now run =
      (executeGraphResuming ex f.definition f.start.state completed).map (run.conclude col now) := by
  have hinitial : run.initial f.eventCtx = f.start.state := by
    rw [AutomationRun.initial, hautomation]
    rfl
  unfold runOne
  rw [hread]
  simp [hstatus, hdefinition, hinitial]

theorem status_inj {o o' : ExecOutcome} (h : o.status = o'.status) : o = o' := by
  cases o <;> cases o' <;> first | rfl | cases h

variable {o : ExecOutcome}

theorem runOne_whole (hwalk : walkGraph ex f.definition f.start = some (f.traces ex, o)) (current : AutomationDef)
    (now : Int) : runOne ex col current f.eventCtx now f.row =
      some (f.row.conclude col now (f.traces ex, o)) := by
  have hread : f.row.completed col = some [] := rfl
  have hresume : executeGraphResuming ex f.definition f.start.state [] = some (f.traces ex, o) := hwalk
  rw [runOne_row rfl hread rfl rfl, hresume]
  rfl

theorem crash_iff (hwalk : walkGraph ex f.definition f.start = some (f.traces ex, o))
    (htakes : ∀ t ∈ f.traces ex, col.takes t = true) :
    (∀ current now,
      runOne ex col current f.eventCtx now (f.crashed ex col k) = runOne ex col current f.eventCtx now f.row) ↔
      ∃ completed, ((f.traces ex).take k).mapM col.trace = some completed ∧
        executeGraphResuming ex f.definition f.start.state completed = some ((f.traces ex).drop k, o) := by
  obtain ⟨status, hstatus, hcrashed⟩ := crashed_eq f k htakes
  have hwhole (current : AutomationDef) (now : Int) : runOne ex col current f.eventCtx now f.row = _ :=
    (runOne_whole hwalk current now).trans (by rw [conclude_eq htakes])
  rw [hcrashed]
  cases hread : ((f.traces ex).take k).mapM col.trace with
  | none =>
    refine ⟨fun h => ?_, fun ⟨_, hnone, _⟩ => by cases hnone⟩
    have hrows := (h f.definition 0).trans (hwhole f.definition 0)
    have hunread : AutomationRun.completed col
        { f.row with stepTraces := (f.traces ex).take k, status := status } = none := hread
    unfold runOne at hrows
    rw [hunread] at hrows
    cases (Prod.mk.inj (Option.some.inj hrows)).2
  | some completed =>
    have hpart (current : AutomationDef) (now : Int) := @runOne_row decode f ex col completed
      { f.row with stepTraces := (f.traces ex).take k, status := status } hstatus hread rfl rfl current now
    constructor
    · intro h
      refine ⟨completed, rfl, ?_⟩
      have hrows := (hpart f.definition 0).symm.trans ((h f.definition 0).trans (hwhole f.definition 0))
      obtain ⟨r, hr, heq⟩ := Option.map_eq_some_iff.1 hrows
      rw [conclude_eq (takes_of_conclude heq)] at heq
      obtain ⟨heq, -⟩ := Prod.mk.inj heq
      have htraces := congrArg AutomationRun.stepTraces heq
      have houtcome := congrArg AutomationRun.status heq
      dsimp only at htraces houtcome
      have hdrop : r.1 = (f.traces ex).drop k :=
        List.append_cancel_left (htraces.trans (List.take_append_drop k _).symm)
      rw [hr, ← hdrop, ← status_inj houtcome]
    · rintro ⟨completed', hcompleted, h⟩ current now
      cases hcompleted
      refine (hpart current now).trans ?_
      have hdrop : ∀ t ∈ (f.traces ex).drop k, col.takes t = true := fun t ht => htakes t (List.mem_of_mem_drop ht)
      rw [h, Option.map_some, hwhole, conclude_eq hdrop, List.take_append_drop]
      rfl

/-! ### Where the traces end -/

theorem resume_of_last {state : NodeState} {traces : List StepTrace} {t : StepTrace} {n : NodeDef}
    (hgoes : ∀ u ∈ traces ++ [t], u.ends = false)
    (hnode : f.definition.nodes.find? (fun n => n.id == t.nodeId) = some n)
    (hkind : n.kind = .terminal ∧ o = .success ∨ n.kind = .filter ∧ t.output = .null ∧ o = .skipped)
    (hread : (traces ++ [t]).mapM col.trace = some completed) :
    executeGraphResuming ex f.definition state completed = some ([], o) := by
  have hany : completed.any StepTrace.ends = false :=
    (ends_of_read hread).trans (List.any_eq_false.2 fun u hu => by simp [hgoes u hu])
  have hlast := getLast?_of_read hread
  rw [List.getLast?_concat, Option.bind_some] at hlast
  unfold executeGraphResuming
  cases ht : completed.getLast? with
  | none =>
    obtain rfl := List.getLast?_eq_none_iff.1 ht
    have hlen := (forall₂_of_mapM hread).length_eq
    simp at hlen
  | some t' =>
    obtain ⟨hid, -, houtput⟩ := TraceColumn.trace_eq (hlast.symm.trans ht)
    simp only [hany, Bool.false_eq_true, if_false, hid, hnode]
    rcases hkind with ⟨hkind, rfl⟩ | ⟨hkind, hnull, rfl⟩
    · rw [if_pos hkind]
    · rw [hnull, col.null] at houtput
      obtain houtput := Option.some.inj houtput
      rw [if_neg (by simp [hkind]), if_pos ⟨hkind, by simp [← houtput, Json.get]⟩]

theorem walk_ne_over {m : Position} (hk : 0 < k) (hlen : ts.length = maxHops) :
    walkGraph ex f.definition m ≠ some (ts.drop k ++ hopLimit.1, o) := by
  intro h
  obtain ⟨ts', q', last', heq, hgoes, ⟨-, hstop⟩ | ⟨hlen', hover⟩⟩ := walk_cases h
  · -- a stop is no limit, and neither is the trace of a hop that went on
    have hlimit : (hopLimit.1.all fun t => t.error.isSome) = true := rfl
    cases hop_stop hstop with
    | ended =>
      rw [List.append_nil] at heq
      have hresumes := resumes_of_goes hgoes _ (heq ▸ List.mem_append_right _ List.mem_cons_self)
      cases hresumes.error
    | done error | dropped error =>
      rw [(List.append_inj' heq rfl).2] at hlimit
      simp [error] at hlimit
    | broke error other => exact other (List.append_inj' heq rfl).2.symm
  · cases hover
    have hts := (List.append_inj' heq rfl).1
    have hshort := congrArg List.length hts
    rw [List.length_drop, hlen, hlen'] at hshort
    unfold maxHops at hshort
    omega

theorem resumed_on {ts last : List StepTrace} {q : Position} (hk : k ≤ ts.length)
    (hgoes : Goes (hop ex f.definition) f.start ts q)
    (hend : ts.length < maxHops ∧ hop ex f.definition q = .stop o last ∨ ts.length = maxHops ∧ (last, o) = hopLimit)
    (hread : (ts.take k).mapM col.trace = some completed) :
    executeGraphResuming ex f.definition f.start.state completed = some (ts.drop k ++ last, o) ↔
      ts.take k = [] ∨ (∀ t ∈ ts.take k, t.named = false) ∧ Ends (hop ex f.definition) maxHops f.start ∧
        LeadsOn ex f.definition f.start.state (ts.take k) completed := by
  obtain ⟨m, hfront, hback⟩ := goes_take hgoes k
  have hm : m = position f.definition f.start.state (ts.take k) := restore_of_goes hfront
  have hnil (h : ts.take k = []) : position f.definition f.start.state completed = m := by
    rw [h] at hread hm
    cases hread
    exact hm.symm
  by_cases hnames : ∀ t ∈ ts.take k, t.named = false
  · have hresume : executeGraphResuming ex f.definition f.start.state completed =
        walkGraph ex f.definition (position f.definition f.start.state completed) := resume_of_goes hfront hnames hread
    rw [hresume]
    rcases hend with ⟨hlt, hstop⟩ | ⟨hlen, hover⟩
    · have hends := ends_of_stop hgoes hlt hstop
      have hwalk : walkGraph ex f.definition m = some (ts.drop k ++ last, o) :=
        walk_of_stop hback (lt_of_le_of_lt (by simp) hlt) hstop
      have halike : walkGraph ex f.definition (position f.definition f.start.state completed) = walkGraph ex f.definition m ↔
          Alike ex f.definition m (position f.definition f.start.state completed) := by
        rw [hm]
        exact walk_eq_iff f.resolves (position_current hread)
      rw [← hwalk, halike]
      constructor
      · exact fun h => .inr ⟨hnames, hends, .inr (hm ▸ h)⟩
      · rintro (h | ⟨-, -, hover | h⟩)
        · exact .inl (by rw [hnil h])
        · exact absurd hover (not_over hfront)
        · exact hm ▸ h
    · cases hover
      have hnot : ¬ Ends (hop ex f.definition) maxHops f.start := hlen ▸ not_ends_of_goes hgoes
      rcases Nat.eq_zero_or_pos k with rfl | hpos
      · obtain rfl : f.start = m := hfront
        refine ⟨fun _ => .inl rfl, fun _ => ?_⟩
        have hwalk : walk (hop ex f.definition) hopLimit (ts.length + 0) f.start = _ := walk_of_goes hgoes
        rw [Nat.add_zero, hlen] at hwalk
        rw [hnil rfl]
        exact hwalk
      · refine ⟨fun h => absurd h (walk_ne_over hpos hlen), ?_⟩
        rintro (hnil | ⟨-, hends, -⟩)
        · rw [List.take_eq_nil_iff] at hnil
          rcases hnil with rfl | rfl
          · cases hpos
          · cases hlen
        · exact absurd hends hnot
  · -- a stored name is an edge's: the resumed run fails at once
    obtain ⟨t, ht, hnamed⟩ : ∃ t ∈ ts.take k, t.named = true := by simpa using hnames
    rw [resume_of_ends ⟨t, ht, by simp [ends_eq, hnamed]⟩ hread]
    constructor
    · intro h
      obtain ⟨hnil, rfl⟩ := Prod.mk.inj (Option.some.inj h)
      obtain ⟨-, rfl⟩ := List.append_eq_nil_iff.1 hnil.symm
      rcases hend with ⟨-, hstop⟩ | ⟨-, hover⟩
      · cases hop_stop hstop
      · cases (Prod.mk.inj hover).1
    · rintro (hnil | ⟨hno, -⟩)
      · rw [hnil] at ht
        cases ht
      · exact absurd hno hnames

theorem resumed_last {t : StepTrace} {q : Position} (hgoes : Goes (hop ex f.definition) f.start ts q)
    (hend : ts.length < maxHops ∧ hop ex f.definition q = .stop o [t] ∨ ts.length = maxHops ∧ ([t], o) = hopLimit)
    (hread : (ts ++ [t]).mapM col.trace = some completed) :
    executeGraphResuming ex f.definition f.start.state completed = some ([], o) ↔
      t.error.isSome = true ∨ (∀ u ∈ ts ++ [t], u.named = false) ∧ Ends (hop ex f.definition) maxHops f.start ∧
        LeadsOn ex f.definition f.start.state (ts ++ [t]) completed := by
  have hfails (hsome : t.error.isSome = true) :
      executeGraphResuming ex f.definition f.start.state completed = some ([], .failed) :=
    resume_of_ends ⟨t, by simp, by simp [ends_eq, hsome]⟩ hread
  have hwell {n : NodeDef} (hlt : ts.length < maxHops) (hstop : hop ex f.definition q = .stop o [t])
      (error : t.error = none) (node : f.definition.nodes.find? (fun n => n.id == t.nodeId) = some n)
      (hkind : n.kind = .terminal ∧ o = .success ∨ n.kind = .filter ∧ t.output = .null ∧ o = .skipped) :
      executeGraphResuming ex f.definition f.start.state completed = some ([], o) ↔
        t.error.isSome = true ∨ (∀ u ∈ ts ++ [t], u.named = false) ∧ Ends (hop ex f.definition) maxHops f.start ∧
          LeadsOn ex f.definition f.start.state (ts ++ [t]) completed := by
    have herror : ∀ u ∈ ts ++ [t], u.error = none := by
      intro u hu
      rcases List.mem_append.1 hu with hu | hu
      · exact (resumes_of_goes hgoes u hu).error
      · rw [List.mem_singleton.1 hu, error]
    by_cases hnames : ∀ u ∈ ts ++ [t], u.named = false
    · have hgo : ∀ u ∈ ts ++ [t], u.ends = false := fun u hu => by simp [ends_eq, herror u hu, hnames u hu]
      have hover : Over f.definition (ts ++ [t]) :=
        ⟨t, n, List.getLast?_concat, node, hkind.imp And.left fun h => ⟨h.1, h.2.1⟩⟩
      exact ⟨fun _ => .inr ⟨hnames, ends_of_stop hgoes hlt hstop, .inl hover⟩,
        fun _ => resume_of_last hgo node hkind hread⟩
    · obtain ⟨u, hu, hnamed⟩ : ∃ u ∈ ts ++ [t], u.named = true := by simpa using hnames
      rw [resume_of_ends ⟨u, hu, by simp [ends_eq, hnamed]⟩ hread]
      constructor
      · intro h
        cases (Prod.mk.inj (Option.some.inj h)).2
        rcases hkind with ⟨-, hkind⟩ | ⟨-, -, hkind⟩ <;> cases hkind
      · rintro (hsome | ⟨hno, -⟩)
        · rw [error] at hsome
          cases hsome
        · exact absurd hno hnames
  rcases hend with ⟨hlt, hstop⟩ | ⟨-, hover⟩
  · cases hop_stop hstop with
    | done error node kind => exact hwell hlt hstop error node (.inl ⟨kind, rfl⟩)
    | dropped error node kind output => exact hwell hlt hstop error node (.inr ⟨kind, output, rfl⟩)
    | broke error _ => exact ⟨fun _ => .inl error, fun _ => hfails error⟩
  · obtain ⟨hlast, rfl⟩ := Prod.mk.inj hover
    cases (List.cons.inj hlast).1
    exact ⟨fun _ => .inl rfl, fun _ => hfails rfl⟩

theorem resumed_iff (hwalk : walkGraph ex f.definition f.start = some (f.traces ex, o))
    (hread : ((f.traces ex).take k).mapM col.trace = some completed) :
    executeGraphResuming ex f.definition f.start.state completed = some ((f.traces ex).drop k, o) ↔
      (f.traces ex).take k = [] ∨ (∃ t ∈ (f.traces ex).take k, t.error.isSome = true) ∨
        (∀ t ∈ (f.traces ex).take k, t.named = false) ∧ Ends (hop ex f.definition) maxHops f.start ∧
          LeadsOn ex f.definition f.start.state ((f.traces ex).take k) completed := by
  generalize f.traces ex = T at hwalk hread ⊢
  obtain ⟨ts, q, last, rfl, hgoes, hend⟩ := walk_cases hwalk
  have hresumes := resumes_of_goes hgoes
  by_cases hk : k ≤ ts.length
  · rw [List.take_append_of_le_length hk] at hread ⊢
    rw [List.drop_append_of_le_length hk, resumed_on hk hgoes hend hread]
    have hgood : ¬ ∃ t ∈ ts.take k, t.error.isSome = true := by
      rintro ⟨t, ht, hsome⟩
      rw [(hresumes t (List.mem_of_mem_take ht)).error] at hsome
      cases hsome
    simp [hgood]
  · -- everything was stored
    have hall : (ts ++ last).take k = ts ++ last ∧ (ts ++ last).drop k = [] ∧ (last = [] ∨ ∃ t, last = [t]) := by
      have hlast : last = [] ∨ ∃ t, last = [t] := by
        rcases hend with ⟨-, hstop⟩ | ⟨-, hover⟩
        · cases hop_stop hstop with
          | ended => exact .inl rfl
          | done | dropped | broke => exact .inr ⟨_, rfl⟩
        · exact .inr ⟨_, (Prod.mk.inj hover).1⟩
      have hlen : (ts ++ last).length ≤ k := by
        rcases hlast with rfl | ⟨t, rfl⟩ <;> simp <;> omega
      exact ⟨List.take_of_length_le hlen, List.drop_of_length_le hlen, hlast⟩
    obtain ⟨htake, hdrop, rfl | ⟨t, rfl⟩⟩ := hall
    · rw [htake, List.append_nil] at hread
      have hon := resumed_on (le_refl ts.length) hgoes hend (by rwa [List.take_length])
      have hgood : ¬ ∃ t ∈ ts, t.error.isSome = true := by
        rintro ⟨t, ht, hsome⟩
        rw [(hresumes t ht).error] at hsome
        cases hsome
      rw [List.append_nil] at htake hdrop ⊢
      rw [htake, hdrop]
      simpa [hgood] using hon
    · have hgood : (∃ u ∈ ts ++ [t], u.error.isSome = true) ↔ t.error.isSome = true := by
        constructor
        · rintro ⟨u, hu, hsome⟩
          rcases List.mem_append.1 hu with hu | hu
          · rw [(hresumes u hu).error] at hsome
            cases hsome
          · rwa [List.mem_singleton.1 hu] at hsome
        · exact fun hsome => ⟨t, by simp, hsome⟩
      rw [htake] at hread
      rw [htake, hdrop, resumed_last hgoes hend hread, hgood]
      simp

theorem failed_iff (hwalk : walkGraph ex f.definition f.start = some (f.traces ex, o)) :
    (∃ t ∈ f.traces ex, t.error.isSome = true) ↔ o = .failed := by
  generalize f.traces ex = T at hwalk ⊢
  constructor
  · rintro ⟨t, ht, hsome⟩
    obtain ⟨ts, q, last, rfl, hgoes, hend⟩ := walk_cases hwalk
    rcases List.mem_append.1 ht with ht | ht
    · rw [(resumes_of_goes hgoes t ht).error] at hsome
      cases hsome
    · rcases hend with ⟨-, hstop⟩ | ⟨-, hover⟩
      · cases hop_stop hstop with
        | ended => cases ht
        | done error | dropped error => rw [List.mem_singleton.1 ht, error] at hsome; cases hsome
        | broke => rfl
      · exact (Prod.mk.inj hover).2
  · rintro rfl
    obtain ⟨ts, q, t, rfl, herror, -⟩ := walk_failed hwalk
    exact ⟨t, by simp, herror⟩

theorem redriven_of_error {failing : StepTrace} (herror : failing.error.isSome = true) :
    redriven (ts ++ [failing]) = ts := by simp [redriven, ends_eq, herror]

theorem redriveFailed_failed {run : AutomationRun} {actor reason : String} {at_ : Int} {valid : String × String}
    (hvalid : validateRedriveRequest actor reason = .ok valid) (hstatus : run.status = .failed) :
    let row := { run with
      status := .pending, startedAt := at_, finishedAt := none, stepTraces := redriven run.stepTraces }
    redriveFailed col actor reason at_ run =
      (row, match (redriven run.stepTraces).mapM col.trace with
        | none => .error (.invariant "redriven automation run disappeared")
        | some completed => .ok { row with stepTraces := completed }) := by
  unfold redriveFailed
  rw [hvalid]
  simp only [if_pos hstatus, AutomationRun.completed]
  cases (redriven run.stepTraces).mapM col.trace <;> rfl

theorem valid_operator : ∃ valid, validateRedriveRequest "operator" "retry" = .ok valid :=
  ⟨("operator", "retry"), by decide⟩

/-- **A run is resumed exactly when it can be.** -/
theorem resumes_iff (f : Firing decode) (ex : Executor) (col : TraceColumn) (k : Nat) :
    f.ResumesExactly ex col k ↔ f.Resumable ex col k := by
  obtain ⟨o, hwalk⟩ := walk_traces f ex
  have hwhole (current : AutomationDef) (now : Int) : runOne ex col current f.eventCtx now f.row =
      some (f.row.conclude col now (f.traces ex, o)) := runOne_whole hwalk current now
  have hfailed := failed_iff hwalk
  constructor
  · intro h
    have htakes : ∀ t ∈ f.traces ex, col.takes t = true := by
      obtain ⟨run, hrun⟩ := h.ends f.definition 0
      rw [hwhole] at hrun
      exact takes_of_conclude (Option.some.inj hrun)
    obtain ⟨completed, hread, hresumed⟩ := (crash_iff hwalk htakes).1 h.crash
    refine ⟨htakes, ⟨completed, hread, (resumed_iff hwalk hread).1 hresumed⟩, fun herror => ?_⟩
    obtain rfl := hfailed.1 herror
    obtain ⟨ts, q, failing, hts, hfailing, hgoes⟩ := walk_failed hwalk
    have hfinished := hwhole f.definition 0
    rw [conclude_eq htakes] at hfinished
    obtain ⟨valid, hvalid⟩ := valid_operator
    obtain ⟨run, resumed, q', failing', hredrive, hlast, hgoes', hwalks⟩ :=
      h.redrive f.definition 0 _ hfinished rfl "operator" "retry" 0 valid hvalid
    have hall : f.traces ex = run.stepTraces ++ [failing'] := hlast
    obtain ⟨hrun, -⟩ := List.append_inj' (hall.symm.trans hts) rfl
    rw [redriveFailed_failed hvalid rfl] at hredrive
    obtain ⟨-, hresult⟩ := Prod.mk.inj hredrive
    have hredriven : redriven (f.traces ex) = ts := by rw [hts, redriven_of_error hfailing]
    rw [hts, List.dropLast_concat]
    cases hts' : ts.mapM col.trace with
    | none => simp [row, insertPending, hredriven, hts'] at hresult
    | some completed =>
      have hresumed' : resumed.stepTraces = completed := by
        simp [row, insertPending, hredriven, hts'] at hresult
        rw [← hresult]
      rw [hresumed'] at hwalks
      rw [hrun] at hgoes'
      have hq' : q' = position f.definition f.start.state ts := restore_of_goes hgoes'
      have hnames : ∀ t ∈ ts, t.named = false := by
        by_contra hnot
        obtain ⟨t, ht, hnamed⟩ : ∃ t ∈ ts, t.named = true := by simpa using hnot
        -- the redriven run fails at once, and a walk does not
        have hat := (hwalks ex).1
        rw [resume_of_ends ⟨t, ht, by simp [ends_eq, hnamed]⟩ hts'] at hat
        obtain ⟨ts', -, u, hnil, -⟩ := walk_failed hat.symm
        simp at hnil
      refine ⟨completed, rfl, hnames, fun ex' => ?_⟩
      have hresume : executeGraphResuming ex' f.definition f.start.state completed =
          walkGraph ex' f.definition (position f.definition f.start.state completed) :=
        resume_of_goes hgoes' hnames hts'
      refine (walk_eq_iff f.resolves (position_current hts')).1 (hresume.symm.trans ?_)
      rw [(hwalks ex').1, hq']
  · rintro ⟨htakes, ⟨completed, hread, hstored⟩, hredrives⟩
    have hends (current : AutomationDef) (now : Int) :
        ∃ run, runOne ex col current f.eventCtx now f.row = some (run, .ok ()) :=
      ⟨_, (hwhole current now).trans (by rw [conclude_eq htakes])⟩
    have hcrash := (crash_iff hwalk htakes).2 ⟨completed, hread, (resumed_iff hwalk hread).2 hstored⟩
    refine ⟨hends, hcrash, ?_, fun ex' state completed => ?_⟩
    · intro current now failed hrun hstatus actor reason at_ valid hvalid
      rw [hwhole, conclude_eq htakes] at hrun
      cases hrun
      obtain rfl : o = .failed := status_inj hstatus
      obtain ⟨ts, q, failing, hts, hfailing, hgoes⟩ := walk_failed hwalk
      obtain ⟨completed, hread, hnames, halike⟩ := hredrives (hfailed.2 rfl)
      have hredriven : redriven (f.traces ex) = ts := by rw [hts, redriven_of_error hfailing]
      rw [hts, List.dropLast_concat] at hread hnames halike
      have hq : q = position f.definition f.start.state ts := restore_of_goes hgoes
      have hresume (ex' : Executor) : executeGraphResuming ex' f.definition f.start.state completed =
          walkGraph ex' f.definition q := by
        rw [hq, ← (walk_eq_iff f.resolves (position_current hread)).2 (halike ex')]
        exact resume_of_goes hgoes hnames hread
      rw [redriveFailed_failed hvalid hstatus]
      simp only [row, insertPending, List.nil_append, hredriven, hread]
      refine ⟨_, _, q, failing, rfl, hts, hgoes, fun ex' => ⟨hresume ex', fun current' now' => ?_⟩⟩
      rw [← hresume]
      refine runOne_row ?_ ?_ ?_ ?_ current' now'
      · rfl
      · exact hread
      · rfl
      · rfl
    · exact Option.isSome_iff_ne_none.1 (executeGraphResuming_isSome f.resolves state completed)

/-! ### A node named like an edge's trace -/

def edgeNamed : Firing (fun _ => .error "no AskAgent node") where
  accepted := {
    definition := {
      nodes := [⟨"edge-from:a", .branch, .obj []⟩]
      edges := [{ «from» := "trigger", «to» := "edge-from:a" }, { «from» := "edge-from:a", «to» := "END" }] }
    valid := by decide }
  id := "run"
  automationId := "automation"
  eventId := "event"
  eventCtx := .null
  startedAt := 0

def idle : Executor := ⟨fun _ _ => .ok true, fun _ _ => .ok .null, fun _ _ => .ok .null⟩

def exactColumn : TraceColumn := ⟨fun _ => true, some, rfl, rfl⟩

/-- **The run succeeds; resumed behind its only node, it fails.** -/
theorem edgeNamed_fails : ¬ edgeNamed.ResumesExactly idle exactColumn 1 := by
  intro h
  have hstatus := congrArg (Option.map fun r => r.1.status) (h.crash edgeNamed.definition 0)
  exact absurd hstatus (by decide)

end Firing

end Execlaw
