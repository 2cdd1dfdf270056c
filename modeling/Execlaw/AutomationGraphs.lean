import Execlaw.Json
import Execlaw.Outbox
import Execlaw.Walks
/-!
# AutomationGraphs — automations and their runs (`core/src/automations.rs`, `server/src/automation_runtime.rs`)

A definition is a graph of nodes; `validate` accepts it.  A run walks the graph from its trigger, one node a hop, and
appends the trace of every node to its row; `execute_graph_resuming` takes the stored traces, as their text is read back,
and goes on from the last.  How long a node took is left out.  Expressions, and nodes that act on the outside, are
arguments, and so is what the column of traces makes of a JSON value.
-/
namespace Execlaw

open Walks

/-! ## Definitions -/

inductive NodeKind
  | filter | transform | branch | terminal | askAgent | callPlugin | appendToChat | httpFetch | notify | awaitApproval
  | callAutomation | parallel | join
deriving DecidableEq

def NodeKind.asStr : NodeKind → String
  | .filter => "Filter"
  | .transform => "Transform"
  | .branch => "Branch"
  | .terminal => "Terminal"
  | .askAgent => "AskAgent"
  | .callPlugin => "CallPlugin"
  | .appendToChat => "AppendToChat"
  | .httpFetch => "HttpFetch"
  | .notify => "Notify"
  | .awaitApproval => "AwaitApproval"
  | .callAutomation => "CallAutomation"
  | .parallel => "Parallel"
  | .join => "Join"

def NodeKind.isImplemented : NodeKind → Bool
  | .filter | .transform | .branch | .terminal | .askAgent | .notify | .callPlugin | .httpFetch => true
  | .appendToChat | .awaitApproval | .callAutomation | .parallel | .join => false

structure NodeDef where
  id : String
  kind : NodeKind
  config : Json

structure EdgeDef where
  «from» : String
  «to» : String
  «when» : Option String := none

structure AutomationDef where
  nodes : List NodeDef
  edges : List EdgeDef

def triggerSentinel : String := "trigger"
def endSentinel : String := "END"

/-! ## Validation -/

structure AskAgentConfig where
  prompt : String
  /-- The names of the exit tools. -/
  exitTools : List String

def isSeverity (s : String) : Bool := s == "Critical" || s == "Error" || s == "Warning" || s == "Info"

def argsKind : Json → String
  | .null => "null"
  | .bool _ => "bool"
  | .num _ => "number"
  | .str _ => "string"
  | .arr _ => "array"
  | .obj _ => "object"

def validateExitTools (id : String) (seen : List String) : List String → Except String Unit
  | [] => .ok ()
  | name :: rest =>
    if (trim name).isEmpty then .error s!"AskAgent node '{id}': exit tool with empty name"
    else if name ∈ seen then .error s!"AskAgent node '{id}': duplicate exit tool name '{name}'"
    else validateExitTools id (name :: seen) rest

/-- The checks of one node's kind; `decode` is the decoder of an AskAgent configuration. -/
def validateKind (decode : Json → Except String AskAgentConfig) (n : NodeDef) : Except String Unit :=
  match n.kind with
  | .askAgent =>
    match decode n.config with
    | .error e => .error s!"AskAgent config: {e}"
    | .ok cfg =>
      if (trim cfg.prompt).isEmpty then .error s!"AskAgent node '{n.id}': prompt is empty"
      else if cfg.exitTools.isEmpty then
        .error (s!"AskAgent node '{n.id}': exit_tools is empty " ++
          "(the agent must have at least one tool to call)")
      else validateExitTools n.id [] cfg.exitTools
  | .notify =>
    if (trim (((n.config.get "title").bind Json.asStr).getD "")).isEmpty then
      .error s!"Notify node '{n.id}': config.title is required and must be a non-empty string"
    else
      match (n.config.get "severity").bind Json.asStr with
      | none => .ok ()
      | some sev =>
        if isSeverity sev then .ok ()
        else .error s!"Notify node '{n.id}': unknown severity '{sev}' (expected Critical|Error|Warning|Info)"
  | .callPlugin =>
    if (trim (((n.config.get "tool").bind Json.asStr).getD "")).isEmpty then
      .error s!"CallPlugin node '{n.id}': config.tool is required (registered tool name)"
    else
      match n.config.get "args" with
      | none => .ok ()
      | some args =>
        if args.isObject then .ok ()
        else .error s!"CallPlugin node '{n.id}': config.args must be a JSON object (got {argsKind args})"
  | _ => .ok ()

def validateNodes (decode : Json → Except String AskAgentConfig) (ids : List String) :
    List NodeDef → Except String (List String)
  | [] => .ok ids
  | n :: rest =>
    if n.id.isEmpty then .error "empty node id"
    else if n.id = triggerSentinel ∨ n.id = endSentinel then .error s!"node id '{n.id}' is reserved"
    else if n.id ∈ ids then .error s!"duplicate node id '{n.id}'"
    else if !n.kind.isImplemented then
      .error (s!"node kind '{n.kind.asStr}' not yet implemented " ++
        "(reserved in v3.2 design, lands in a later milestone)")
    else
      match validateKind decode n with
      | .error e => .error e
      | .ok () => validateNodes decode (n.id :: ids) rest

def validateEdges (ids : List String) : List EdgeDef → Except String Unit
  | [] => .ok ()
  | e :: rest =>
    if e.from ≠ triggerSentinel ∧ e.from ∉ ids then .error s!"edge.from references unknown node '{e.from}'"
    else if e.to ≠ endSentinel ∧ e.to ∉ ids then .error s!"edge.to references unknown node '{e.to}'"
    else validateEdges ids rest

def validate (decode : Json → Except String AskAgentConfig) (d : AutomationDef) : Except String Unit :=
  match validateNodes decode [] d.nodes with
  | .error e => .error e
  | .ok ids =>
    match validateEdges ids d.edges with
    | .error e => .error e
    | .ok () =>
      match d.nodes.find? (fun n => n.kind != .terminal && !d.edges.any (fun e => e.from == n.id)) with
      | some n => .error s!"node '{n.id}' has no outgoing edge and is not Terminal (orphaned)"
      | none =>
        if d.edges.any (fun e => e.from == triggerSentinel) then .ok ()
        else .error "no edge from trigger — automation has no entry point"

/-! ## Executing a graph -/

/-- An entry of `step_traces`. -/
structure StepTrace where
  nodeId : String
  input : Json
  output : Json
  error : Option String := none

abbrev NodeState := List (String × Json)

def NodeState.insert (state : NodeState) (key : String) (value : Json) : NodeState :=
  if state.any (fun m => m.1 == key) then state.map (fun m => if m.1 = key then (key, value) else m)
  else state ++ [(key, value)]

structure Executor where
  evalBool : String → NodeState → Except String Bool
  evalValue : String → NodeState → Except String Json
  /-- `AskAgent`, `Notify`, `CallPlugin` and `HttpFetch`. -/
  perform : NodeDef → NodeState → Except String Json

inductive NodeOutcome
  | output (value : Json)
  | drop
  | terminal
  | error (msg : String)

inductive ExecOutcome | success | skipped | failed

variable (ex : Executor)

def executeFilter (node : NodeDef) (state : NodeState) : NodeOutcome :=
  match (node.config.get "expr").bind Json.asStr with
  | none => .error "Filter node missing config.expr (must be Rhai bool expression)"
  | some expr =>
    match ex.evalBool expr state with
    | .ok true => .output (.obj [("passed", .bool true)])
    | .ok false => .drop
    | .error e => .error s!"Filter expr rhai eval failed: {e}"

def executeTransform (node : NodeDef) (state : NodeState) : NodeOutcome :=
  match (node.config.get "expr").bind Json.asStr with
  | none => .error "Transform node missing config.expr (must be Rhai expression)"
  | some expr =>
    match ex.evalValue expr state with
    | .ok v => .output v
    | .error e => .error s!"Transform expr rhai eval failed: {e}"

def executeNode (node : NodeDef) (state : NodeState) : NodeOutcome :=
  match node.kind with
  | .filter => executeFilter ex node state
  | .transform => executeTransform ex node state
  | .branch => .output (.obj [])
  | .terminal => .terminal
  | .askAgent | .notify | .callPlugin | .httpFetch =>
    match ex.perform node state with
    | .ok v => .output v
    | .error e => .error e
  | kind => .error s!"node kind '{kind.asStr}' not implemented in this milestone"

def pickNextEdge (current : String) (state : NodeState) : List EdgeDef → Except String (Option String)
  | [] => .ok none
  | e :: rest =>
    if e.from = current then
      match e.when with
      | none => .ok (some e.to)
      | some expr =>
        match ex.evalBool expr state with
        | .error msg => .error s!"edge.when rhai eval failed: {msg}"
        | .ok true => .ok (some e.to)
        | .ok false => pickNextEdge current state rest
    else pickNextEdge current state rest

structure Position where
  current : String
  state : NodeState

def edgePrefix : String := "edge-from:"

def hop (d : AutomationDef) (p : Position) : Hop Position StepTrace ExecOutcome :=
  match pickNextEdge ex p.current p.state d.edges with
  | .ok none => .stop .success []
  | .error msg => .stop .failed [⟨edgePrefix ++ p.current, .null, .null, some msg⟩]
  | .ok (some next) =>
    if next = endSentinel then .stop .success []
    else
      match d.nodes.find? (fun n => n.id == next) with
      | none => .stuck
      | some node =>
        match executeNode ex node p.state with
        | .output value => .on ⟨node.id, .obj p.state, value, none⟩ ⟨node.id, p.state.insert node.id value⟩
        | .drop => .stop .skipped [⟨node.id, .obj p.state, .null, none⟩]
        | .terminal => .stop .success [⟨node.id, .obj p.state, .null, none⟩]
        | .error msg => .stop .failed [⟨node.id, .obj p.state, .null, some msg⟩]

def maxHops : Nat := 256

def hopLimit : List StepTrace × ExecOutcome :=
  ([⟨"(executor)", .null, .null, some "automation exceeded 256 hops; suspected cycle"⟩], .failed)

def walkGraph (d : AutomationDef) (p : Position) : Option (List StepTrace × ExecOutcome) :=
  walk (hop ex d) hopLimit maxHops p

def StepTrace.ends (t : StepTrace) : Bool := t.error.isSome || edgePrefix.toList.isPrefixOf t.nodeId.toList

def restore (d : AutomationDef) (state : NodeState) (traces : List StepTrace) : NodeState :=
  traces.foldl (fun state t => if d.nodes.any (fun n => n.id == t.nodeId) then state.insert t.nodeId t.output else state)
    state

/-- **`execute_graph_resuming`**: the new traces and the outcome. -/
def executeGraphResuming (d : AutomationDef) (state : NodeState) (completed : List StepTrace) :
    Option (List StepTrace × ExecOutcome) :=
  match completed.getLast? with
  | none => walkGraph ex d ⟨triggerSentinel, state⟩
  | some last =>
    if completed.any StepTrace.ends then some ([], .failed)
    else
      match d.nodes.find? (fun n => n.id == last.nodeId) with
      | none => some ([], .failed)
      | some node =>
        if node.kind = .terminal then some ([], .success)
        else if node.kind = .filter ∧ (last.output.get "passed").bind Json.asBool ≠ some true then some ([], .skipped)
        else walkGraph ex d ⟨last.nodeId, restore d state completed⟩

/-! ## Runs (`core/src/automation_runs.rs`) -/

inductive AutomationRunStatus | pending | running | success | failed | skipped
deriving DecidableEq

def AutomationRunStatus.isTerminal : AutomationRunStatus → Bool
  | .success | .failed | .skipped => true
  | .pending | .running => false

/-- The column of traces: whether SQLite's `json` takes the text of a trace, and what the text of a value is read back as. -/
structure TraceColumn where
  takes : StepTrace → Bool
  reads : Json → Option Json
  null : reads .null = some .null
  passed : reads (.obj [("passed", .bool true)]) = some (.obj [("passed", .bool true)])

def TraceColumn.trace (col : TraceColumn) (t : StepTrace) : Option StepTrace :=
  (col.reads t.input).bind fun input => (col.reads t.output).map fun output => { t with input := input, output := output }

/-- A row of `state_automation_runs`, with the definition it froze. -/
structure AutomationRun where
  id : String
  automationId : String
  eventId : String
  status : AutomationRunStatus
  stepTraces : List StepTrace
  startedAt : Int
  finishedAt : Option Int
  definition : Option AutomationDef

def insertPending (id automationId eventId : String) (definition : AutomationDef) (startedAt : Int) : AutomationRun :=
  ⟨id, automationId, eventId, .pending, [], startedAt, none, some definition⟩

section Column

variable (col : TraceColumn)

/-- The traces `get` reads. -/
def AutomationRun.completed (run : AutomationRun) : Option (List StepTrace) := run.stepTraces.mapM col.trace

def AutomationRun.appendTrace (run : AutomationRun) (t : StepTrace) : AutomationRun :=
  if col.takes t then
    { run with
      stepTraces := run.stepTraces ++ [t]
      status := if run.status = .pending then .running else run.status }
  else run

def AutomationRun.finish (run : AutomationRun) (status : AutomationRunStatus) (finishedAt : Int) : AutomationRun :=
  { run with status := status, finishedAt := some finishedAt }

def ExecOutcome.status : ExecOutcome → AutomationRunStatus
  | .success => .success
  | .skipped => .skipped
  | .failed => .failed

def AutomationRun.initial (run : AutomationRun) (eventCtx : Json) : NodeState :=
  NodeState.insert (NodeState.insert [] "event" eventCtx) "__automation_id__" (.str run.automationId)

/-- The traces are stored as they come, and a run with one that is refused is not finished. -/
def AutomationRun.conclude (run : AutomationRun) (now : Int) (r : List StepTrace × ExecOutcome) :
    AutomationRun × Except String Unit :=
  let stored := r.1.foldl (AutomationRun.appendTrace col) run
  if r.1.all col.takes then (stored.finish r.2.status now, .ok ())
  else (stored, .error ("persist automation step trace: " ++ (DbError.sqlite "malformed JSON").display))

/-- **`run_one`** on the row of the automation and its event. -/
def runOne (definition : AutomationDef) (eventCtx : Json) (now : Int) (run : AutomationRun) :
    Option (AutomationRun × Except String Unit) :=
  match run.completed col with
  | none => some (run, .error s!"automation run '{run.id}' disappeared")
  | some completed =>
    if run.status.isTerminal then some (run, .ok ())
    else
      (executeGraphResuming ex (run.definition.getD definition) (run.initial eventCtx) completed).map (run.conclude col now)

def redriven (traces : List StepTrace) : List StepTrace :=
  if traces.getLast?.any StepTrace.ends then traces.dropLast else traces

/-- `redrive_failed`, without its row of the job redrive journal: the row, and the answer, read back behind the commit. -/
def redriveFailed (actor reason : String) (now : Int) (run : AutomationRun) : AutomationRun × Except DbError AutomationRun :=
  match validateRedriveRequest actor reason with
  | .error e => (run, .error e)
  | .ok _ =>
    if run.status = .failed then
      let row := { run with
        status := .pending, startedAt := now, finishedAt := none, stepTraces := redriven run.stepTraces }
      match row.completed col with
      | none => (row, .error (.invariant "redriven automation run disappeared"))
      | some completed => (row, .ok { row with stepTraces := completed })
    else (run, .error noRows)

end Column

end Execlaw
