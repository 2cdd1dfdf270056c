import Execlaw.JsonWrite
import Execlaw.Utf8Text
/-!
# ChatMessages — the messages of a model request (`inference-api/src/lib.rs`)

A message with role `tool` answers the assistant message that made its call (`Answers`).  A request is sent as JSON,
without the fields that are not given; how an `f32` is written is an argument.
-/
namespace Execlaw

inductive Role | system | user | assistant | tool
deriving DecidableEq

inductive ContentPart
  | text (text : String)
  | imageUrl (url : String)
deriving DecidableEq

inductive MessageContent
  | text (text : String)
  | parts (parts : List ContentPart)
deriving DecidableEq

def MessageContent.asText : MessageContent → String
  | .text s => s
  | .parts items => "\n".intercalate (items.filterMap fun
    | .text s => some s
    | .imageUrl _ => none)

structure ToolCallFunction where
  name : String
  arguments : String
deriving DecidableEq

structure ToolCall where
  id : String
  kind : String
  function : ToolCallFunction
deriving DecidableEq

structure ChatMessage where
  role : Role
  content : Option MessageContent := none
  reasoningContent : Option String := none
  toolCallId : Option String := none
  name : Option String := none
  toolCalls : List ToolCall := []
deriving DecidableEq

structure FunctionDecl where
  name : String
  description : String
  parameters : Json

structure ToolDeclaration where
  kind : String
  function : FunctionDecl

structure ChatRequest where
  model : String
  messages : List ChatMessage
  tools : Option (List ToolDeclaration) := none
  stream : Bool := false
  /-- The bits of an `f32`. -/
  temperature : Option UInt32 := none
  maxTokens : Option UInt32 := none
  chatTemplateKwargs : Option Json := none
  toolChoice : Option Json := none
  responseFormat : Option Json := none
  guidedDecodingBackend : Option String := none

namespace ChatMessage

def isUser (m : ChatMessage) : Bool := m.role == .user

def isSystem (m : ChatMessage) : Bool := m.role == .system

def calls (m : ChatMessage) (id : String) : Bool := m.role == .assistant && m.toolCalls.any (·.id == id)

end ChatMessage

/-! ## As JSON -/

def Role.asStr : Role → String
  | .system => "system"
  | .user => "user"
  | .assistant => "assistant"
  | .tool => "tool"

def ContentPart.toJson : ContentPart → Json
  | .text s => .obj [("type", .str "text"), ("text", .str s)]
  | .imageUrl url => .obj [("type", .str "image_url"), ("image_url", .obj [("url", .str url)])]

def MessageContent.toJson : MessageContent → Json
  | .text s => .str s
  | .parts items => .arr (items.map ContentPart.toJson)

def optionalField (key : String) (v : Option Json) : List (String × Json) := (v.map fun v => (key, v)).toList

def ToolCall.toJson (c : ToolCall) : Json :=
  .obj [("id", .str c.id), ("type", .str c.kind),
    ("function", .obj [("name", .str c.function.name), ("arguments", .str c.function.arguments)])]

def ChatMessage.toJson (m : ChatMessage) : Json :=
  .obj ([("role", .str m.role.asStr)] ++ optionalField "content" (m.content.map MessageContent.toJson) ++
    optionalField "reasoning_content" (m.reasoningContent.map .str) ++
    optionalField "tool_call_id" (m.toolCallId.map .str) ++ optionalField "name" (m.name.map .str) ++
    if m.toolCalls = [] then [] else [("tool_calls", .arr (m.toolCalls.map ToolCall.toJson))])

def ToolDeclaration.toJson (t : ToolDeclaration) : Json :=
  .obj [("type", .str t.kind), ("function", .obj [("name", .str t.function.name),
    ("description", .str t.function.description), ("parameters", t.function.parameters)])]

def ChatRequest.toJson (f32 : UInt32 → Json) (r : ChatRequest) : Json :=
  .obj ([("model", .str r.model), ("messages", .arr (r.messages.map ChatMessage.toJson))] ++
    optionalField "tools" (r.tools.map fun tools => .arr (tools.map ToolDeclaration.toJson)) ++
    [("stream", .bool r.stream)] ++ optionalField "temperature" (r.temperature.map f32) ++
    optionalField "max_tokens" (r.maxTokens.map fun n => .num (toString n.toNat)) ++
    optionalField "chat_template_kwargs" r.chatTemplateKwargs ++ optionalField "tool_choice" r.toolChoice ++
    optionalField "response_format" r.responseFormat ++
    optionalField "guided_decoding_backend" (r.guidedDecodingBackend.map .str))

def serializedLen (v : Json) : Nat := Utf8Text.size v.write

/-! ## Calls and answers -/

/-- The tool message at `j` answers the assistant message at `i`: the nearest before it that makes the call it names. -/
def Answers (messages : List ChatMessage) (i j : Nat) : Prop :=
  i < j ∧ ∃ a t id, messages[i]? = some a ∧ messages[j]? = some t ∧ t.role = .tool ∧ t.toolCallId = some id ∧ a.calls id ∧
    ∀ l, i < l → l < j → ∀ m, messages[l]? = some m → m.calls id = false

theorem Answers.lt {messages : List ChatMessage} {i j : Nat} (h : Answers messages i j) : j < messages.length := by
  obtain ⟨-, a, t, id, -, ht, -⟩ := h
  exact (List.getElem?_eq_some_iff.1 ht).1

end Execlaw
