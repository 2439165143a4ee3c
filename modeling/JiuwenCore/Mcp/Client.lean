import JiuwenCore.Json
import JiuwenCore.Utils.Encoding
import JiuwenCore.Mcp.Registry

/-!
# Answers of an MCP server

What the client makes of the replies to `initialize` and `tools/list`, and the parameters that a
connection makes of the schema of a tool. The typed accessor `value` throws on a value that is no
object and on a member that is no string; nothing here catches it.
-/

namespace JiuwenCore.Mcp

open Json

structure MCPToolInfo where
  name : Str := []
  description : Str := []
  inputSchema : Json := .null

/-- The end of a transfer. -/
structure Reply where
  isCurlError : Bool := false
  curlErrorStr : Str := []
  statusCode : Nat := 200
  body : Str := []

structure MCPClient where
  name : Str
  endpoint : Str
  connectTimeoutSeconds : Int32
  requestTimeoutSeconds : Int32
  deriving DecidableEq, Repr

def makeErrorResponse (message : Str) : Json :=
  .obj [(lit "error", .obj [(lit "message", .str message)])]

/-- The response of `SendRequest` to a request that was dumped. -/
def sendRequest (lib : JsonLib) (client : MCPClient) (reply : Reply) : Json :=
  if client.endpoint = [] then makeErrorResponse (lit "MCP endpoint must not be empty")
  else if reply.isCurlError then makeErrorResponse (lit "CURL error: " ++ reply.curlErrorStr)
  else if reply.statusCode ≠ 200 ∧ reply.statusCode ≠ 202 then
    makeErrorResponse (lit "HTTP error " ++ toDecimal reply.statusCode ++
      (if reply.body = [] then [] else lit ": " ++ reply.body))
  else if reply.body = [] then .null
  else
    match lib.parse reply.body with
    | some response => response
    | none => makeErrorResponse (lit "JSON parse error")

/-- The error a response reports, `none` where reading it throws. -/
def errorMessage (fallback : Str) (error : Json) : Option Str :=
  error.value getString (lit "message") fallback

/-- What `Initialize` returns, `none` where it throws. -/
def initializeClient (response : Json) : Option Bool :=
  match response.member (lit "error") with
  | some error => (errorMessage (lit "Initialize failed") error).map fun _ => false
  | none => some true

/-- The values a loop over any JSON value goes through. -/
def elements : Json → List Json
  | .null => []
  | .arr items => items
  | .obj members => members.map (·.2)
  | j => [j]

def toolInfo (toolDef : Json) : Option MCPToolInfo := do
  let name ← toolDef.value getString (lit "name") []
  let description ← toolDef.value getString (lit "description") []
  some {
    name := name
    description := description
    inputSchema := toolDef.memberOrNull (lit "inputSchema") }

/-- The definitions in the response to `tools/list`. -/
def toolDefs (response : Json) : List Json :=
  (((response.member (lit "result")).bind (·.member (lit "tools"))).map elements).getD []

/-- What `ListTools` returns, `none` where it throws. -/
def listTools (response : Json) : Option (List MCPToolInfo) :=
  match response.member (lit "error") with
  | some error => (errorMessage (lit "List tools failed") error).map fun _ => []
  | none => (toolDefs response).mapM toolInfo

/-! ## Parameters -/

def defaultParams : List ToolParam :=
  [{ name := lit "input", description := lit "JSON input arguments", type := lit "string"
     required := true }]

/-- The names in an array of required ones. -/
def requiredNames (schema : Json) : List Str :=
  match schema.member (lit "required") with
  | some (.arr names) => names.filterMap getString
  | _ => []

def toolParam (required : List Str) (property : Str × Json) : Option ToolParam := do
  let description ← property.2.value getString (lit "description")
    (lit "Parameter " ++ property.1)
  let type ← property.2.value getString (lit "type") (lit "string")
  some {
    name := property.1
    description := description
    type := type
    required := property.1 ∈ required }

/-- The properties of a schema, none if they are no object. -/
def properties (schema : Json) : List (Str × Json) :=
  match schema.member (lit "properties") with
  | some (.obj properties) => properties
  | _ => []

/-- The parameters of a tool, `none` where the walk over its schema throws. -/
def toolParams (schema : Json) : Option (List ToolParam) :=
  ((properties schema).mapM (toolParam (requiredNames schema))).map fun params =>
    if params = [] then defaultParams else params

/-! ## Values that can be read -/

/-- An object whose member under the key, if it has one, is a string. -/
def StringMember (key : Str) : Json → Prop
  | .obj members => ∀ j, (Json.obj members).member key = some j → ∃ s, j = .str s
  | _ => False

/-- A response that reports no error, or one whose message can be read. -/
def ErrorReadable (response : Json) : Prop :=
  ∀ error, response.member (lit "error") = some error → StringMember (lit "message") error

/-- The definition of a tool is an object whose name and description are strings. -/
def ToolReadable (toolDef : Json) : Prop :=
  StringMember (lit "name") toolDef ∧ StringMember (lit "description") toolDef

/-- Each property is an object whose description and type are strings. -/
def SchemaReadable (schema : Json) : Prop :=
  ∀ property ∈ properties schema,
    StringMember (lit "description") property.2 ∧ StringMember (lit "type") property.2

theorem value_isSome {key : Str} (default : Str) {j : Json} :
    (j.value getString key default).isSome = true ↔ StringMember key j := by
  cases j with
  | obj members =>
      simp only [Json.value, StringMember]
      cases (Json.obj members).member key with
      | none => simp
      | some j => cases j <;> simp [getString]
  | null => simp [Json.value, StringMember]
  | bool b => simp [Json.value, StringMember]
  | int i => simp [Json.value, StringMember]
  | float bits => simp [Json.value, StringMember]
  | str s => simp [Json.value, StringMember]
  | arr items => simp [Json.value, StringMember]

theorem initializeClient_isSome {response : Json} :
    (initializeClient response).isSome = true ↔ ErrorReadable response := by
  unfold initializeClient ErrorReadable errorMessage
  cases response.member (lit "error") with
  | none => simp
  | some error =>
      rw [Option.isSome_map, value_isSome]
      simp

theorem initializeClient_eq_true {response : Json} :
    initializeClient response = some true ↔ response.member (lit "error") = none := by
  unfold initializeClient
  cases response.member (lit "error") with
  | none => simp
  | some error => cases errorMessage (lit "Initialize failed") error <;> simp

theorem mapM_isSome {α β : Type} {f : α → Option β} {l : List α} :
    (l.mapM f).isSome = true ↔ ∀ x ∈ l, (f x).isSome = true := by
  induction l with
  | nil => simp
  | cons x rest ih =>
      rw [List.mapM_cons, List.forall_mem_cons, ← ih]
      cases f x <;> cases rest.mapM f <;> simp

theorem toolInfo_isSome {toolDef : Json} :
    (toolInfo toolDef).isSome = true ↔ ToolReadable toolDef := by
  unfold toolInfo ToolReadable
  rw [← value_isSome [], ← value_isSome []]
  cases toolDef.value getString (lit "name") [] with
  | none => simp
  | some name => cases toolDef.value getString (lit "description") [] <;> simp

theorem listTools_isSome {response : Json} :
    (listTools response).isSome = true ↔ ErrorReadable response ∧
      (response.member (lit "error") = none → ∀ toolDef ∈ toolDefs response,
        ToolReadable toolDef) := by
  unfold listTools ErrorReadable errorMessage
  cases response.member (lit "error") with
  | none =>
      simp only [mapM_isSome, toolInfo_isSome]
      simp
  | some error =>
      rw [Option.isSome_map, value_isSome]
      simp

theorem toolParams_isSome {schema : Json} :
    (toolParams schema).isSome = true ↔ SchemaReadable schema := by
  unfold toolParams SchemaReadable
  rw [Option.isSome_map, mapM_isSome]
  apply forall₂_congr
  intro property _
  unfold toolParam
  rw [← value_isSome (lit "Parameter " ++ property.1),
    ← value_isSome (lit "string")]
  cases property.2.value getString (lit "description") (lit "Parameter " ++ property.1) with
  | none => simp
  | some description =>
      cases property.2.value getString (lit "type") (lit "string") <;> simp

instance (schema : Json) : Decidable (SchemaReadable schema) :=
  decidable_of_iff _ toolParams_isSome

end JiuwenCore.Mcp
