import PgSynapse.Runtime.Execute

/-!
# The MCP client

`McpClient`, `McpTool` (`tool/mcp_client.rs`) and `ToolRegistry::add_mcp` (`tool/mod.rs`): JSON-RPC
2.0 over HTTP POST, with the methods `initialize`, `tools/list` and `tools/call`.

A struct that derives `Deserialize` is read from an object, or from the array of its fields.  The
texts of errors of `reqwest` and `serde_json` are those of the libraries.
-/

namespace PgSynapse

/-! ### What is read from the wire -/

/-- `Option<T>`: a member that is `null` is read like one that is not there. -/
def Value.present : Option Value → Option Value
  | some .null => none
  | v => v

/-- `JsonRpcError`, without `data`. -/
structure JsonRpcError where
  code : Int
  message : String
  deriving DecidableEq, Repr

namespace JsonRpcError

/-- The error with these members; `code` is an `i64`. -/
def ofMembers : Option Value → Option Value → Option JsonRpcError
  | some (.number (.int code)), some (.string message) =>
    if -0x8000000000000000 ≤ code ∧ code < 0x8000000000000000 then some ⟨code, message⟩ else none
  | _, _ => none

/-- `Deserialize`. -/
def read (v : Value) : Option JsonRpcError :=
  match v with
  | .object _ => ofMembers (v.get? "code") (v.get? "message")
  | .array [code, message, _] => ofMembers code message
  | _ => none

end JsonRpcError

/-- `JsonRpcResponse`, without the members that nothing reads. -/
structure JsonRpcResponse where
  result : Option Value
  error : Option JsonRpcError
  deriving Repr

namespace JsonRpcResponse

/-- The response with these members. -/
def ofMembers (jsonrpc result error : Option Value) : Option JsonRpcResponse :=
  match Value.present jsonrpc with
  | none | some (.string _) =>
    match Value.present error with
    | none => some ⟨Value.present result, none⟩
    | some e => (JsonRpcError.read e).map fun e => ⟨Value.present result, some e⟩
  | some _ => none

/-- `Deserialize`; `result` and `error` may be missing at the end of an array. -/
def read (v : Value) : Option JsonRpcResponse :=
  match v with
  | .object _ => ofMembers (v.get? "jsonrpc") (v.get? "result") (v.get? "error")
  | .array [jsonrpc, _] => ofMembers jsonrpc none none
  | .array [jsonrpc, _, result] => ofMembers jsonrpc result none
  | .array [jsonrpc, _, result, error] => ofMembers jsonrpc result error
  | _ => none

end JsonRpcResponse

/-- `McpServerInfo`. -/
structure McpServerInfo where
  name : String
  version : String
  deriving DecidableEq, Repr

namespace McpServerInfo

/-- The info with these members, each empty where it is missing. -/
def ofMembers : Option Value → Option Value → Option McpServerInfo
  | none, none => some ⟨"", ""⟩
  | some (.string name), none => some ⟨name, ""⟩
  | none, some (.string version) => some ⟨"", version⟩
  | some (.string name), some (.string version) => some ⟨name, version⟩
  | _, _ => none

/-- `Deserialize`, with `#[serde(default)]`. -/
def read (v : Value) : Option McpServerInfo :=
  match v with
  | .object _ => ofMembers (v.get? "name") (v.get? "version")
  | .array [] => ofMembers none none
  | .array [name] => ofMembers name none
  | .array [name, version] => ofMembers name version
  | _ => none

end McpServerInfo

/-- `McpToolDef`. -/
structure McpToolDef where
  name : String
  description : Option String
  inputSchema : Value
  deriving DecidableEq, Repr

namespace McpToolDef

/-- The definition with these members. -/
def ofMembers (name description inputSchema : Option Value) : Option McpToolDef :=
  match name, Value.present description, inputSchema with
  | some (.string name), none, some schema => some ⟨name, none, schema⟩
  | some (.string name), some (.string text), some schema => some ⟨name, some text, schema⟩
  | _, _, _ => none

/-- `Deserialize`. -/
def read (v : Value) : Option McpToolDef :=
  match v with
  | .object _ => ofMembers (v.get? "name") (v.get? "description") (v.get? "inputSchema")
  | .array [name, description, inputSchema] => ofMembers name description inputSchema
  | _ => none

end McpToolDef

/-! ### Calls -/

/-- How a POST fails: it is not sent or not answered, the status is no success, or the body is no
JSON. -/
inductive PostFailure where
  | transport (reason : String)
  | status (code : Nat)
  | unreadable (reason : String)
  deriving DecidableEq, Repr

/-- `McpClient`: what a POST to the server does and how it comes back, the counter of `next_id`, the
version of the crate, and the text of `serde_json` for a value that is not of a type. -/
structure McpClient (σ : Type) where
  post : Value → σ → Except PostFailure Value × σ
  nextId : σ → UInt64 × σ
  version : String
  mismatch : String → Value → String

namespace McpClient

variable {σ : Type} (c : McpClient σ)

/-- The body of a call. -/
def requestBody (id : UInt64) (method : String) (params : Value) : Value :=
  .obj [("jsonrpc", .string "2.0"), ("id", .nat id.toNat), ("method", .string method),
    ("params", params)]

/-- `McpClient::rpc`, from the reply on. -/
def rpcResult (method : String) : Except PostFailure Value → Except ToolError Value
  | .error (.transport reason) =>
    .error (.mcp ("transport error calling " ++ method ++ ": " ++ reason))
  | .error (.status code) =>
    .error (.mcp ("http status " ++ toString code ++ " from " ++ method))
  | .error (.unreadable reason) => .error (.mcp ("invalid JSON-RPC envelope: " ++ reason))
  | .ok v =>
    match JsonRpcResponse.read v with
    | none => .error (.mcp ("invalid JSON-RPC envelope: " ++ c.mismatch "JsonRpcResponse" v))
    | some ⟨_, some e⟩ =>
      .error (.mcp ("jsonrpc error " ++ toString e.code ++ " from " ++ method ++ ": " ++ e.message))
    | some ⟨none, none⟩ => .error (.mcp ("jsonrpc response missing result for " ++ method))
    | some ⟨some result, none⟩ => .ok result

/-- `McpClient::rpc`: one POST, whatever comes back. -/
def rpc (method : String) (params : Value) (s : σ) : Except ToolError Value × σ :=
  let (id, s) := c.nextId s
  let (reply, s) := c.post (requestBody id method params) s
  (c.rpcResult method reply, s)

/-- The params of `initialize`. -/
def initializeParams : Value :=
  .obj [("protocolVersion", .string "2025-11-25"), ("capabilities", .obj []),
    ("clientInfo", .obj [("name", .string "pg-synapse-core"), ("version", .string c.version)])]

/-- What `McpClient::initialize` reads from the result. -/
def serverInfo (result : Value) : Except ToolError McpServerInfo :=
  match result.get? "serverInfo" with
  | some info =>
    match McpServerInfo.read info with
    | some info => .ok info
    | none => .error (.mcp ("invalid serverInfo: " ++ c.mismatch "McpServerInfo" info))
  | none =>
    match McpServerInfo.read result with
    | some info => .ok info
    | none => .error (.mcp ("invalid initialize result: " ++ c.mismatch "McpServerInfo" result))

/-- `McpClient::connect`. -/
def connect (s : σ) : Except ToolError McpServerInfo × σ :=
  let (result, s) := c.rpc "initialize" c.initializeParams s
  (result.bind c.serverInfo, s)

/-- What `McpClient::list_tools` reads from the result. -/
def toolDefs (result : Value) : Except ToolError (List McpToolDef) :=
  match result.get? "tools" with
  | none => .error (.mcp "tools/list response missing 'tools' field")
  | some tools =>
    match tools.asArray?.bind fun items => items.mapM McpToolDef.read with
    | some defs => .ok defs
    | none => .error (.mcp ("invalid tools/list payload: " ++ c.mismatch "Vec<McpToolDef>" tools))

/-- `McpClient::list_tools`. -/
def listTools (s : σ) : Except ToolError (List McpToolDef) × σ :=
  let (result, s) := c.rpc "tools/list" .null s
  (result.bind c.toolDefs, s)

/-- One item of `extract_text`. -/
def appendText (out : String) (item : Value) : String :=
  match (item.get? "type").bind Value.asStr?, (item.get? "text").bind Value.asStr? with
  | some kind, some text =>
    if kind = "text" then if out = "" then text else out ++ "\n" ++ text else out
  | _, _ => out

/-- `extract_text`. -/
def extractText (result : Value) : Option String :=
  match (result.get? "content").bind Value.asArray? with
  | none => none
  | some content =>
    let out := content.foldl appendText ""
    if out = "" then none else some out

/-- What `McpClient::call_tool` makes of the result. -/
def callOutput (name : String) (result : Value) : Except ToolError ToolOutput :=
  if result.get? "isError" = some (.bool true) then
    .error (.execution name ((extractText result).getD "tool reported error"))
  else
    match extractText result with
    | some text => .ok (.text text)
    | none =>
      match result.get? "content" with
      | some content => .ok (.json content)
      | none => .ok .empty

/-- `McpClient::call_tool`. -/
def callTool (name : String) (args : Value) (s : σ) : Except ToolError ToolOutput × σ :=
  let (result, s) := c.rpc "tools/call" (.obj [("name", .string name), ("arguments", args)]) s
  (result.bind (callOutput name), s)

/-- `McpTool`. -/
def tool (name : String) (schema : Value) : Tool σ where
  schema := schema
  run input _ s :=
    let (result, s) := c.callTool name input s
    (.ready result, s)

end McpClient

namespace ToolRegistry

variable {σ : Type}

/-- The loop of `add_mcp`: the tools before one whose schema is refused stay registered. -/
def addMcpTools (c : McpClient σ) (readSchema : Value → Except String Value) :
    List McpToolDef → ToolRegistry σ → Except ToolError Unit × ToolRegistry σ
  | [], r => (.ok (), r)
  | d :: defs, r =>
    match readSchema d.inputSchema with
    | .error e => (.error (.mcp ("invalid schema for tool '" ++ d.name ++ "': " ++ e)), r)
    | .ok schema => addMcpTools c readSchema defs (r.add d.name (c.tool d.name schema))

/-- `ToolRegistry::add_mcp`; `readSchema` is `ToolSchema::from_json_value`. -/
def addMcp (r : ToolRegistry σ) (c : McpClient σ) (readSchema : Value → Except String Value)
    (s : σ) : Except ToolError Unit × ToolRegistry σ × σ :=
  match c.connect s with
  | (.error e, s) => (.error e, r, s)
  | (.ok _, s) =>
    match c.listTools s with
    | (.error e, s) => (.error e, r, s)
    | (.ok defs, s) =>
      let (result, r) := addMcpTools c readSchema defs r
      (result, r, s)

end ToolRegistry

end PgSynapse
