import PgSynapse.Tool.McpClient

/-!
# The MCP server of the harness

`rpc` (`demo/harness/src/mcp.rs`), which answers the three methods that `McpClient` calls, and the
wire between the two.  What a tool of the harness does on its database is given by `HarnessDb`; a
call does it all at once, and a request that the client gave up on may be served after later ones.
-/

namespace PgSynapse

/-! ### The tools of the harness -/

/-- The database calls of the tools.  An error is the text of a `tokio_postgres::Error`; a saved
question is its `sql_text` and whether it is confirmed. -/
structure HarnessDb (δ : Type) where
  connect : δ → Except String Unit × δ
  apps : δ → Except String (List Value) × δ
  question : String → String → δ → Except String (Option (Option String × Bool)) × δ
  rows : String → δ → Except String (List Value) × δ
  execute : String → String → δ → Except String Value × δ
  pretty : List Value → String
  version : String

namespace HarnessDb

variable {δ : Type} (db : HarnessDb δ)

/-- `db_err` of a `HarnessError::Db`. -/
def dbErr (e : String) : String := "database error: " ++ e

/-- A string member of the arguments, empty where there is none. -/
def textArg (args : Value) (key : String) : String :=
  ((args.get? key).bind Value.asStr?).getD ""

/-- The SQL that answers a question. -/
def rowsSql (sql : String) : String := "SELECT to_jsonb(r)::text FROM (" ++ sql ++ ") r"

/-- `list_apps`. -/
def listApps (d : δ) : Except String String × δ :=
  match db.connect d with
  | (.error e, d) => (.error (dbErr e), d)
  | (.ok (), d) =>
    match db.apps d with
    | (.error e, d) => (.error (dbErr e), d)
    | (.ok apps, d) => (.ok (db.pretty apps), d)

/-- `ask`. -/
def ask (args : Value) (d : δ) : Except String String × δ :=
  let app := textArg args "app"
  let question := textArg args "question"
  match db.connect d with
  | (.error e, d) => (.error (dbErr e), d)
  | (.ok (), d) =>
    match db.question app question d with
    | (.error e, d) => (.error e, d)
    | (.ok none, d) =>
      (.error ("no saved question '" ++ question ++ "' for app '" ++ app ++ "'"), d)
    | (.ok (some (sql, confirmed)), d) =>
      -- a question that nobody approved is not answered here either
      if !confirmed then (.error ("question '" ++ question ++ "' has not been reviewed"), d)
      else
        match db.rows (rowsSql (sql.getD "")) d with
        | (.error e, d) => (.error (dbErr e), d)
        | (.ok rows, d) => (.ok (db.pretty rows), d)

/-- What `run_agent` makes of the result of `synapse.execute`. -/
def outcomeText (env : Value) : Except String String :=
  match (env.get? "error").bind Value.asStr? with
  | some e => .error e
  | none => .ok (((env.get? "output").bind Value.asStr?).getD "")

/-- `run_agent`. -/
def runAgent (args : Value) (d : δ) : Except String String × δ :=
  match db.connect d with
  | (.error e, d) => (.error (dbErr e), d)
  | (.ok (), d) =>
    match db.execute (textArg args "agent") (textArg args "input") d with
    | (.error e, d) => (.error e, d)
    | (.ok env, d) => (outcomeText env, d)

/-- The tool of a name. -/
def callNamed (name : String) (args : Value) (d : δ) : Except String String × δ :=
  if name = "list_apps" then db.listApps d
  else if name = "ask" then db.ask args d
  else if name = "run_agent" then db.runAgent args d
  else (.error ("no tool named '" ++ name ++ "'"), d)

/-! ### JSON-RPC -/

/-- The schema of an object with these string members, all of them required. -/
def textSchema (members : List (String × String)) : Value :=
  .obj [("type", .string "object"),
    ("properties", .obj (members.map fun m =>
      (m.1, .obj [("type", .string "string"), ("description", .string m.2)]))),
    ("required", .array (members.map fun m => .string m.1)),
    ("additionalProperties", .bool false)]

/-- The schema of `list_apps`, which takes nothing. -/
def listAppsSchema : Value :=
  .obj [("type", .string "object"), ("properties", .obj []), ("additionalProperties", .bool false)]

/-- The schema of `ask`. -/
def askSchema : Value := textSchema [("app", "App name"), ("question", "Saved question name")]

/-- The schema of `run_agent`. -/
def runAgentSchema : Value :=
  textSchema [("agent", "Agent name"), ("input", "What the agent should do")]

/-- An entry of `tool_definitions`. -/
def toolDefinition (name description : String) (inputSchema : Value) : Value :=
  .obj [("name", .string name), ("description", .string description), ("inputSchema", inputSchema)]

/-- `tool_definitions`. -/
def toolDefinitions : Value :=
  .array [
    toolDefinition "list_apps" ("List the applications available in this Postgres database, " ++
      "with the agents and saved questions each one has.") listAppsSchema,
    toolDefinition "ask" ("Answer a saved question about an app. Runs pre-approved SQL, so it " ++
      "is fast, free, and returns the same answer every time. Use list_apps to see what " ++
      "questions exist.") askSchema,
    toolDefinition "run_agent" ("Run an agent with a natural-language instruction. Slower and " ++
      "non-deterministic than `ask`, because it calls a model; prefer `ask` when a saved " ++
      "question already answers the need.") runAgentSchema]

/-- The `content` of a result with one text. -/
def textContent (text : String) : Value :=
  .array [.obj [("type", .string "text"), ("text", .string text)]]

/-- The result of `tools/call`: a tool that fails says so inside the result. -/
def callResult : Except String String → Value
  | .ok text => .obj [("content", textContent text), ("isError", .bool false)]
  | .error e => .obj [("content", textContent e), ("isError", .bool true)]

/-- `call_tool`. -/
def callTool (params : Value) (d : δ) : Value × δ :=
  let (text, d) := db.callNamed (textArg params "name") ((params.get? "arguments").getD (.obj [])) d
  (callResult text, d)

/-- The reply with a result. -/
def resultReply (id result : Value) : Value :=
  .obj [("jsonrpc", .string "2.0"), ("id", id), ("result", result)]

/-- The reply for a method that is not implemented. -/
def errorReply (id : Value) (method : String) : Value :=
  .obj [("jsonrpc", .string "2.0"), ("id", id),
    ("error", .obj [("code", .number (.int (-32603))),
      ("message", .string ("method '" ++ method ++ "' is not implemented"))])]

/-- The result of `initialize`. -/
def initializeResult : Value :=
  .obj [("protocolVersion", .string "2025-11-25"), ("capabilities", .obj [("tools", .obj [])]),
    ("serverInfo", .obj [("name", .string "pg-one"), ("version", .string db.version)])]

/-- `rpc`. -/
def rpc (req : Value) (d : δ) : Value × δ :=
  let id := (req.get? "id").getD .null
  let method := textArg req "method"
  let params := (req.get? "params").getD .null
  if method = "initialize" then (resultReply id db.initializeResult, d)
  else if method = "tools/list" then (resultReply id (.obj [("tools", toolDefinitions)]), d)
  else if method = "tools/call" then
    let (result, d) := db.callTool params d
    (resultReply id result, d)
  else (errorReply id method, d)

end HarnessDb

/-! ### The wire -/

namespace Value

mutual

/-- The value that a text of the value is read back as.  A float is read without
`float_roundtrip`, so it can come back as another one. -/
def reread (float : F64 → F64) : Value → Value
  | .null => .null
  | .bool b => .bool b
  | .number (.int i) => .number (.int i)
  | .number (.float x) => .number (.float (float x))
  | .string s => .string s
  | .array items => .array (rereadItems float items)
  | .object fields => .object (rereadFields float fields)

/-- The elements of an array, read back. -/
def rereadItems (float : F64 → F64) : List Value → List Value
  | [] => []
  | v :: vs => reread float v :: rereadItems float vs

/-- The members of an object, read back. -/
def rereadFields (float : F64 → F64) : List (String × Value) → List (String × Value)
  | [] => []
  | (k, v) :: kvs => (k, reread float v) :: rereadFields float kvs

end

end Value

/-- What becomes of a POST: it does not get to `rpc`; or its reply does not get back; or the client
gives up on it, as it does after 30 seconds, before the server comes to it; or both get through. -/
inductive Fate where
  | lost (failure : PostFailure)
  | cut (failure : PostFailure)
  | late (failure : PostFailure)
  | carried
  deriving DecidableEq, Repr

/-- The client's side of the wire: what becomes of each POST there, with the counter of `next_id`,
how floats are read, and which of the POSTs that are late the server comes to before the next one,
given by their places among them. -/
structure Wire (ω : Type) where
  fate : Value → ω → Fate × ω
  nextId : ω → UInt64 × ω
  float : F64 → F64
  served : ω → List Nat × ω

/-- A client's side and the harness' database, with the POSTs that are late: the client gave up on
them, and the server has not come to them. -/
structure Linked (ω δ : Type) where
  near : ω
  db : δ
  late : List Value

namespace HarnessDb

variable {ω δ : Type} (db : HarnessDb δ)

/-- The server comes to the POST at this place of those that are late. -/
def serveLate (float : F64 → F64) (s : Linked ω δ) (i : Nat) : Linked ω δ :=
  match s.late[i]? with
  | none => s
  | some v => { s with db := (db.rpc (v.reread float) s.db).2, late := s.late.eraseIdx i }

/-- The client of the harness: every POST goes to `rpc` at most once. -/
def client (wire : Wire ω) (version : String) (mismatch : String → Value → String) :
    McpClient (Linked ω δ) where
  post v s :=
    let (places, near) := wire.served s.near
    let s := places.foldl (db.serveLate wire.float) { s with near := near }
    match wire.fate v s.near with
    | (.lost failure, near) => (.error failure, { s with near := near })
    | (.cut failure, near) =>
      (.error failure, { s with near := near, db := (db.rpc (v.reread wire.float) s.db).2 })
    | (.late failure, near) => (.error failure, { s with near := near, late := s.late ++ [v] })
    | (.carried, near) =>
      let (reply, d) := db.rpc (v.reread wire.float) s.db
      (.ok (reply.reread wire.float), { s with near := near, db := d })
  nextId s :=
    let (id, near) := wire.nextId s.near
    (id, { s with near := near })
  version := version
  mismatch := mismatch

end HarnessDb

end PgSynapse
