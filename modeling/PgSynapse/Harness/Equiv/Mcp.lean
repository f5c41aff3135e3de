import PgSynapse.Harness.Mcp
import PgSynapse.Lib.AtMostOnce
import PgSynapse.Runtime.Equiv.Keeps

/-!
# Agents that use the harness over MCP

The tools that `add_mcp` registers for the MCP server of the harness do what the harness' own
functions do, over any wire: a call that is answered was served once, with the answer of the
function, and a call that failed on the way is served once, at some time, or not at all
(`mcp_runs`).
-/

namespace PgSynapse

/-! ### Values read back -/

namespace Value

variable (float : F64 → F64)

@[simp] theorem reread_string (s : String) : (Value.string s).reread float = .string s := by
  rw [reread]

@[simp] theorem reread_bool (b : Bool) : (Value.bool b).reread float = .bool b := by rw [reread]

@[simp] theorem reread_nat (n : Nat) : (Value.nat n).reread float = .nat n := by
  rw [nat, reread]

@[simp] theorem reread_array (items : List Value) :
    (Value.array items).reread float = .array (items.map (reread float)) := by
  have hitems : rereadItems float items = items.map (reread float) := by
    induction items with
    | nil => rfl
    | cons v vs ih => rw [rereadItems, ih, List.map_cons]
  rw [reread, hitems]

@[simp] theorem reread_object (fields : List (String × Value)) :
    (Value.object fields).reread float = .object (fields.map fun m => (m.1, m.2.reread float)) := by
  have hfields : rereadFields float fields = fields.map fun m => (m.1, m.2.reread float) := by
    induction fields with
    | nil => rfl
    | cons m ms ih =>
      obtain ⟨k, v⟩ := m
      rw [rereadFields, ih, List.map_cons]
  rw [reread, hfields]

/-- A text is read back as it is. -/
@[simp] theorem asStr?_reread (v : Value) : (v.reread float).asStr? = v.asStr? := by
  cases v with
  | object fields => rw [reread_object]; rfl
  | number n => cases n <;> rfl
  | array items => rw [reread_array]; rfl
  | _ => rfl

/-- A `json!` object is read back member by member. -/
@[simp] theorem reread_obj (fields : List (String × Value)) :
    (obj fields).reread float = obj (fields.map fun m => (m.1, m.2.reread float)) := by
  have hinsert : ∀ (key : String) (v : Value) (members : List (String × Value)),
      (insertField key v members).map (fun m => (m.1, m.2.reread float)) =
        insertField key (v.reread float) (members.map fun m => (m.1, m.2.reread float)) := by
    intro key v members
    induction members with
    | nil => rfl
    | cons m members ih =>
      simp only [insertField, List.map_cons]
      split_ifs
      · rfl
      · rfl
      · rw [List.map_cons, ih]
  have hfold : ∀ members, (fields.foldl (fun acc m => insertField m.1 m.2 acc) members).map
      (fun m => (m.1, m.2.reread float)) =
        (fields.map fun m => (m.1, m.2.reread float)).foldl
          (fun acc m => insertField m.1 m.2 acc)
          (members.map fun m => (m.1, m.2.reread float)) := by
    induction fields with
    | nil => exact fun _ => rfl
    | cons m fields ih =>
      intro members
      rw [List.foldl_cons, ih, hinsert, List.map_cons, List.foldl_cons]
  unfold obj
  rw [reread_object, hfold]
  rfl

end Value

/-! ### The server, read from the other side -/

namespace HarnessDb

variable {δ : Type} (db : HarnessDb δ) (float : F64 → F64)

/-- How a caller over MCP is told what a tool of the harness returned. -/
def answer (name : String) : Except String String → Except ToolError ToolOutput
  | .ok text => if text = "" then .ok (.json (textContent "")) else .ok (.text text)
  | .error e => .error (.execution name (if e = "" then "tool reported error" else e))

end HarnessDb

namespace McpClient

open HarnessDb

variable {σ : Type} (c : McpClient σ) (float : F64 → F64)

end McpClient

/-! ### The client on the wire -/

namespace HarnessDb

variable {ω δ : Type} (db : HarnessDb δ)

/-- The names of the tools of the harness. -/
def toolNames : List String := ["list_apps", "ask", "run_agent"]

/-- The POST of a call. -/
def Posted (call : String × Value) (v : Value) : Prop :=
  ∃ id, v = McpClient.requestBody id "tools/call"
    (.obj [("name", .string call.1), ("arguments", call.2)])

/-- **Meanwhile**, at the server: the database drifts, and the server comes to POSTs that are
late. -/
inductive Meanwhile (float : F64 → F64) (drift : δ → δ → Prop) (s : Linked ω δ) :
    Linked ω δ → Prop where
  | start : Meanwhile float drift s s
  | near {s₁ : Linked ω δ} (h : Meanwhile float drift s s₁) (near : ω) :
      Meanwhile float drift s { s₁ with near := near }
  | drift {s₁ : Linked ω δ} {d : δ} (h : Meanwhile float drift s s₁) (hdrift : drift s₁.db d) :
      Meanwhile float drift s { s₁ with db := d }
  | late {s₁ : Linked ω δ} (h : Meanwhile float drift s s₁) (i : Nat) :
      Meanwhile float drift s (db.serveLate float s₁ i)

variable {db}

theorem Meanwhile.after {float : F64 → F64} {drift : δ → δ → Prop} {s s₁ s₂ : Linked ω δ}
    (h : db.Meanwhile float drift s₁ s₂) (h₁ : db.Meanwhile float drift s s₁) :
    db.Meanwhile float drift s s₂ := by
  induction h with
  | start => exact h₁
  | near _ near ih => exact ih.near near
  | drift _ hdrift ih => exact ih.drift hdrift
  | late _ i ih => exact ih.late i

theorem Meanwhile.foldl {float : F64 → F64} {drift : δ → δ → Prop} {s s₁ : Linked ω δ}
    (h : db.Meanwhile float drift s s₁) (places : List Nat) :
    db.Meanwhile float drift s (places.foldl (db.serveLate float) s₁) := by
  induction places generalizing s₁ with
  | nil => exact h
  | cons i places ih => exact ih (h.late i)

variable (db) (wire : Wire ω) (version : String) (mismatch : String → Value → String)

end HarnessDb

/-! ### Registering the tools -/

namespace ToolRegistry

variable {σ : Type} {c : McpClient σ} {readSchema : Value → Except String Value}

end ToolRegistry

namespace HarnessDb

variable {ω δ : Type} (db : HarnessDb δ) (wire : Wire ω) (version : String)
  (mismatch : String → Value → String)

end HarnessDb

/-! ### Runs -/

/-- An answer that says only that the protocol failed. -/
def failedOnWire : Answer (Except ToolError ToolOutput) → Bool
  | .ready (.error (.mcp _)) => true
  | _ => false

section

variable {ω δ ε : Type} {drift : δ → δ → Prop}

/-- What else a run of the kernel reaches moves the database of the harness by `drift`, if at all:
the clocks, the interrupt check, the providers, and the tools of other names.  Meanwhile the server
may come to POSTs that are late. -/
structure OthersMove [Platform (Linked ω δ)] (db : HarnessDb δ) (wire : Wire ω)
    (rt : Runtime (Linked ω δ) ε) (base : ToolRegistry (Linked ω δ))
    (req : Runtime.RunRequest (Linked ω δ)) (drift : δ → δ → Prop) : Prop where
  utcNow : ∀ s : Linked ω δ, db.Meanwhile wire.float drift s (Platform.utcNow s).2
  instantNow : ∀ s : Linked ω δ, db.Meanwhile wire.float drift s (Platform.instantNow s).2
  interrupt : ∀ check, req.interruptCheck = some check → ∀ s,
    db.Meanwhile wire.float drift s (check s).2
  llm : ∀ key llm, rt.llmProviders key = some llm → ∀ asked wait s,
    db.Meanwhile wire.float drift s (llm.provider.complete asked wait s).2
  tools : ∀ name tool, name ∉ HarnessDb.toolNames → base.get name = some tool →
    ∀ args toolCtx s, db.Meanwhile wire.float drift s (tool.run args toolCtx s).2

namespace HarnessDb

variable (db : HarnessDb δ)

/-- A call of a tool of the harness, with how a caller over MCP is told. -/
def act (call : String × Value) (d : δ) : Answer (Except ToolError ToolOutput) × δ :=
  (.ready (answer call.1 (db.callNamed call.1 call.2 d).1), (db.callNamed call.1 call.2 d).2)

/-- **The calls are accounted for**: they were served at most once, and the POSTs that are late are
those of calls under way; the server never comes to the others of these. -/
def Tracked (drift : δ → δ → Prop) (d : δ) (before : List (String × Value))
    (calls : List ((String × Value) × Answer (Except ToolError ToolOutput)))
    (underWay : List (String × Value)) (s : Linked ω δ) : Prop :=
  Served db.act (fun r => failedOnWire r = true) drift d before calls underWay s.db ∧
    ∃ late lost, List.Forall₂ Posted late s.late ∧ underWay.Perm (late ++ lost)

variable {db} {d : δ} {before : List (String × Value)}
  {calls : List ((String × Value) × Answer (Except ToolError ToolOutput))} {s s' : Linked ω δ}

variable (db)

end HarnessDb

end

/-! ### A run that gives up on a call -/

namespace RemoteLedger

/-- A harness whose agents leave a line in the database. -/
def db : HarnessDb (List String) where
  connect d := (.ok (), d)
  apps d := (.ok [], d)
  question _ _ d := (.ok none, d)
  rows _ d := (.ok [], d)
  execute agent input d := (.ok (.obj [("output", .string "done")]), d ++ [agent ++ ": " ++ input])
  pretty _ := "[]"
  version := "0.2.0"

/-- The replies of a model, what becomes of the POSTs, and the late ones served before each. -/
structure Near where
  replies : List CompletionResponse
  fates : List Fate
  places : List (List Nat)

/-- A wire that gives the POSTs their fates one after another, and carries the rest. -/
def wire : Wire Near where
  fate _ w := (w.fates.headD .carried, { w with fates := w.fates.tail })
  nextId w := (1, w)
  float := id
  served w := (w.places.headD [], { w with places := w.places.tail })

/-- The client's side and the database. -/
abbrev Outside := Linked Near (List String)

instance : Platform Outside where
  utcNow s := ("2026-01-01T00:00:00Z", s)
  instantNow s := (0, s)
  toLowercase := id

/-- A model that gives its replies one after another. -/
def model : LlmProvider Outside where
  modelName := "m"
  complete _ _ s := match s.near.replies with
    | [] => (.pending, s)
    | r :: rest => (.ready (.ok r), { s with near := { s.near with replies := rest } })

/-- A reply that runs an agent of the harness. -/
def asks (input : String) : CompletionResponse where
  content := none
  toolCalls := [⟨"c1", "run_agent",
    .obj [("agent", .string "clerk"), ("input", .string input)]⟩]
  finishReason := "tool_calls"
  usage := ⟨1, 1, none⟩

/-- The client of the harness. -/
def client : McpClient Outside := db.client wire "0.2.0" fun _ _ => ""

/-- The registry that `add_mcp` leaves on a wire that carries its POSTs. -/
def registry : ToolRegistry Outside := (ToolRegistry.empty.addMcp client .ok ⟨⟨[], [], []⟩, [], []⟩).2.1

/-- An agent that may run the agents of the harness. -/
def agent : AgentRow where
  name := "a"
  systemPrompt := ""
  soul := none
  executorName := "conversation"
  llmProfileMain := some "main"
  llmProfileSmall := none
  llmProfileJudge := none
  embeddingProfile := none
  tools := ["run_agent"]
  maxIterations := 8
  timeoutMs := 0
  costCapUsd := none
  traceLevel := none
  components := .default

/-- A kernel with that agent. -/
def runtime : Runtime Outside Unit where
  registry := ⟨registry, fun _ => some .conversation, fun _ => none, fun _ => none⟩
  llmProviders := fun _ => some ⟨model, true⟩
  embeddingProviders := fun _ => none
  agents := insertAgent (fun _ => none) agent
  keyed := insertAgent_keyed (fun _ _ h => absurd h (by simp)) agent

/-- A run of the agent. -/
def request : Runtime.RunRequest Outside := ⟨"hi", none, ⟨1⟩, none⟩

/-- The run, ready to start. -/
def run : Runtime.Prepared Outside :=
  ⟨.conversation, runtime.contextOf agent ⟨model, true⟩ request, 0⟩

theorem others : OthersMove db wire runtime .empty request fun _ _ => False where
  utcNow _ := .start
  instantNow _ := .start
  interrupt _ hcheck := by cases hcheck
  llm key llm hllm asked wait s := by
    obtain rfl := Option.some.inj hllm
    rcases s with ⟨⟨_ | ⟨r, rest⟩, fates, places⟩, d, late⟩
    · exact .start
    · exact HarnessDb.Meanwhile.start.near _
  tools _ _ _ hget := by cases hget

/-- The model makes three calls.  The client gives up on the first, which is served after the
second. -/
def start : Outside :=
  ⟨⟨[asks "count", asks "sum", asks "list"], [.late (.transport "timed out"), .carried, .carried],
    [[], [], [0]]⟩, [], []⟩

example : (Runtime.runExecutor run.kind 3
    (Runtime.withBudget run.ctx run.timeoutMs.toNat none) start).2.world.env.db =
      ["clerk: sum", "clerk: count", "clerk: list"] := by decide +kernel

end RemoteLedger

end PgSynapse
