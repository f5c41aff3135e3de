import PgSynapse.Std.Text
import PgSynapse.Types.Message

/-!
# The execution context and the world a run acts on

`σ` is the state of everything outside the harness: the model servers, the tools' own state, the
database, the clocks.  A provider or a tool is a record of functions on it, as a trait object is a
table of methods, so quantifying over `σ` and over these records is quantifying over every
behaviour the outside can show.  A call either returns, or panics, or is still pending when nobody
waits for it any more: it never comes back, or it comes back too late for the deadline of its caller
or of a run around it, and is dropped there.  Without a deadline the caller waits for ever.
-/

namespace PgSynapse

/-- What the machine and the standard library supply: the UTC clock (as RFC 3339 text), the
monotonic clock (nanoseconds) and the Unicode lowercase mapping. -/
class Platform (σ : Type) where
  utcNow : σ → String × σ
  instantNow : σ → Nat × σ
  toLowercase : String → String

/-- How an awaited call came back.  A panic carries its payload when that is a string. -/
inductive Answer (α : Type) where
  | ready (a : α)
  | panicked (payload : Option String)
  | pending
  deriving DecidableEq, Repr

/-- `dyn LlmProvider`.  `complete` is given the time the caller is prepared to wait. -/
structure LlmProvider (σ : Type) where
  modelName : String
  complete : CompletionRequest → Option Nat → σ → Answer (Except LlmError CompletionResponse) × σ

/-- `dyn Tool`. -/
structure Tool (σ : Type) where
  schema : Value
  run : Value → ToolCtx → σ → Answer (Except ToolError ToolOutput) × σ

/-- `ToolRegistry`: a map from tool names to tools; the list is its iteration order. -/
structure ToolRegistry (σ : Type) where
  tools : List (String × Tool σ)
  nodup : (tools.map Prod.fst).Nodup

namespace ToolRegistry

variable {σ : Type}

/-- `ToolRegistry::new`. -/
def empty : ToolRegistry σ := ⟨[], List.nodup_nil⟩

/-- `ToolRegistry::get`. -/
def get (r : ToolRegistry σ) (name : String) : Option (Tool σ) := r.tools.lookup name

/-- `ToolRegistry::names`. -/
def names (r : ToolRegistry σ) : List String := r.tools.map Prod.fst

end ToolRegistry

/-- An on-demand procedure. -/
structure Skill where
  name : String
  description : String
  body : String
  deriving DecidableEq, Repr

/-- A hint appended to a tool error whose text contains `errorPattern`. -/
structure ToolHint where
  toolName : Option String
  errorPattern : String
  hint : String
  deriving DecidableEq, Repr

/-- The editable components around an agent's system prompt. -/
structure Harness where
  guardrails : Option String
  memory : Option String
  critique : Option String
  skills : List Skill
  toolHints : List ToolHint
  deriving DecidableEq, Repr

namespace Harness

/-- `Harness::default()`. -/
def default : Harness := ⟨none, none, none, [], []⟩

/-- Header above the skill trigger lines. -/
def skillTriggerHeader : String :=
  "Skills (load one with the `load_skill` tool when its situation applies):"

/-- `non_blank`: the trimmed text, unless nothing is left. -/
def nonBlank (s : Option String) : Option String :=
  (s.map Text.trim).filter fun t => !t.isEmpty

/-- The trigger line of one skill. -/
def skillTriggerLine (s : Skill) : String :=
  "\n- When " ++ Text.trim s.description ++ ", load the `" ++ s.name ++ "` skill."

/-- `Harness::skill_trigger_block`. -/
def skillTriggerBlock (h : Harness) : Option String :=
  if h.skills.isEmpty then none
  else some (h.skills.foldl (fun out s => out ++ skillTriggerLine s) skillTriggerHeader)

/-- `Harness::always_on_block`. -/
def alwaysOnBlock (h : Harness) : Option String :=
  let parts := (nonBlank h.guardrails).toList ++ (nonBlank h.memory).toList ++
    h.skillTriggerBlock.toList
  if parts.isEmpty then none else some ("\n\n".intercalate parts)

/-- `Harness::hint_for`: the first hint whose tool matches and whose pattern occurs in the error,
both compared in lowercase. -/
def hintFor (toLowercase : String → String) (h : Harness) (tool error : String) : Option String :=
  let errLc := toLowercase error
  ((h.toolHints.filter fun t => match t.toolName with
      | none => true
      | some n => n == tool).find? fun t =>
    let pat := toLowercase (Text.trim t.errorPattern)
    !pat.isEmpty && Text.contains errLc pat).map ToolHint.hint

end Harness

/-- Everything an executor needs for one run.  `timeout` is in nanoseconds; `progress` says whether
the host set a progress sink. -/
structure ExecutionContext (σ : Type) where
  executionId : Uuid
  agentName : String
  systemPrompt : String
  soul : Option String
  input : String
  tools : ToolRegistry σ
  llm : LlmProvider σ
  judgeLlm : Option (LlmProvider σ)
  maxIterations : UInt32
  timeout : Nat
  costCapUsd : Option Rat
  callerRole : Option String
  traceLevel : TraceLevel
  interruptCheck : Option (σ → Option String × σ)
  harness : Harness
  progress : Bool

/-- One call the run made on the outside, with how it came back. -/
inductive Effect where
  | llm (request : CompletionRequest) (answer : Answer (Except LlmError CompletionResponse))
  | tool (call : ToolCall) (ctx : ToolCtx) (answer : Answer (Except ToolError ToolOutput))
  deriving DecidableEq

/-- The world of a run: the outside state, the calls made on it in order, and the content of the
progress sink. -/
structure World (σ : Type) where
  env : σ
  effects : List Effect
  sink : ExecutorOutcome

end PgSynapse
