import PgSynapse.Lib.Transition
import PgSynapse.Lib.TxnCache
import PgSynapse.Pgrx.Configure

/-!
# The kernel cache of a backend

`kernel_handle` and `rebuild_kernel` (`runtime_holder.rs`): a backend builds its kernel from the
configuration the current transaction sees, and keeps it in a process-wide slot until a configuration
function clears the slot.  The backend runs one transaction after another; no other session changes
the configuration meanwhile, and its settings stay as they are.
-/

namespace PgSynapse

/-- A call of a configuration function. -/
inductive ConfigCall where
  | agentCreate (name systemPrompt executorName : String) (llmProfileMain : Option String)
      (tools : List String) (maxIterations timeoutMs : Int)
  | agentDrop (name : String)
  | agentSetModelTier (name tier : String)
  | agentSetTraceLevel (name : String) (level : Option String)
  | agentSetComponent (agent component : String) (value : Option String)
  | llmProfileSet (name provider model : String) (baseUrl apiKeySecret : Option String)
      (params : Value)
  | embeddingProfileSet (name provider model : String) (dimension : Int) (baseUrl : Option String)
      (params : Value)
  | secretSet (name value : String) (salt : Nat)
  | skillSet (agent name description body : String)
  | skillDrop (agent name : String)
  | lessonAdd (agent cue lesson evidence : String)
  | toolHintAdd (agent toolName : Option String) (errorPattern hint : String)

/-- What a call does to the configuration. -/
def ConfigCall.run (env : PgEnv) : ConfigCall → Config → Except String Config
  | .agentCreate name systemPrompt executorName llmProfileMain tools maxIterations timeoutMs =>
    Configure.agentCreate name systemPrompt executorName llmProfileMain tools maxIterations
      timeoutMs
  | .agentDrop name => Configure.agentDrop name
  | .agentSetModelTier name tier => Configure.agentSetModelTier name tier
  | .agentSetTraceLevel name level => Configure.agentSetTraceLevel name level
  | .agentSetComponent agent component value => Configure.agentSetComponent env agent component value
  | .llmProfileSet name provider model baseUrl apiKeySecret params =>
    Configure.llmProfileSet name provider model baseUrl apiKeySecret params
  | .embeddingProfileSet name provider model dimension baseUrl params =>
    Configure.embeddingProfileSet name provider model dimension baseUrl params
  | .secretSet name value salt => Configure.secretSet env name value salt
  | .skillSet agent name description body => Configure.skillSet env agent name description body
  | .skillDrop agent name => Configure.skillDrop agent name
  | .lessonAdd agent cue lesson evidence => Configure.lessonAdd env agent cue lesson evidence
  | .toolHintAdd agent toolName errorPattern hint =>
    Configure.toolHintAdd agent toolName errorPattern hint

/-- The statements of a backend; `error` is any statement that raises an error, and also the rest of
an `execute` that does. -/
inductive BackendAct where
  | configure (call : ConfigCall)
  | execute
  | error
  | commit
  | rollback

/-- What a backend is started with. -/
structure BackendEnv (σ ε : Type) where
  registry : Registry σ ε
  retry : LlmHandle σ → LlmHandle σ
  pg : PgEnv

namespace BackendEnv

variable {σ ε : Type}

/-- `build_kernel_from_db`, in this backend. -/
def build (env : BackendEnv σ ε) (cfg : Config) : Except RuntimeError (Runtime σ ε) :=
  buildKernelFromDb env.registry env.retry env.pg cfg

/-- `kernel_handle`. -/
def kernelHandle (env : BackendEnv σ ε) (s : TxnCache Config (Runtime σ ε)) :
    Except RuntimeError (Runtime σ ε) := s.handle env.build

/-- One statement.  In a transaction that has failed, only its end is taken.  A configuration
function that does not raise calls `rebuild_kernel`; `execute` calls `kernel_handle`, and raises
where there is no kernel (`ensure_kernel`). -/
def step (env : BackendEnv σ ε) (s : TxnCache Config (Runtime σ ε)) :
    BackendAct → Option (TxnCache Config (Runtime σ ε))
  | .configure call => if s.aborted then none else some (s.write (call.run env.pg))
  | .execute => if s.aborted then none else some (s.read env.build)
  -- an error does not clear the slot
  | .error => some s.fail
  | .commit => some s.commit
  | .rollback => some s.rollback

end BackendEnv

end PgSynapse
