import PgSynapse.Lib.Transition
import PgSynapse.Sidecar.Admin

/-!
# Swapping the runtime of the sidecar

`AppState` and `rebuild_runtime` (`main.rs`), as the `POST /v1/admin/*` handlers use them (`api.rs`).
A request commits its row, builds a runtime from the database and swaps it in.  Only the swap holds
the lock of the runtime: the build makes one query after another, and other requests commit between
any two of them.
-/

namespace PgSynapse

namespace Sidecar

variable {σ ε : Type}

/-! ### Building, query by query -/

/-- How far `RuntimeBuilder::build` has come: what it has read, or what it came to. -/
inductive BuildPhase (σ ε : Type) where
  | started
  | llmProfiles (llm : List LlmProfileRow)
  | embeddingProfiles (llm : List LlmProfileRow) (embedding : List EmbeddingProfileRow)
  | agents (llm : List LlmProfileRow) (embedding : List EmbeddingProfileRow)
      (rows : List AgentRow)
  | built (result : Except RuntimeError (Runtime σ ε))

/-- A query of the build, up to the next one; the first error ends the build. -/
def BuildPhase.next {α : Type} (answer : Except RuntimeError α) (k : α → BuildPhase σ ε) :
    BuildPhase σ ε :=
  match answer with
  | .ok a => k a
  | .error e => .built (.error e)

/-- The next query, answered by the source as it stands.  The last one is for the secrets, and the
providers are built after it. -/
def BuildPhase.read (registry : Registry σ ε) (source : ProfileSource) :
    BuildPhase σ ε → BuildPhase σ ε
  | .started => next source.llmProfiles fun llm => .llmProfiles llm
  | .llmProfiles llm => next source.embeddingProfiles fun emb => .embeddingProfiles llm emb
  | .embeddingProfiles llm emb => next source.agents fun rows => .agents llm emb rows
  | .agents llm emb rows =>
    next (Runtime.fetchSecrets source llm emb) fun secrets =>
      .built (Runtime.assemble registry id llm emb rows secrets)
  | .built result => .built result

/-! ### Admin requests -/

/-- How far a request has come: not yet at its statement; its row is committed; its runtime is being
built; and its end: the statement was refused, the rebuild failed, the runtime was swapped in.  A
build is `overtaken` when a row has been committed since it began. -/
inductive AdminPhase (σ ε : Type) where
  | arrived
  | committed
  | building (overtaken : Bool) (phase : BuildPhase σ ε)
  | refused
  | failed
  | rebuilt

/-- A request. -/
structure AdminTask (σ ε : Type) where
  request : AdminRequest
  phase : AdminPhase σ ε

/-- A row is committed while the request is where it is. -/
def AdminTask.overtake (task : AdminTask σ ε) : AdminTask σ ε :=
  match task.phase with
  | .building _ phase => { task with phase := .building true phase }
  | _ => task

/-- `AppState`: the database, the installed runtime, and the requests by their numbers. -/
structure AppState (σ ε : Type) where
  tables : Config
  runtime : Runtime σ ε
  requests : Nat → Option (AdminTask σ ε)

/-- What the requests do. -/
inductive AdminAct where
  | arrive (i : Nat) (request : AdminRequest)
  | commit (i : Nat)
  | refuse (i : Nat)
  | begin (i : Nat)
  | read (i : Nat)
  | swap (i : Nat)
  | fail (i : Nat)
  deriving DecidableEq, Repr

namespace AppState

/-- The sidecar at its start. -/
def init (tables : Config) (runtime : Runtime σ ε) : AppState σ ε := ⟨tables, runtime, fun _ => none⟩

/-- A request goes on to a phase. -/
def goto (s : AppState σ ε) (i : Nat) (request : AdminRequest) (phase : AdminPhase σ ε) :
    AppState σ ε :=
  { s with requests := Function.update s.requests i (some ⟨request, phase⟩) }

/-- The statement of a request commits. -/
def write (s : AppState σ ε) (request : AdminRequest) : AppState σ ε :=
  { s with
    tables := request.write s.tables
    requests := fun j => (s.requests j).map AdminTask.overtake }

/-- One step of the sidecar. -/
def step (registry : Registry σ ε) (s : AppState σ ε) : AdminAct → Option (AppState σ ε)
  | .arrive i request =>
    match s.requests i with
    | none => some (s.goto i request .arrived)
    | some _ => none
  | .commit i =>
    match s.requests i with
    | some ⟨request, .arrived⟩ => some ((s.write request).goto i request .committed)
    | _ => none
  | .refuse i =>
    match s.requests i with
    | some ⟨request, .arrived⟩ => some (s.goto i request .refused)
    | _ => none
  | .begin i =>
    match s.requests i with
    | some ⟨request, .committed⟩ => some (s.goto i request (.building false .started))
    | _ => none
  | .read i =>
    match s.requests i with
    | some ⟨request, .building overtaken phase⟩ =>
      some (s.goto i request
        (.building overtaken (phase.read registry (sqlxProfileSource s.tables))))
    | _ => none
  | .swap i =>
    match s.requests i with
    | some ⟨request, .building _ (.built (.ok rebuilt))⟩ =>
      some { (s.goto i request .rebuilt) with runtime := rebuilt }
    | _ => none
  | .fail i =>
    -- a query or a provider fails, and the runtime stays as it is
    match s.requests i with
    | some ⟨request, .building _ _⟩ => some (s.goto i request .failed)
    | _ => none

end AppState

end Sidecar

end PgSynapse
