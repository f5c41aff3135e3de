import PgSynapse.Types.Profile
import PgSynapse.Runtime.ExecuteInner
import Mathlib.Logic.Function.Basic

/-!
# `RuntimeBuilder` and the `Runtime` facade

How a runtime is built from the rows of a `ProfileSource` (`runtime/builder.rs`,
`runtime/resolver.rs`) and how it prepares the run of an agent (`runtime/mod.rs`).  What plugins put
into the registry is given: tools, executors and the factories that turn a profile row into a
provider.  `ε` is the type of embedding providers, which no executor calls.

A `HashMap` is a function to `Option`.  The builder's inline profiles, agents and secrets are left
out: both hosts load everything from their source.
-/

namespace PgSynapse

/-- A hydrated LLM provider, with the one capability the runtime asks for. -/
structure LlmHandle (σ : Type) where
  provider : LlmProvider σ
  toolUse : Bool

/-- `Registry`: what the plugins registered. -/
structure Registry (σ ε : Type) where
  tools : ToolRegistry σ
  executors : String → Option ExecutorKind
  llmFactories : String → Option (LlmProfileRow → Except ProviderError (LlmHandle σ))
  embeddingFactories : String → Option (EmbeddingProfileRow → Except ProviderError ε)

/-- `dyn ProfileSource`. -/
structure ProfileSource where
  llmProfiles : Except RuntimeError (List LlmProfileRow)
  embeddingProfiles : Except RuntimeError (List EmbeddingProfileRow)
  agents : Except RuntimeError (List AgentRow)
  secrets : List String → Except RuntimeError (String → Option String)

/-! ### Secrets -/

/-- `out.push(name)` unless the name was seen. -/
def pushUnseen (out : List String) (name : String) : List String :=
  if name ∈ out then out else out ++ [name]

/-- `collect_secret_names`. -/
def collectSecretNames (llmProfiles : List LlmProfileRow)
    (embeddingProfiles : List EmbeddingProfileRow) : List String :=
  let seen := (llmProfiles.filterMap LlmProfileRow.apiKeySecret).foldl pushUnseen []
  (embeddingProfiles.filterMap EmbeddingProfileRow.apiKeySecret).foldl pushUnseen seen

/-- `inject_resolved_key`. -/
def injectResolvedKey (params : Value) (secretName : Option String)
    (secrets : String → Option String) : Value :=
  match secretName.bind secrets with
  | none => params
  | some val =>
    match params with
    | .object _ => params.set "_resolved_api_key" (.string val)
    -- parameters that are no object are replaced
    | _ => .obj [("_resolved_api_key", .string val)]

/-! ### Building -/

/-- Hydrate one profile: find the factory of its provider and build it, with its key injected. -/
def hydrate {ρ π : Type} (factories : String → Option (ρ → Except ProviderError π))
    (provider : ρ → String) (withKey : ρ → ρ) (profile : ρ) : Except RuntimeError π :=
  match factories (provider profile) with
  | none => .error (.provider (.notRegistered (provider profile)))
  | some factory => (factory (withKey profile)).mapError .provider

/-- Hydrate profiles one after another into a map keyed by their names; the first failure ends the
build. -/
def hydrateAll {ρ π : Type} (name : ρ → String) (build : ρ → Except RuntimeError π) :
    List ρ → (String → Option π) → Except RuntimeError (String → Option π)
  | [], providers => .ok providers
  | profile :: rest, providers =>
    match build profile with
    | .error e => .error e
    | .ok p => hydrateAll name build rest (Function.update providers (name profile) (some p))

/-- `agent_index.insert(a.name.clone(), a)`. -/
def insertAgent (index : String → Option AgentRow) (a : AgentRow) : String → Option AgentRow :=
  Function.update index a.name (some a)

/-- Index the agents by name; a later row replaces an earlier one. -/
def indexAgents (agents : List AgentRow) : String → Option AgentRow :=
  agents.foldl insertAgent fun _ => none

/-- Every agent of the index is under its own name. -/
def Keyed (index : String → Option AgentRow) : Prop :=
  ∀ name agent, index name = some agent → agent.name = name

theorem insertAgent_keyed {index : String → Option AgentRow} (h : Keyed index) (a : AgentRow) :
    Keyed (insertAgent index a) := by
  intro name agent hagent
  unfold insertAgent at hagent
  by_cases hname : name = a.name
  · rw [hname, Function.update_self] at hagent
    rw [hname, Option.some.inj hagent]
  · rw [Function.update_of_ne hname] at hagent
    exact h name agent hagent

theorem indexAgents_keyed (agents : List AgentRow) : Keyed (indexAgents agents) := by
  have hnone : Keyed fun _ => none := fun _ _ h => absurd h (by simp)
  unfold indexAgents
  -- the index grows along the list, so the invariant is stated for any one to start from
  generalize (fun _ => none : String → Option AgentRow) = index at hnone
  induction agents generalizing index with
  | nil => exact hnone
  | cons a rest ih => exact ih _ (insertAgent_keyed hnone a)

/-- `Runtime`.  Every agent is indexed under its own name. -/
structure Runtime (σ ε : Type) where
  registry : Registry σ ε
  llmProviders : String → Option (LlmHandle σ)
  embeddingProviders : String → Option ε
  agents : String → Option AgentRow
  keyed : Keyed agents

namespace Runtime

variable {σ ε : Type}

/-- The secrets the profiles name; the source is not asked when there are none. -/
def fetchSecrets (source : ProfileSource) (llmProfiles : List LlmProfileRow)
    (embeddingProfiles : List EmbeddingProfileRow) : Except RuntimeError (String → Option String) :=
  let needed := collectSecretNames llmProfiles embeddingProfiles
  -- a name the source does not have is not an error here
  if needed.isEmpty then .ok fun _ => none else source.secrets needed

/-- `RuntimeBuilder::build`, once the rows and the secrets are read.  `retry` wraps every LLM
provider. -/
def assemble (registry : Registry σ ε) (retry : LlmHandle σ → LlmHandle σ)
    (llmProfiles : List LlmProfileRow) (embeddingProfiles : List EmbeddingProfileRow)
    (agents : List AgentRow) (secrets : String → Option String) :
    Except RuntimeError (Runtime σ ε) := do
  let llm ← hydrateAll LlmProfileRow.name
    (fun p => (hydrate registry.llmFactories LlmProfileRow.provider
      (fun p => { p with params := injectResolvedKey p.params p.apiKeySecret secrets }) p).map
        retry)
    llmProfiles fun _ => none
  let embeddings ← hydrateAll EmbeddingProfileRow.name
    (hydrate registry.embeddingFactories EmbeddingProfileRow.provider
      fun p => { p with params := injectResolvedKey p.params p.apiKeySecret secrets })
    embeddingProfiles fun _ => none
  return { registry := registry, llmProviders := llm, embeddingProviders := embeddings,
           agents := indexAgents agents, keyed := indexAgents_keyed agents }

/-- `RuntimeBuilder::build`: the profiles, the agents, the secrets the profiles name, and then the
providers. -/
def build (registry : Registry σ ε) (retry : LlmHandle σ → LlmHandle σ) (source : ProfileSource) :
    Except RuntimeError (Runtime σ ε) := do
  let llmProfiles ← source.llmProfiles
  let embeddingProfiles ← source.embeddingProfiles
  let agents ← source.agents
  let secrets ← fetchSecrets source llmProfiles embeddingProfiles
  assemble registry retry llmProfiles embeddingProfiles agents secrets

/-! ### Preparing a run -/

/-- The error of an agent without a profile. -/
def noLlmProfile : RuntimeError :=
  .config ("no LLM profile for this agent: it does not name one and no default is " ++
    "configured for its tier (see pg_synapse.default_llm_profile_main / _small)")

/-- `Runtime::resolve_llm`. -/
def resolveLlm (rt : Runtime σ ε) (name : Option String) : Except RuntimeError (LlmHandle σ) :=
  match name with
  | none => .error noLlmProfile
  | some key =>
    match rt.llmProviders key with
    | none => .error (.provider (.notRegistered ("llm profile '" ++ key ++ "'")))
    | some llm => .ok llm

end Runtime

end PgSynapse
