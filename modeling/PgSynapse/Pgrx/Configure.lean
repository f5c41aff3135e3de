import PgSynapse.Pgrx.ProfileSource

/-!
# The configuration functions of the extension

The SQL functions that change what the kernel is built from (`sql_functions.rs`), as functions on
the tables.  An error is one that is raised: it aborts the transaction the call is part of.
-/

namespace PgSynapse

namespace Configure

/-! ### Agents -/

/-- `synapse.agent_create`. -/
def agentCreate (name systemPrompt executorName : String) (llmProfileMain : Option String)
    (tools : List String) (maxIterations timeoutMs : Int) (cfg : Config) : Except String Config :=
  let row : AgentRecord :=
    { name := name, systemPrompt := systemPrompt, soul := none, executorName := executorName,
      llmProfileMain := llmProfileMain, llmProfileSmall := none, llmProfileJudge := none,
      embeddingProfile := none, tools := .ofList tools, maxIterations := maxIterations,
      timeoutMs := timeoutMs, costCapUsd := none, traceLevel := none, modelTier := .large,
      guardrails := none, memory := none, critique := none }
  let set (a : AgentRecord) : AgentRecord := { a with
    systemPrompt := systemPrompt, executorName := executorName, llmProfileMain := llmProfileMain,
    tools := .ofList tools, maxIterations := maxIterations, timeoutMs := timeoutMs }
  .ok { cfg with agents := cfg.agents.upsert row set fun _ => rfl }

/-- `synapse.agent_drop`: the skills, hints and lessons of the agent go with it. -/
def agentDrop (name : String) (cfg : Config) : Except String Config :=
  .ok { cfg with
    agents := cfg.agents.keep fun a => a.name ≠ name
    skills := cfg.skills.keep fun s => s.agent ≠ name
    toolHints := cfg.toolHints.filter fun h => h.agent ≠ some name
    lessons := cfg.lessons.filter fun l => l.agent ≠ name }

/-- `synapse.agent_set_model_tier`. -/
def agentSetModelTier (name tier : String) (cfg : Config) : Except String Config :=
  if tier = "small" ∨ tier = "large" then
    let set (a : AgentRecord) : AgentRecord :=
      { a with modelTier := if tier = "small" then .small else .large }
    .ok { cfg with agents := cfg.agents.update name set fun _ => rfl }
  else .error ("invalid model tier '" ++ tier ++ "'; use 'small' or 'large'")

/-- `synapse.agent_set_trace_level`. -/
def agentSetTraceLevel (name : String) (level : Option String) (cfg : Config) :
    Except String Config :=
  match level.filter fun l => l ∉ ["off", "error", "info", "debug", "full"] with
  | some l =>
    .error ("invalid trace level '" ++ l ++ "'; use one of: off, error, info, debug, full")
  | none =>
    let set (a : AgentRecord) : AgentRecord := { a with traceLevel := level }
    .ok { cfg with agents := cfg.agents.update name set fun _ => rfl }

/-! ### Always-on text -/

/-- `ALWAYS_ON_MAX_CHARS`. -/
def alwaysOnMaxChars : Nat := 24000

/-- `Harness::total_always_on_chars`. -/
def totalAlwaysOnChars (h : Harness) (systemPrompt : String) (soul : Option String) : Nat :=
  systemPrompt.length + (soul.map String.length).getD 0 +
    (h.alwaysOnBlock.map String.length).getD 0

/-- The error of an agent that is not there. -/
def noAgent (agent : String) : String := "agent '" ++ agent ++ "' does not exist"

/-- One always-on component of a row set to a value.  A `system_prompt` of NULL counts as empty. -/
def withComponent (a : AgentRecord) (component : Option String) (value : Option String) :
    AgentRecord :=
  match component with
  | some "system_prompt" => { a with systemPrompt := value.getD "" }
  | some "soul" => { a with soul := value }
  | some "guardrails" => { a with guardrails := value }
  | some "memory" => { a with memory := value }
  | _ => a

/-- The row of `always_on_after`: only the always-on columns are read. -/
def alwaysOnRow (a : AgentRecord) : AgentRow where
  name := a.name
  systemPrompt := a.systemPrompt
  soul := a.soul
  executorName := ""
  llmProfileMain := none
  llmProfileSmall := none
  llmProfileJudge := none
  embeddingProfile := none
  tools := []
  maxIterations := 0
  timeoutMs := 0
  costCapUsd := none
  traceLevel := none
  components := { Harness.default with guardrails := a.guardrails, memory := a.memory }

/-- `always_on_after`: the always-on characters of an agent with one component replaced. -/
def alwaysOnAfter (env : PgEnv) (cfg : Config) (agent : String) (component value : Option String) :
    Except String Nat :=
  match cfg.agents.get agent with
  | none => .error (noAgent agent)
  | some a =>
    let row := loadHarnessExtras env cfg (alwaysOnRow (withComponent a component value))
    .ok (totalAlwaysOnChars row.components row.systemPrompt row.soul)

/-- `enforce_always_on_cap`. -/
def enforceAlwaysOnCap (agent : String) (total : Nat) : Except String Unit :=
  if total > alwaysOnMaxChars then
    .error ("always-on text for agent '" ++ agent ++ "' would be " ++ toString total ++
      " chars; the cap is " ++ toString alwaysOnMaxChars ++ ". Every always-on character is paid " ++
      "for on every turn: move procedure into a skill (synapse.skill_set) or cut prose.")
  else .ok ()

/-- The column of a component set to a value; the row is as `withComponent` has it, and `critique` is
a column too. -/
def setColumn (a : AgentRecord) (component : String) (value : Option String) : AgentRecord :=
  if component = "critique" then { a with critique := value }
  else withComponent a (some component) value

theorem setColumn_name (component : String) (value : Option String) (a : AgentRecord) :
    (setColumn a component value).name = a.name := by
  unfold setColumn withComponent
  split
  · rfl
  · split <;> rfl

/-- `synapse.agent_set_component`. -/
def agentSetComponent (env : PgEnv) (agent component : String) (value : Option String)
    (cfg : Config) : Except String Config := do
  if component ∉ ["system_prompt", "soul", "guardrails", "memory", "critique"] then
    .error ("unknown component '" ++ component ++
      "'; use one of: system_prompt, soul, guardrails, memory, critique")
  if component = "system_prompt" ∧ (value.map Text.isBlank).getD true then
    .error "system_prompt must not be empty"
  if component ≠ "critique" then
    let total ← alwaysOnAfter env cfg agent (some component) value
    enforceAlwaysOnCap agent total
  if agent ∈ cfg.agents.keys then
    let agents := cfg.agents.update agent (fun a => setColumn a component value)
      (setColumn_name component value)
    return { cfg with agents := agents }
  else .error (noAgent agent)

/-! ### Skills, hints and lessons -/

/-- The CHECK on `skills.name`. -/
def validSkillName (name : String) : Bool :=
  let alnum (c : Char) : Bool := ('a' ≤ c && c ≤ 'z') || ('0' ≤ c && c ≤ '9')
  match name.toList with
  | [] => false
  | c :: rest => alnum c && rest.all fun c => alnum c || c == '_' || c == '-'

/-- `synapse.skill_set`. -/
def skillSet (env : PgEnv) (agent name description body : String) (cfg : Config) :
    Except String Config := do
  if Text.isBlank description || Text.isBlank body then
    .error "skill description and body must not be empty"
  if !validSkillName name then
    .error "new row for relation \"skills\" violates check constraint \"skills_name_check\""
  if agent ∉ cfg.agents.keys then
    .error ("insert or update on table \"skills\" violates foreign key constraint " ++
      "\"skills_agent_fkey\"")
  let set (s : SkillRecord) : SkillRecord :=
    { s with skill := { s.skill with description := description, body := body } }
  let skills := cfg.skills.upsert ⟨agent, name, description, body⟩ set fun _ => rfl
  let cfg := { cfg with skills := skills }
  let total ← alwaysOnAfter env cfg agent none none
  enforceAlwaysOnCap agent total
  return cfg

/-- `synapse.skill_drop`. -/
def skillDrop (agent name : String) (cfg : Config) : Except String Config :=
  .ok { cfg with skills := cfg.skills.keep fun s => s.key ≠ (agent, name) }

/-- `synapse.tool_hint_add`. -/
def toolHintAdd (agent toolName : Option String) (errorPattern hint : String) (cfg : Config) :
    Except String Config := do
  if Text.isBlank errorPattern || Text.isBlank hint then
    .error "error_pattern and hint must not be empty"
  if agent.any fun a => a ∉ cfg.agents.keys then
    .error ("insert or update on table \"tool_hints\" violates foreign key constraint " ++
      "\"tool_hints_agent_fkey\"")
  return { cfg with toolHints := cfg.toolHints ++ [⟨agent, ⟨toolName, errorPattern, hint⟩, true⟩] }

/-- `synapse.lesson_add`. -/
def lessonAdd (env : PgEnv) (agent cue lesson evidence : String) (cfg : Config) :
    Except String Config := do
  if Text.isBlank cue || Text.isBlank lesson || Text.isBlank evidence then
    .error ("cue, lesson and evidence must all be non-empty; a lesson without evidence is a guess")
  if agent ∉ cfg.agents.keys then
    .error ("insert or update on table \"lessons\" violates foreign key constraint " ++
      "\"lessons_agent_fkey\"")
  let cfg := { cfg with lessons := cfg.lessons ++ [⟨agent, cue, lesson, evidence, true⟩] }
  let total ← alwaysOnAfter env cfg agent none none
  enforceAlwaysOnCap agent total
  return cfg

/-! ### Profiles and secrets -/

/-- `synapse.llm_profile_set`. -/
def llmProfileSet (name provider model : String) (baseUrl apiKeySecret : Option String)
    (params : Value) (cfg : Config) : Except String Config :=
  let row : LlmProfileRow := ⟨name, provider, model, apiKeySecret, baseUrl, params⟩
  let set (p : LlmProfileRow) : LlmProfileRow := { row with name := p.name }
  .ok { cfg with llmProfiles := cfg.llmProfiles.upsert row set fun _ => rfl }

/-- `synapse.embedding_profile_set`. -/
def embeddingProfileSet (name provider model : String) (dimension : Int) (baseUrl : Option String)
    (params : Value) (cfg : Config) : Except String Config :=
  let row : EmbeddingRecord := ⟨name, provider, model, dimension, none, baseUrl, params⟩
  -- `api_key_secret` is not among the columns the function sets
  let set (e : EmbeddingRecord) : EmbeddingRecord :=
    { row with name := e.name, apiKeySecret := e.apiKeySecret }
  .ok { cfg with embeddingProfiles := cfg.embeddingProfiles.upsert row set fun _ => rfl }

/-- `master_key`: a blank setting is as good as none. -/
def masterKey (gucs : Gucs) : Option String := gucs.masterKey.filter fun k => !Text.isBlank k

/-- `synapse.secret_set`.  The salt is what `pgp_sym_encrypt` draws. -/
def secretSet (env : PgEnv) (name value : String) (salt : Nat) (cfg : Config) :
    Except String Config :=
  let stored : SecretRecord := match masterKey env.gucs with
    | some key => ⟨name, env.crypto.encrypt value key salt, true⟩
    | none => ⟨name, value, false⟩
  let set (s : SecretRecord) : SecretRecord := { stored with name := s.name }
  .ok { cfg with secrets := cfg.secrets.upsert stored set fun _ => rfl }

end Configure

end PgSynapse
