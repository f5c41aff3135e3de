import PgSynapse.Lib.Except
import PgSynapse.Pgrx.ProfileSource

/-!
# The audited model is the model that ran

The kernel resolves an agent's main profile through `synapse.config_agents`, `apply_guc_fallbacks`
and `resolve_llm`; the audit trail resolves it through `synapse.agent_llm_profile`.  The two agree
except for an agent of the small tier that falls through to the default of the large one
(`audited_profile_runs_iff`).
-/

namespace PgSynapse

variable {σ ε : Type}

/-! ### The agents of a built kernel -/

/-- The agents of a runtime are the ones its source gave. -/
theorem Runtime.build_agents {registry : Registry σ ε} {retry : LlmHandle σ → LlmHandle σ}
    {source : ProfileSource} {rt : Runtime σ ε} (h : build registry retry source = .ok rt) :
    ∃ agents, source.agents = .ok agents ∧ rt.agents = indexAgents agents := by
  unfold build at h
  obtain ⟨llmProfiles, -, h⟩ := bind_eq_ok.mp h
  obtain ⟨embeddingProfiles, -, h⟩ := bind_eq_ok.mp h
  obtain ⟨agents, hagents, h⟩ := bind_eq_ok.mp h
  obtain ⟨secrets, -, h⟩ := bind_eq_ok.mp h
  unfold assemble at h
  obtain ⟨llm, -, h⟩ := bind_eq_ok.mp h
  obtain ⟨embeddings, -, h⟩ := bind_eq_ok.mp h
  refine ⟨agents, hagents, ?_⟩
  rw [← Except.ok.inj h]

/-- Rows of other names leave an entry of the index alone. -/
theorem foldl_insertAgent_of_notMem {name : String} {rows : List AgentRow}
    (h : name ∉ rows.map AgentRow.name) (index : String → Option AgentRow) :
    rows.foldl insertAgent index name = index name := by
  induction rows generalizing index with
  | nil => rfl
  | cons a rest ih =>
    rw [List.map_cons, List.mem_cons, not_or] at h
    rw [List.foldl_cons, ih h.2, insertAgent, Function.update_of_ne h.1]

theorem indexAgents_of_mem {agents : List AgentRow} (hnodup : (agents.map AgentRow.name).Nodup)
    {a : AgentRow} (ha : a ∈ agents) : indexAgents agents a.name = some a := by
  unfold indexAgents
  generalize (fun _ => none : String → Option AgentRow) = index
  induction agents generalizing index with
  | nil => exact absurd ha (by simp)
  | cons b rest ih =>
    rw [List.map_cons, List.nodup_cons] at hnodup
    rcases List.mem_cons.mp ha with rfl | ha
    · rw [List.foldl_cons, foldl_insertAgent_of_notMem hnodup.1, insertAgent, Function.update_self]
    · exact ih hnodup.2 ha _

/-- The decoded row of an agent. -/
theorem configAgent_ok {gucs : Gucs} {cfg : Config} {a : AgentRecord} {row : AgentRow}
    (h : configAgent gucs cfg a = .ok row) :
    row.name = a.name ∧ row.llmProfileMain = agentLlmProfile gucs cfg a.name := by
  unfold configAgent at h
  obtain ⟨costCapUsd, -, h⟩ := bind_eq_ok.mp h
  obtain ⟨maxIterations, -, h⟩ := bind_eq_ok.mp h
  obtain ⟨timeoutMs, -, h⟩ := bind_eq_ok.mp h
  obtain ⟨tools, -, h⟩ := bind_eq_ok.mp h
  rw [← Except.ok.inj h]
  exact ⟨rfl, rfl⟩

/-- The name and the main profile of a row as the kernel gets it. -/
theorem loadedAgent_main (env : PgEnv) (cfg : Config) (row : AgentRow) :
    (loadHarnessExtras env cfg (applyGucFallbacks env row)).name = row.name ∧
      (loadHarnessExtras env cfg (applyGucFallbacks env row)).llmProfileMain =
        row.llmProfileMain.or (gucString env.gucs.defaultLlmProfileMain) := ⟨rfl, rfl⟩

/-- **The main profile in the kernel**: what `synapse.agent_llm_profile` answers, or else the default
of the large tier. -/
theorem buildKernelFromDb_main {registry : Registry σ ε} {retry : LlmHandle σ → LlmHandle σ}
    {env : PgEnv} {cfg : Config} {rt : Runtime σ ε} {record : AgentRecord}
    (hrecord : record ∈ cfg.agents.rows)
    (h : buildKernelFromDb registry retry env cfg = .ok rt) :
    ∃ agent, rt.agents record.name = some agent ∧ agent.llmProfileMain =
      (agentLlmProfile env.gucs cfg record.name).or
        (gucString env.gucs.defaultLlmProfileMain) := by
  obtain ⟨agents, hagents, hindex⟩ := Runtime.build_agents h
  obtain ⟨rows, hrows, rfl⟩ := map_eq_ok.mp hagents
  have hdecoded := mapError_eq_ok.mp hrows
  -- the kernel's rows have the names of the table's rows
  have hnames : (rows.map fun a => loadHarnessExtras env cfg (applyGucFallbacks env a)).map
      AgentRow.name = cfg.agents.rows.map AgentRecord.name := by
    rw [List.map_map]
    exact map_of_mapM_eq_ok hdecoded fun a row hrow =>
      (loadedAgent_main env cfg row).1.trans (configAgent_ok hrow).1
  obtain ⟨row, hmem, hrow⟩ := exists_of_mapM_eq_ok hdecoded hrecord
  obtain ⟨hname, hmain⟩ := configAgent_ok hrow
  obtain ⟨hname', hmain'⟩ := loadedAgent_main env cfg row
  refine ⟨loadHarnessExtras env cfg (applyGucFallbacks env row), ?_, ?_⟩
  · have hnodup := cfg.agents.nodup
    rw [← hnames] at hnodup
    rw [hindex, ← hname, ← hname']
    exact indexAgents_of_mem hnodup (List.mem_map_of_mem hmem)
  · rw [hmain', hmain]

/-! ### The profile of a run -/

namespace Runtime

variable {rt : Runtime σ ε} {name : String} {agent : AgentRow} {req : RunRequest σ}

/-- An agent without a profile is refused. -/
theorem prepare_refused (hagent : rt.agents name = some agent) (hmain : agent.llmProfileMain = none) :
    rt.prepare name req = .error noLlmProfile := by
  unfold prepare
  rw [hagent]
  simp only [hmain, resolveLlm]

/-- A run that starts uses the provider of the agent's profile. -/
theorem prepare_ok {run : Prepared σ} {profile : String} (hagent : rt.agents name = some agent)
    (hmain : agent.llmProfileMain = some profile) (h : rt.prepare name req = .ok run) :
    ∃ llm, rt.llmProviders profile = some llm ∧ run.ctx.llm = llm.provider := by
  obtain ⟨agent', llm, hagent', hllm, hctx⟩ := prepare_eq_ok h
  obtain rfl := Option.some.inj (hagent.symm.trans hagent')
  refine ⟨llm, ?_, by rw [hctx]; rfl⟩
  simp only [hmain, resolveLlm] at hllm
  split at hllm
  · cases hllm
  · next llm' hprovider => rw [hprovider, Except.ok.inj hllm]

end Runtime

/-- **The audited profile runs**: the main profile the kernel has for the agent is the one the audit
trail records; a run that starts uses its provider, and without a profile no run starts. -/
structure AuditedProfileRuns (env : PgEnv) (cfg : Config) (rt : Runtime σ ε) (name : String) :
    Prop where
  resolved : ∃ agent, rt.agents name = some agent ∧
    agent.llmProfileMain = agentLlmProfile env.gucs cfg name
  used : ∀ profile, agentLlmProfile env.gucs cfg name = some profile →
    ∀ req run, rt.prepare name req = .ok run →
      ∃ llm, rt.llmProviders profile = some llm ∧ run.ctx.llm = llm.provider
  refused : agentLlmProfile env.gucs cfg name = none →
    ∀ req, rt.prepare name req = .error Runtime.noLlmProfile

/-- The agent names no profile and is of the small tier, which has no default, while the large one
has. -/
structure FallsThrough (gucs : Gucs) (record : AgentRecord) : Prop where
  unpinned : record.llmProfileMain = none
  small : record.modelTier = .small
  no_small : gucString gucs.defaultLlmProfileSmall = none
  main : gucString gucs.defaultLlmProfileMain ≠ none

/-- The fallback of the kernel changes what `synapse.agent_llm_profile` answers in one case. -/
theorem llmProfile_or_eq_iff (gucs : Gucs) (record : AgentRecord) :
    (record.llmProfile gucs).or (gucString gucs.defaultLlmProfileMain) = record.llmProfile gucs ↔
      ¬ FallsThrough gucs record := by
  unfold AgentRecord.llmProfile
  cases hpin : record.llmProfileMain with
  | some p =>
    -- a profile the row names is not overridden
    refine iff_of_true (by simp) fun hfalls => ?_
    exact absurd (hpin.symm.trans hfalls.unpinned) (by simp)
  | none =>
    rw [Option.none_or]
    by_cases htier : record.modelTier = .small
    · rw [if_pos htier]
      cases hsmall : gucString gucs.defaultLlmProfileSmall with
      | some p =>
        refine iff_of_true (by simp) fun hfalls => ?_
        exact absurd (hsmall.symm.trans hfalls.no_small) (by simp)
      | none =>
        -- the audit trail has nothing, and the kernel has what the large tier has
        rw [Option.none_or]
        constructor
        · intro hmain hfalls
          exact hfalls.main hmain
        · intro hfalls
          by_contra hmain
          exact hfalls ⟨hpin, htier, hsmall, hmain⟩
    · -- both fall back to the same setting
      rw [if_neg htier]
      refine iff_of_true (by simp) fun hfalls => htier hfalls.small

/-- **Audited and run**: for every agent of a kernel that was built from the tables, the audited main
profile is the one that runs, and without one the run is refused, if and only if the agent does not
fall through from the small tier to the default of the large one. -/
theorem audited_profile_runs_iff (registry : Registry σ ε) (retry : LlmHandle σ → LlmHandle σ)
    (env : PgEnv) (cfg : Config) (rt : Runtime σ ε) (record : AgentRecord)
    (hrecord : record ∈ cfg.agents.rows)
    (hbuild : buildKernelFromDb registry retry env cfg = .ok rt) :
    AuditedProfileRuns env cfg rt record.name ↔ ¬ FallsThrough env.gucs record := by
  obtain ⟨agent, hagent, hmain⟩ := buildKernelFromDb_main hrecord hbuild
  have haudited : agentLlmProfile env.gucs cfg record.name = record.llmProfile env.gucs := by
    rw [agentLlmProfile, Table.get_of_mem hrecord, Option.bind_some]
  rw [haudited] at hmain
  rw [← llmProfile_or_eq_iff, ← hmain]
  constructor
  · rintro ⟨⟨agent', hagent', hmain'⟩, -, -⟩
    obtain rfl := Option.some.inj (hagent.symm.trans hagent')
    rw [hmain', haudited]
  · intro heq
    refine ⟨⟨agent, hagent, by rw [heq, haudited]⟩, ?_, ?_⟩
    · intro profile hprofile req run hrun
      rw [haudited, ← heq] at hprofile
      exact Runtime.prepare_ok hagent hprofile hrun
    · intro hnone req
      rw [haudited, ← heq] at hnone
      exact Runtime.prepare_refused hagent hnone

/-! ### An agent of the small tier -/

namespace SmallTier

/-- An agent that leaves its model to the small tier. -/
def scout : AgentRecord where
  name := "scout"
  systemPrompt := "Look around."
  soul := none
  executorName := "conversation"
  llmProfileMain := none
  llmProfileSmall := none
  llmProfileJudge := none
  embeddingProfile := none
  tools := .ofList []
  maxIterations := 10
  timeoutMs := 60000
  costCapUsd := none
  traceLevel := none
  modelTier := .small
  guardrails := none
  memory := none
  critique := none

/-- A database with that agent and one profile. -/
def config : Config :=
  { Config.empty with
    agents := Table.empty.insert scout (by simp [Table.keys, Table.empty])
    llmProfiles := Table.empty.insert ⟨"big", "openai", "gpt-big", none, none, .obj []⟩
      (by simp [Table.keys, Table.empty]) }

/-- Only the default of the large tier is set, and that of the small one as given. -/
def env (small : Option String) : PgEnv where
  gucs := ⟨some "big", small, none, none, 0, 0, 0, none, none, none⟩
  crypto := ⟨fun value _ _ => value, fun text _ => .ok text⟩
  collate a b := a ≤ b
  parseF64 _ := none

/-- A registry with the executors and the one provider. -/
def registry : Registry Unit Unit where
  tools := .empty
  executors _ := some .conversation
  llmFactories _ := some fun p => .ok ⟨⟨p.model, fun _ _ s => (.pending, s)⟩, true⟩
  embeddingFactories _ := none

/-- With a default for the small tier the agent runs on it, and so the audit trail says. -/
theorem small_default_audited :
    ∃ rt, buildKernelFromDb registry id (env (some "big")) config = .ok rt ∧
      agentLlmProfile (env (some "big")).gucs config "scout" = some "big" ∧
      AuditedProfileRuns (env (some "big")) config rt "scout" := by
  obtain ⟨rt, hbuild⟩ : ∃ rt, buildKernelFromDb registry id (env (some "big")) config = .ok rt :=
    ⟨_, rfl⟩
  refine ⟨rt, hbuild, rfl, ?_⟩
  refine (audited_profile_runs_iff registry id _ config rt scout List.mem_cons_self hbuild).mpr ?_
  intro hfalls
  exact absurd hfalls.no_small (by decide)

/-- Without one the agent has no profile for the audit trail, and runs on the large tier's. -/
theorem small_tier_runs_large :
    ∃ rt, buildKernelFromDb registry id (env none) config = .ok rt ∧
      agentLlmProfile (env none).gucs config "scout" = none ∧
      (∃ run, rt.prepare "scout" ⟨"hi", none, ⟨1⟩, none⟩ = .ok run ∧
        run.ctx.llm.modelName = "gpt-big") ∧
      ¬ AuditedProfileRuns (env none) config rt "scout" := by
  obtain ⟨rt, hbuild, run, hrun, hmodel⟩ : ∃ rt,
      buildKernelFromDb registry id (env none) config = .ok rt ∧
        ∃ run, rt.prepare "scout" ⟨"hi", none, ⟨1⟩, none⟩ = .ok run ∧
          run.ctx.llm.modelName = "gpt-big" := ⟨_, rfl, _, rfl, rfl⟩
  refine ⟨rt, hbuild, rfl, ⟨run, hrun, hmodel⟩, ?_⟩
  intro haudited
  exact absurd (hrun.symm.trans (haudited.refused rfl _)) (by simp)

end SmallTier

end PgSynapse
