import PgSynapse.Lib.Except
import PgSynapse.Pgrx.ProfileSource
import PgSynapse.Sidecar.ProfileSource
import Mathlib.Data.Set.List

/-!
# When both hosts load the same agents

The extension fills what a row leaves open from its settings and refuses a negative number, and a cost
cap of NaN; the sidecar takes the columns as they are.  Both refuse a tool that is NULL, and the sidecar
an array that does not start at one.  Trace level, skills, hints and lessons apart, they load the same
agents exactly when every row is settled: nothing that has a default is left open in it, its two limits
are positive, its cost cap is a number and its tools are a plain list (`agents_loaded_same_iff`).
-/

namespace PgSynapse

/-! ### What the columns and the settings hold -/

/-- The values of the columns `max_iterations` (`INT`), `timeout_ms` (`BIGINT`) and `cost_cap_usd`
(`NUMERIC(12,6)`, which has NaN and no infinities). -/
structure AgentRecord.InColumns (a : AgentRecord) : Prop where
  maxIterations : -2 ^ 31 ≤ a.maxIterations ∧ a.maxIterations < 2 ^ 31
  timeoutMs : -2 ^ 63 ≤ a.timeoutMs ∧ a.timeoutMs < 2 ^ 63
  costCapUsd : ∀ neg, a.costCapUsd ≠ some (.infinity neg)

/-- The values the numeric settings are registered with. -/
structure Gucs.Registered (gucs : Gucs) : Prop where
  defaultTimeoutMs : 100 ≤ gucs.defaultTimeoutMs ∧ gucs.defaultTimeoutMs < 2 ^ 31
  defaultTimeoutSeconds : 1 ≤ gucs.defaultTimeoutSeconds ∧ gucs.defaultTimeoutSeconds ≤ 2147483
  defaultMaxIterations : 1 ≤ gucs.defaultMaxIterations ∧ gucs.defaultMaxIterations ≤ 1000

/-! ### The same agent -/

/-- The rows of the two hosts agree; the extension folds the lessons into the memory. -/
structure SameAgent (lessons : List LessonRecord) (spi sqlx : AgentRow) : Prop where
  name : spi.name = sqlx.name
  systemPrompt : spi.systemPrompt = sqlx.systemPrompt
  soul : spi.soul = sqlx.soul
  executorName : spi.executorName = sqlx.executorName
  llmProfileMain : spi.llmProfileMain = sqlx.llmProfileMain
  llmProfileSmall : spi.llmProfileSmall = sqlx.llmProfileSmall
  llmProfileJudge : spi.llmProfileJudge = sqlx.llmProfileJudge
  embeddingProfile : spi.embeddingProfile = sqlx.embeddingProfile
  tools : spi.tools = sqlx.tools
  maxIterations : spi.maxIterations = sqlx.maxIterations
  timeoutMs : spi.timeoutMs = sqlx.timeoutMs
  costCapUsd : spi.costCapUsd = sqlx.costCapUsd
  guardrails : spi.components.guardrails = sqlx.components.guardrails
  memory : spi.components.memory = foldLessons sqlx.components.memory lessons
  critique : spi.components.critique = sqlx.components.critique

/-- Both hosts load the agents, and the same ones. -/
def LoadSameAgents (env : PgEnv) (cfg : Config) : Prop :=
  ∃ spi sqlx, (spiProfileSource env cfg).agents = .ok spi ∧
    (Sidecar.sqlxProfileSource cfg).agents = .ok sqlx ∧
    List.Forall₂ (fun row row' => SameAgent (configLessons cfg row'.name) row row') spi sqlx

/-- At most one dimension, which starts at one, and no NULL. -/
structure TextArray.Plain (a : TextArray) : Prop where
  bounds : a.lowerBounds = [] ∨ a.lowerBounds = [1]
  elements : none ∉ a.elements

/-- **A row that leaves nothing to a default.** -/
structure AgentRecord.Settled (env : PgEnv) (a : AgentRecord) : Prop where
  maxIterations : 0 < a.maxIterations
  timeoutMs : 0 < a.timeoutMs
  main : a.llmProfileMain = none → gucString env.gucs.defaultLlmProfileMain = none ∧
    (a.modelTier = .small → gucString env.gucs.defaultLlmProfileSmall = none)
  small : a.llmProfileSmall = none → gucString env.gucs.defaultLlmProfileSmall = none
  judge : a.llmProfileJudge = none → gucString env.gucs.defaultLlmProfileJudge = none
  embedding : a.embeddingProfile = none → gucString env.gucs.defaultEmbeddingProfile = none
  number : a.costCapUsd ≠ some .nan
  costCap : a.costCapUsd = none →
    (gucString env.gucs.defaultCostCapUsd).bind env.parseF64 = none
  executor : a.executorName = "" → gucString env.gucs.defaultExecutor = none
  tools : a.tools.Plain

/-! ### Field by field -/

theorem or_eq_self_iff {α : Type} {o dflt : Option α} :
    o.or dflt = o ↔ (o = none → dflt = none) := by
  cases o <;> simp

theorem llmProfile_filled_iff (env : PgEnv) (a : AgentRecord) :
    (a.llmProfile env.gucs).or (gucString env.gucs.defaultLlmProfileMain) = a.llmProfileMain ↔
      (a.llmProfileMain = none → gucString env.gucs.defaultLlmProfileMain = none ∧
        (a.modelTier = .small → gucString env.gucs.defaultLlmProfileSmall = none)) := by
  unfold AgentRecord.llmProfile
  cases a.llmProfileMain with
  | some p => simp
  | none =>
    by_cases htier : a.modelTier = .small
    · simp [htier, and_comm]
    · simp [htier]

theorem executorName_filled_iff (env : PgEnv) (a : AgentRecord) :
    (if a.executorName.isEmpty then
      (gucString env.gucs.defaultExecutor).getD a.executorName else a.executorName) =
        a.executorName ↔
      (a.executorName = "" → gucString env.gucs.defaultExecutor = none) := by
  by_cases hempty : a.executorName = ""
  · cases hguc : gucString env.gucs.defaultExecutor with
    | none => simp [hempty]
    | some exec =>
      -- a setting that counts is not the empty text
      have hexec : exec ≠ "" := by
        obtain ⟨-, h⟩ := Option.filter_eq_some_iff.mp hguc
        rintro rfl
        simp at h
      simp [hempty, hexec]
  · simp [hempty]

/-! ### Numbers -/

theorem decodeU32_ok {i : Int} {n : UInt32} (h : decodeU32 i = .ok n) :
    0 ≤ i ∧ n = Sidecar.asU32 i := by
  unfold decodeU32 at h
  split at h
  case isTrue hi =>
    refine ⟨hi.1, ?_⟩
    rw [← Except.ok.inj h, Sidecar.asU32, Int.emod_eq_of_lt hi.1 hi.2]
  case isFalse => cases h

theorem decodeU64_ok {i : Int} {n : UInt64} (h : decodeU64 i = .ok n) :
    0 ≤ i ∧ n = Sidecar.asU64 i := by
  unfold decodeU64 at h
  split at h
  case isTrue hi =>
    refine ⟨hi.1, ?_⟩
    rw [← Except.ok.inj h, Sidecar.asU64, Int.emod_eq_of_lt hi.1 hi.2]
  case isFalse => cases h

theorem decodeU32_of_nonneg {i : Int} (h : 0 ≤ i) (hlt : i < 2 ^ 31) :
    decodeU32 i = .ok (Sidecar.asU32 i) := by
  unfold decodeU32
  rw [if_pos ⟨h, by omega⟩, Sidecar.asU32, Int.emod_eq_of_lt h (by omega)]

theorem decodeU64_of_nonneg {i : Int} (h : 0 ≤ i) (hlt : i < 2 ^ 63) :
    decodeU64 i = .ok (Sidecar.asU64 i) := by
  unfold decodeU64
  rw [if_pos ⟨h, by omega⟩, Sidecar.asU64, Int.emod_eq_of_lt h (by omega)]

theorem decodeF64_ok {q c : Option (Extended Rat)} (h : decodeF64 q = .ok c) :
    q ≠ some .nan ∧ c = q := by
  unfold decodeF64 at h
  split at h
  case h_3 => cases h
  all_goals exact ⟨by simp, (Except.ok.inj h).symm⟩

theorem decodeF64_of_number {q : Option (Extended Rat)} (hnan : q ≠ some .nan)
    (hinf : ∀ neg, q ≠ some (.infinity neg)) : decodeF64 q = .ok q := by
  cases q with
  | none => rfl
  | some q =>
    cases q with
    | finite q => rfl
    | nan => exact absurd rfl hnan
    | infinity neg => exact absurd rfl (hinf neg)

theorem asU32_eq_zero_iff {i : Int} (h : 0 ≤ i) (hlt : i < 2 ^ 31) :
    Sidecar.asU32 i = 0 ↔ i = 0 := by
  unfold Sidecar.asU32
  rw [Int.emod_eq_of_lt h (by omega), ← UInt32.toNat_inj, UInt32.toNat_ofNat']
  simp only [UInt32.toNat_zero]
  omega

theorem asU64_eq_zero_iff {i : Int} (h : 0 ≤ i) (hlt : i < 2 ^ 63) :
    Sidecar.asU64 i = 0 ↔ i = 0 := by
  unfold Sidecar.asU64
  rw [Int.emod_eq_of_lt h (by omega), ← UInt64.toNat_inj, UInt64.toNat_ofNat']
  simp only [UInt64.toNat_zero]
  omega

/-- A limit that is filled from a positive setting when it is zero stays as it is when it is not. -/
theorem timeoutMs_filled_iff {env : PgEnv} (hgucs : env.gucs.Registered) (agent : AgentRow) :
    (applyGucFallbacks env agent).timeoutMs = agent.timeoutMs ↔ agent.timeoutMs ≠ 0 := by
  obtain ⟨hlow, hhigh⟩ := hgucs.defaultTimeoutMs
  unfold applyGucFallbacks
  by_cases hzero : agent.timeoutMs = 0
  · have hfilled : UInt64.ofNat env.gucs.defaultTimeoutMs.toNat ≠ 0 := by
      rw [Ne, ← UInt64.toNat_inj, UInt64.toNat_ofNat']
      simp only [UInt64.toNat_zero]
      omega
    simp only [hzero, if_true, if_pos (show 0 < env.gucs.defaultTimeoutMs by omega)]
    simp [hfilled]
  · simp [hzero]

theorem maxIterations_filled_iff {env : PgEnv} (hgucs : env.gucs.Registered) (agent : AgentRow) :
    (applyGucFallbacks env agent).maxIterations = agent.maxIterations ↔
      agent.maxIterations ≠ 0 := by
  obtain ⟨hlow, hhigh⟩ := hgucs.defaultMaxIterations
  unfold applyGucFallbacks
  by_cases hzero : agent.maxIterations = 0
  · have hfilled : UInt32.ofNat env.gucs.defaultMaxIterations.toNat ≠ 0 := by
      rw [Ne, ← UInt32.toNat_inj, UInt32.toNat_ofNat']
      simp only [UInt32.toNat_zero]
      omega
    have hpos : 0 < env.gucs.defaultMaxIterations := by omega
    simp [hzero, hpos, hfilled]
  · simp [hzero]

/-! ### Arrays -/

namespace TextArray

variable {a : TextArray}

theorem texts_eq_ok {null : String} {tools : List String} :
    a.texts null = .ok tools ↔ a.elements = tools.map some := by
  unfold texts
  induction a.elements generalizing tools with
  | nil => cases tools <;> simp [pure, Except.pure]
  | cons s rest ih =>
    rw [List.mapM_cons, bind_eq_ok]
    simp only [bind_eq_ok, ih]
    constructor
    · rintro ⟨t, ht, ts, rfl, h⟩
      obtain rfl := Except.ok.inj h
      cases s with
      | none => cases ht
      | some s => rw [Except.ok.inj ht, List.map_cons]
    · intro h
      obtain ⟨t, ts, rfl, rfl, rfl⟩ := List.map_eq_cons_iff.mp h.symm
      exact ⟨t, rfl, ts, rfl, rfl⟩

theorem decodeTexts_eq_ok {tools : List String} :
    decodeTexts a = .ok tools ↔ a.lowerBounds.length ≤ 1 ∧ a.elements = tools.map some := by
  unfold decodeTexts
  by_cases hdims : 1 < a.lowerBounds.length
  · simp [hdims]
  · rw [if_neg hdims, texts_eq_ok, and_iff_right (by omega)]

theorem tryGetTexts_eq_ok {column : String} {tools : List String} :
    Sidecar.tryGetTexts column a = .ok tools ↔
      (a.lowerBounds = [] ∨ a.lowerBounds = [1]) ∧ a.elements = tools.map some := by
  unfold Sidecar.tryGetTexts
  rw [mapError_eq_ok]
  split
  case h_1 hempty =>
    rw [a.empty_iff.mp hempty, and_iff_right (.inl hempty)]
    cases tools <;> simp
  case h_2 lower hbounds =>
    by_cases hone : lower = 1
    · rw [if_pos hone, texts_eq_ok, and_iff_right (.inr (by rw [hbounds, hone]))]
    · simp [hbounds, hone]
  case h_3 hnil hsingle =>
    have hdims : ¬(a.lowerBounds = [] ∨ a.lowerBounds = [1]) := by
      rintro (h | h)
      · exact hnil h
      · exact hsingle 1 h
    simp [hdims]

/-- An array the sidecar decodes is one that the extension decodes alike. -/
theorem decodeTexts_of_tryGetTexts {column : String} {tools : List String}
    (h : Sidecar.tryGetTexts column a = .ok tools) : decodeTexts a = .ok tools := by
  obtain ⟨hbounds, helements⟩ := tryGetTexts_eq_ok.mp h
  refine decodeTexts_eq_ok.mpr ⟨?_, helements⟩
  rcases hbounds with hbounds | hbounds <;> simp [hbounds]

theorem plain_iff (column : String) :
    a.Plain ↔ ∃ tools, Sidecar.tryGetTexts column a = .ok tools := by
  simp only [tryGetTexts_eq_ok, exists_and_left]
  constructor
  · intro h
    have hrange : a.elements ∈ Set.range (List.map (some : String → Option String)) := by
      rw [Set.range_list_map]
      intro s hs
      cases s with
      | none => exact absurd hs h.elements
      | some s => exact ⟨s, rfl⟩
    obtain ⟨tools, htools⟩ := hrange
    exact ⟨h.bounds, tools, htools.symm⟩
  · rintro ⟨hbounds, tools, helements⟩
    exact ⟨hbounds, by simp [helements]⟩

/-- What a `Vec<String>` was bound to. -/
theorem plain_ofList (tools : List String) : (ofList tools).Plain := by
  cases tools with
  | nil => exact ⟨.inl rfl, List.not_mem_nil⟩
  | cons t rest => exact ⟨.inr rfl, by simp [ofList]⟩

end TextArray

/-! ### One agent -/

/-- A row of the extension that decodes: its numbers are not negative, its cap is not NaN, and it is the
sidecar's row with the profiles of the definer function. -/
theorem configAgent_eq_ok {gucs : Gucs} {cfg : Config} {a : AgentRecord} {row : AgentRow}
    (h : configAgent gucs cfg a = .ok row) :
    0 ≤ a.maxIterations ∧ 0 ≤ a.timeoutMs ∧ a.costCapUsd ≠ some .nan ∧
      ∃ tools, decodeTexts a.tools = .ok tools ∧
        row = { Sidecar.agentRow tools a with
          llmProfileMain := agentLlmProfile gucs cfg a.name
          llmProfileSmall := a.llmProfileSmall.or (gucString gucs.defaultLlmProfileSmall)
          traceLevel := a.traceLevel } := by
  unfold configAgent at h
  obtain ⟨costCapUsd, hcap, h⟩ := bind_eq_ok.mp h
  obtain ⟨maxIterations, hmax, h⟩ := bind_eq_ok.mp h
  obtain ⟨timeoutMs, htimeout, h⟩ := bind_eq_ok.mp h
  obtain ⟨tools, htools, h⟩ := bind_eq_ok.mp h
  obtain ⟨hcap₀, rfl⟩ := decodeF64_ok hcap
  obtain ⟨hmax₀, rfl⟩ := decodeU32_ok hmax
  obtain ⟨htimeout₀, rfl⟩ := decodeU64_ok htimeout
  exact ⟨hmax₀, htimeout₀, hcap₀, tools, htools, (Except.ok.inj h).symm⟩

theorem configAgent_of_nonneg (gucs : Gucs) (cfg : Config) {a : AgentRecord} (ha : a.InColumns)
    (hmax : 0 ≤ a.maxIterations) (htimeout : 0 ≤ a.timeoutMs) (hcap : a.costCapUsd ≠ some .nan)
    {tools : List String} (htools : decodeTexts a.tools = .ok tools) :
    ∃ row, configAgent gucs cfg a = .ok row := by
  unfold configAgent
  rw [decodeU32_of_nonneg hmax ha.maxIterations.2, decodeU64_of_nonneg htimeout ha.timeoutMs.2,
    decodeF64_of_number hcap ha.costCapUsd, htools]
  exact ⟨_, rfl⟩

/-- **One row**: the extension loads it as the sidecar does exactly when it is settled. -/
theorem agent_loaded_same_iff {env : PgEnv} {cfg : Config} (hgucs : env.gucs.Registered)
    {a : AgentRecord} (ha : a.InColumns) (hrow : a ∈ cfg.agents.rows) :
    (∃ row sqlx, configAgent env.gucs cfg a = .ok row ∧ Sidecar.decodeAgent a = .ok sqlx ∧
      SameAgent (configLessons cfg sqlx.name)
        (loadHarnessExtras env cfg (applyGucFallbacks env row)) sqlx) ↔
      a.Settled env := by
  have hmain : agentLlmProfile env.gucs cfg a.name = a.llmProfile env.gucs := by
    rw [agentLlmProfile, Table.get_of_mem hrow, Option.bind_some]
  constructor
  · rintro ⟨row, sqlx, hdecoded, hsqlx, hsame⟩
    obtain ⟨tools, htools, rfl⟩ := map_eq_ok.mp hsqlx
    obtain ⟨hmax, htimeout, hcap, tools', -, rfl⟩ := configAgent_eq_ok hdecoded
    -- a limit of zero is filled from a positive setting, so a limit both hosts agree on is not zero
    have hiterations := (maxIterations_filled_iff hgucs _).mp hsame.maxIterations
    have hlimit := (timeoutMs_filled_iff hgucs _).mp hsame.timeoutMs
    rw [Ne, Sidecar.agentRow, asU32_eq_zero_iff hmax ha.maxIterations.2] at hiterations
    rw [Ne, Sidecar.agentRow, asU64_eq_zero_iff htimeout ha.timeoutMs.2] at hlimit
    refine ⟨by omega, by omega, ?_, ?_, ?_, ?_, hcap, ?_, ?_,
      (TextArray.plain_iff "tools").mpr ⟨tools, htools⟩⟩
    · rw [← llmProfile_filled_iff, ← hmain]
      exact hsame.llmProfileMain
    · rw [← or_eq_self_iff]
      have hsmall : (a.llmProfileSmall.or (gucString env.gucs.defaultLlmProfileSmall)).or
          (gucString env.gucs.defaultLlmProfileSmall) = a.llmProfileSmall := hsame.llmProfileSmall
      -- SQL fills the small profile, and `apply_guc_fallbacks` once more from the same setting
      rwa [Option.or_assoc, Option.or_self] at hsmall
    · exact or_eq_self_iff.mp hsame.llmProfileJudge
    · exact or_eq_self_iff.mp hsame.embeddingProfile
    · exact or_eq_self_iff.mp hsame.costCapUsd
    · exact (executorName_filled_iff env a).mp hsame.executorName
  · intro h
    obtain ⟨tools, hplain⟩ := (TextArray.plain_iff "tools").mp h.tools
    have htools := TextArray.decodeTexts_of_tryGetTexts hplain
    obtain ⟨row, hdecoded⟩ := configAgent_of_nonneg env.gucs cfg ha h.maxIterations.le
      h.timeoutMs.le h.number htools
    refine ⟨row, _, hdecoded, map_eq_ok.mpr ⟨tools, hplain, rfl⟩, ?_⟩
    obtain ⟨hmax, htimeout, -, tools', htools', rfl⟩ := configAgent_eq_ok hdecoded
    obtain rfl := Except.ok.inj (htools.symm.trans htools')
    constructor
    case llmProfileMain =>
      have hfilled := (llmProfile_filled_iff env a).mpr h.main
      rwa [← hmain] at hfilled
    case llmProfileSmall =>
      show (a.llmProfileSmall.or _).or _ = a.llmProfileSmall
      rw [Option.or_assoc, Option.or_self]
      exact or_eq_self_iff.mpr h.small
    case llmProfileJudge => exact or_eq_self_iff.mpr h.judge
    case embeddingProfile => exact or_eq_self_iff.mpr h.embedding
    case costCapUsd => exact or_eq_self_iff.mpr h.costCap
    case executorName => exact (executorName_filled_iff env a).mpr h.executor
    case maxIterations =>
      refine (maxIterations_filled_iff hgucs _).mpr ?_
      rw [Ne, Sidecar.agentRow, asU32_eq_zero_iff hmax ha.maxIterations.2]
      exact h.maxIterations.ne'
    case timeoutMs =>
      refine (timeoutMs_filled_iff hgucs _).mpr ?_
      rw [Ne, Sidecar.agentRow, asU64_eq_zero_iff htimeout ha.timeoutMs.2]
      exact h.timeoutMs.ne'
    all_goals rfl

/-! ### The tables -/

/-- **The same agents in both hosts**: they load them alike exactly when every row is settled. -/
theorem agents_loaded_same_iff (env : PgEnv) (cfg : Config) (hgucs : env.gucs.Registered)
    (hcolumns : ∀ a ∈ cfg.agents.rows, a.InColumns) :
    LoadSameAgents env cfg ↔ ∀ a ∈ cfg.agents.rows, a.Settled env := by
  have hrows : (∀ a ∈ cfg.agents.rows, a.Settled env) ↔
      ∀ a ∈ cfg.agents.rows, ∃ row sqlx, configAgent env.gucs cfg a = .ok row ∧
        Sidecar.decodeAgent a = .ok sqlx ∧ SameAgent (configLessons cfg sqlx.name)
          (loadHarnessExtras env cfg (applyGucFallbacks env row)) sqlx :=
    forall₂_congr fun a ha => (agent_loaded_same_iff hgucs (hcolumns a ha) ha).symm
  rw [hrows, ← mapM_forall₂_iff]
  unfold LoadSameAgents
  constructor
  · rintro ⟨spi, sqlx, hspi, hsqlx, hsame⟩
    obtain ⟨rows, hdecoded, rfl⟩ := map_eq_ok.mp hspi
    rw [List.forall₂_map_left_iff] at hsame
    exact ⟨rows, sqlx, mapError_eq_ok.mp hdecoded, hsqlx, hsame⟩
  · rintro ⟨rows, sqlx, hdecoded, hsqlx, hsame⟩
    refine ⟨_, sqlx, map_eq_ok.mpr ⟨rows, mapError_eq_ok.mpr hdecoded, rfl⟩, hsqlx, ?_⟩
    rw [List.forall₂_map_left_iff]
    exact hsame

/-! ### Two installations -/

namespace BothHosts

/-- An agent with nothing left open. -/
def clerk : AgentRecord where
  name := "clerk"
  systemPrompt := "Keep the books."
  soul := none
  executorName := "conversation"
  llmProfileMain := some "main"
  llmProfileSmall := none
  llmProfileJudge := none
  embeddingProfile := none
  tools := .ofList ["sql_query"]
  maxIterations := 10
  timeoutMs := 60000
  costCapUsd := none
  traceLevel := none
  modelTier := .large
  guardrails := none
  memory := none
  critique := none

def config (a : AgentRecord) : Config :=
  { Config.empty with agents := Table.empty.insert a (by simp [Table.keys, Table.empty]) }

/-- Only the default of the large tier is set; the numeric settings have their boot values. -/
def env : PgEnv where
  gucs := ⟨some "big", none, none, none, 60000, 60, 10, none, none, none⟩
  crypto := ⟨fun value _ _ => value, fun text _ => .ok text⟩
  collate a b := a ≤ b
  parseF64 _ := none

theorem env_registered : env.gucs.Registered := by
  constructor <;> decide

/-- An agent that names its profile is the same in both hosts. -/
theorem pinned_loads_same : LoadSameAgents env (config clerk) := by
  refine (agents_loaded_same_iff env (config clerk) env_registered ?_).mpr ?_
  · intro a ha
    obtain rfl := List.mem_singleton.mp ha
    constructor <;> decide
  · intro a ha
    obtain rfl := List.mem_singleton.mp ha
    constructor
    case tools => exact TextArray.plain_ofList ["sql_query"]
    all_goals decide

/-- An agent that leaves its profile to the default has none in the sidecar. -/
theorem default_profile_lost :
    ¬LoadSameAgents env (config { clerk with llmProfileMain := none }) := by
  rintro ⟨spi, sqlx, hspi, hsqlx, hsame⟩
  obtain rfl := Except.ok.inj hsqlx
  have hbig : (spiProfileSource env (config { clerk with llmProfileMain := none })).agents.map
      (List.map AgentRow.llmProfileMain) = .ok [some "big"] := by
    rfl
  rw [hspi] at hbig
  obtain ⟨row, rfl, hmain⟩ : ∃ row, spi = [row] ∧ row.llmProfileMain = some "big" :=
    List.map_eq_singleton_iff.mp (Except.ok.inj hbig)
  have hopen := (List.forall₂_cons.mp hsame).1.llmProfileMain
  rw [hmain] at hopen
  cases hopen

end BothHosts

end PgSynapse
