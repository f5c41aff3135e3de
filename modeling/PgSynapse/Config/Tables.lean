import PgSynapse.Lib.Table
import PgSynapse.Types.Profile
import Mathlib.Algebra.Group.Int.Defs

/-!
# The configuration tables

The tables of the schema `synapse` that both hosts read their configuration from (`sql/schema.sql`),
with the columns the code reads.  Time columns are left out.  The rows of `tool_hints` and `lessons`
stand in the order of their serial keys.
-/

namespace PgSynapse

/-- The values of `agents.model_tier`. -/
inductive ModelTier where
  | small
  | large
  deriving DecidableEq, Repr

/-- A value of type `TEXT[]`: the subscript each of its dimensions starts at, none for the empty array,
and its elements, any of which may be NULL. -/
structure TextArray where
  lowerBounds : List Int
  elements : List (Option String)
  empty_iff : lowerBounds = [] ↔ elements = []
  deriving DecidableEq, Repr

namespace TextArray

/-- A `Vec<String>` as a parameter. -/
def ofList : List String → TextArray
  | [] => ⟨[], [], by simp⟩
  | s :: rest => ⟨[1], some s :: rest.map some, by simp⟩

/-- The elements, or the error for one that is NULL. -/
def texts (a : TextArray) (null : String) : Except String (List String) :=
  a.elements.mapM fun s => s.elim (.error null) .ok

end TextArray

/-- A row of `synapse.agents`. -/
structure AgentRecord where
  name : String
  systemPrompt : String
  soul : Option String
  executorName : String
  llmProfileMain : Option String
  llmProfileSmall : Option String
  llmProfileJudge : Option String
  embeddingProfile : Option String
  tools : TextArray
  maxIterations : Int
  timeoutMs : Int
  costCapUsd : Option (Extended Rat)
  traceLevel : Option String
  modelTier : ModelTier
  guardrails : Option String
  memory : Option String
  critique : Option String
  deriving DecidableEq, Repr

/-- A row of `synapse.embedding_profiles`. -/
structure EmbeddingRecord where
  name : String
  provider : String
  model : String
  dimension : Int
  apiKeySecret : Option String
  baseUrl : Option String
  params : Value
  deriving DecidableEq, Repr

/-- A row of `synapse.secrets`. -/
structure SecretRecord where
  name : String
  value : String
  isEncrypted : Bool
  deriving DecidableEq, Repr

/-- A row of `synapse.skills`. -/
structure SkillRecord where
  agent : String
  skill : Skill
  deriving DecidableEq, Repr

/-- The primary key of `synapse.skills`. -/
def SkillRecord.key (s : SkillRecord) : String × String := (s.agent, s.skill.name)

/-- A row of `synapse.tool_hints`. -/
structure HintRecord where
  agent : Option String
  hint : ToolHint
  enabled : Bool
  deriving DecidableEq, Repr

/-- A row of `synapse.lessons`. -/
structure LessonRecord where
  agent : String
  cue : String
  lesson : String
  evidence : String
  active : Bool
  deriving DecidableEq, Repr

/-- A row of `synapse.tools`. -/
structure ToolRecord where
  name : String
  description : Option String
  schemaJson : Value
  kind : String
  config : Value
  deriving DecidableEq, Repr

/-- The configuration of a database. -/
structure Config where
  agents : Table AgentRecord.name
  llmProfiles : Table LlmProfileRow.name
  embeddingProfiles : Table EmbeddingRecord.name
  secrets : Table SecretRecord.name
  skills : Table SkillRecord.key
  toolHints : List HintRecord
  lessons : List LessonRecord
  tools : Table ToolRecord.name

/-- A fresh installation. -/
def Config.empty : Config := ⟨.empty, .empty, .empty, .empty, .empty, [], [], .empty⟩

/-! ### Decoding integers -/

/-- `serde`'s error for an integer that is out of range. -/
def outOfRange (i : Int) (type : String) : String :=
  "invalid value: integer `" ++ toString i ++ "`, expected " ++ type

/-- A JSON integer as a `u32`. -/
def decodeU32 (i : Int) : Except String UInt32 :=
  if 0 ≤ i ∧ i < 2 ^ 32 then .ok (UInt32.ofNat i.toNat) else .error (outOfRange i "u32")

/-- A JSON integer as a `u64`. -/
def decodeU64 (i : Int) : Except String UInt64 :=
  if 0 ≤ i ∧ i < 2 ^ 64 then .ok (UInt64.ofNat i.toNat) else .error (outOfRange i "u64")

/-- A NUMERIC, which `to_jsonb` writes as a string where it is no number, as an `Option<f64>`. -/
def decodeF64 : Option (Extended Rat) → Except String (Option (Extended Rat))
  | none => .ok none
  | some (.finite q) => .ok (some (.finite q))
  | some q => .error ("invalid type: string \"" ++ q.specialText ++ "\", expected f64")

/-- A `TEXT[]`, of which `to_jsonb` makes nested arrays where it has several dimensions, as a
`Vec<String>`. -/
def decodeTexts (a : TextArray) : Except String (List String) :=
  if 1 < a.lowerBounds.length then .error "invalid type: sequence, expected a string"
  else a.texts "invalid type: null, expected a string"

end PgSynapse
