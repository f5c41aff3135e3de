import PgSynapse.Llm.RetryLayer

/-!
# `RecoveryProvider`: an overflowing history is compacted

A translation of `llm/recovery_layer.rs`, with the `Compressor` trait and its types
(`compression/mod.rs`, `types/compression.rs`).
-/

namespace PgSynapse

/-- `Compressed`. -/
structure Compressed where
  summary : String
  collapsedIndices : List UInt32
  deriving DecidableEq, Repr

/-- `Compressed::default()`. -/
def Compressed.default : Compressed := ⟨"", []⟩

/-- `CompressionBudget`. -/
structure CompressionBudget where
  targetTokens : UInt32
  hardLimitTokens : UInt32
  deriving DecidableEq, Repr

/-- `CompressionError`. -/
inductive CompressionError where
  | budgetTooSmall (needed available : UInt32)
  | backend (reason : String)
  deriving DecidableEq, Repr

/-- `dyn Compressor`. -/
structure Compressor (σ : Type) where
  compress : List Message → CompressionBudget → Option Nat → σ →
    Answer (Except CompressionError Compressed) × σ

/-- `summary_message`: a system row with the digest, under the execution and at the time of the row
it stands for. -/
def summaryMessage (template : Message) (summary : String) : Message where
  executionId := template.executionId
  seq := 0
  role := .system
  content := some summary
  toolCallId := none
  toolName := none
  toolInput := none
  toolOutput := none
  timestamp := template.timestamp

/-- The loop of `rebuild_messages` from the index `i` on.  `none` is the panic of an index out of
bounds. -/
def rebuildFrom (messages : List Message) (summary : String) (collapsed : List UInt32) :
    Nat → Bool → List Message → Option (List Message)
  | _, _, [] => some []
  | i, inserted, m :: rest =>
    if UInt32.ofNat i ∈ collapsed then
      if inserted then rebuildFrom messages summary collapsed (i + 1) true rest
      else
        match collapsed.min?.bind fun first => messages[first.toNat]? with
        | none => none
        | some template =>
          (rebuildFrom messages summary collapsed (i + 1) true rest).map
            (summaryMessage template summary :: ·)
    else (rebuildFrom messages summary collapsed (i + 1) inserted rest).map (m :: ·)

/-- `rebuild_messages`: the collapsed rows go, and one summary stands where the first of them
stood. -/
def rebuildMessages (messages : List Message) (summary : String) (collapsed : List UInt32) :
    Option (List Message) :=
  rebuildFrom messages summary collapsed 0 false messages

/-- `RecoveryConfig`; the ratio is an exact rational. -/
structure RecoveryConfig where
  maxAttempts : UInt32
  targetRatio : Rat

/-- `f64 as u32`: towards zero, and saturating. -/
def truncToU32 (q : Rat) : UInt32 :=
  if q < 0 then 0 else UInt32.ofNat (min q.floor.toNat (2 ^ 32 - 1))

namespace RecoveryProvider

variable {σ : Type} [Timer σ]

/-- The loop of `complete`, with the compactions that are left. -/
def attempts (inner : DynProvider σ) (compressor : Compressor σ) (config : RecoveryConfig) :
    Nat → CompletionRequest → Option Nat → σ → Answer (Except LlmError CompletionResponse) × σ
  | left, req, wait, env =>
    match inner.complete req wait env with
    | (.ready (.error (.contextLengthExceeded model tokens limit)), env') =>
      let overflow : LlmError := .contextLengthExceeded model tokens limit
      match left with
      | 0 => (.ready (.error overflow), env')
      | left + 1 =>
        let budget : CompressionBudget :=
          ⟨truncToU32 ((limit.toNat : Rat) * config.targetRatio), limit⟩
        match compressor.compress req.messages budget (Timer.remaining wait env env') env' with
        | (.panicked p, env'') => (.panicked p, env'')
        | (.pending, env'') => (.pending, env'')
        | (.ready (.error _), env'') => (.ready (.error overflow), env'')
        | (.ready (.ok compressed), env'') =>
          -- nothing left to shrink
          if compressed.collapsedIndices.isEmpty then (.ready (.error overflow), env'')
          else
            match rebuildMessages req.messages compressed.summary compressed.collapsedIndices with
            | none => (.panicked (some "index out of bounds"), env'')
            | some messages =>
              attempts inner compressor config left { req with messages := messages }
                (Timer.remaining wait env env'') env''
    | answered => answered

/-- `RecoveryProvider::new`, as the provider it is.  Its `capabilities` are the trait's default. -/
def layer (compressor : Compressor σ) (config : RecoveryConfig) (inner : DynProvider σ) :
    DynProvider σ where
  modelName := inner.modelName
  complete req wait env :=
    attempts inner compressor config config.maxAttempts.toNat req wait env
  capabilities := .default

end RecoveryProvider

end PgSynapse
