import Mathlib.Data.List.Sort
import PgSynapse.Executor.LoopHarness
import PgSynapse.Llm.RecoveryLayer

/-!
# `DefaultCompressor`: the newest rows that fit a budget

A translation of the compaction plugin.  Token costs are `u32`; the sum of the kept costs wraps, as
it does in the release profile.
-/

namespace PgSynapse

namespace DefaultCompressor

/-- Max characters of a single collapsed message rendered into the digest. -/
def digestSnippetChars : Nat := 200

/-- `estimate_tokens`: about four characters a token, rounded up, at least 1. -/
def estimateTokens (s : String) : UInt32 := UInt32.ofNat (max ((s.length + 3) / 4) 1)

/-- `message_text`: the text a model would see of a message. -/
def messageText (m : Message) : String :=
  let content := match m.content with
    | some c => if c.isEmpty then [] else [c]
    | none => []
  let name := m.toolName.toList.map ("tool=" ++ ·)
  let input := m.toolInput.toList.map ("input=" ++ ·.toText)
  let output := m.toolOutput.toList.map ("output=" ++ ·.toText)
  " ".intercalate (content ++ name ++ input ++ output)

/-- `role_str`. -/
def roleStr : Role → String
  | .system => "system"
  | .user => "user"
  | .assistant => "assistant"
  | .tool => "tool"

/-- `truncate_chars`. -/
def truncateChars (s : String) (max : Nat) : String :=
  if s.length ≤ max then s else (s.take max).toString ++ "..."

/-- `system_idx`: a system row in front is kept verbatim. -/
def systemIdx (messages : List Message) : Option Nat :=
  match messages.head? with
  | some m => if m.role = .system then some 0 else none
  | none => none

/-- `per_msg`. -/
def perMsg (messages : List Message) : List UInt32 :=
  messages.map fun m => estimateTokens (messageText m)

/-- `system_cost`. -/
def systemCost (messages : List Message) : UInt32 :=
  match systemIdx messages with
  | some i => (perMsg messages).getD i 0
  | none => 0

/-- The walk from the newest row to the oldest, with `i` rows to go: a row is kept unless it takes
the running total over the target, and the newest one in any case. -/
def keepFrom (costs : List UInt32) (systemIdx : Option Nat) (target : UInt32) :
    Nat → UInt32 → List Nat → List Nat
  | 0, _, kept => kept
  | i + 1, running, kept =>
    if some i = systemIdx then keepFrom costs systemIdx target i running kept
    else
      let running' := saturatingAdd running (costs.getD i 0)
      if running' > target ∧ kept ≠ [] then kept
      else if running' ≥ target then kept ++ [i]
      else keepFrom costs systemIdx target i running' (kept ++ [i])

/-- `kept_recent`, sorted. -/
def keptRecent (messages : List Message) (target : UInt32) : List Nat :=
  (keepFrom (perMsg messages) (systemIdx messages) target messages.length (systemCost messages)
    []).insertionSort (· ≤ ·)

/-- `collapsed_indices`: every row that is not kept, cast to `u32`. -/
def collapsedIndices (messages : List Message) (target : UInt32) : List UInt32 :=
  let kept := keptRecent messages target ++ (systemIdx messages).toList
  ((List.range messages.length).filter (· ∉ kept)).map UInt32.ofNat

/-- The digest.  A collapsed index is in bounds, as it is at most the position it was cast from. -/
def digest (messages : List Message) (collapsed : List UInt32) : String :=
  let head := "[compacted " ++ toString collapsed.length ++ " earlier message(s)]"
  let lines := (collapsed.filterMap (messages[·.toNat]?)).map fun m =>
    "- " ++ roleStr m.role ++ ": " ++ truncateChars (messageText m) digestSnippetChars
  "\n".intercalate (head :: lines)

/-- `retained_tokens`: the system row, the kept rows and the digest. -/
def retainedTokens (messages : List Message) (target : UInt32) (summary : String) : UInt32 :=
  let kept := ((keptRecent messages target).map ((perMsg messages).getD · 0)).foldl (· + ·) 0
  saturatingAdd (saturatingAdd (systemCost messages) kept) (estimateTokens summary)

/-- `DefaultCompressor::compress`. -/
def compress (messages : List Message) (budget : CompressionBudget) :
    Except CompressionError Compressed :=
  if messages.isEmpty then .ok .default
  else
    let collapsed := collapsedIndices messages budget.targetTokens
    if collapsed.isEmpty then .ok .default
    else
      let summary := digest messages collapsed
      let retained := retainedTokens messages budget.targetTokens summary
      if retained > budget.hardLimitTokens then
        .error (.budgetTooSmall retained budget.hardLimitTokens)
      else .ok ⟨summary, collapsed⟩

/-- The compressor the plugin registers: it waits for nothing. -/
def compressor (σ : Type) : Compressor σ where
  compress messages budget _ env := (.ready (compress messages budget), env)

end DefaultCompressor

end PgSynapse
