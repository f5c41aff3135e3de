import PgSynapse.Pgrx.SqlFunctions
import PgSynapse.Pgrx.Equiv.Provenance
import PgSynapse.Runtime.Equiv.ExecuteInner
import Mathlib.Data.Nat.ModEq

/-!
# When provenance points at a known run

The tools write under the id the kernel minted for their run.  The audit row gets that id only when
the entry point's own run ended with an outcome; a failed run is logged under a fresh id or under
the placeholder's, and a delegated run or a direct tool call gets no row.
-/

namespace PgSynapse

/-! ### The kernel's results -/

/-- Every result of `execute_inner` is an end of its run: the messages of an outcome carry the id, as
`RunEnd.ok` asks.  `display` is the text of an error. -/
def kernelEnd {σ : Type} [Platform σ] (display : ExecutorError → String) (kind : ExecutorKind)
    (passes : Nat) (ctx : ExecutionContext σ) (timeoutMs : Nat) (maxTimeout : Option Nat)
    (env : σ) : Option (RunEnd ctx.executionId) :=
  match h : Runtime.executeInner kind passes ctx timeoutMs maxTimeout env with
  | some (.ok o) =>
    some (.ok o fun m hm => by
      have first := Runtime.executeInner_first kind passes ctx timeoutMs maxTimeout env o h
      rw [Option.mem_def.mp hm] at first
      exact Option.some.inj first)
  | some (.error e) => some (.error (display e))
  | none => none

/-! ### What a call writes -/

theorem author_published {id : Uuid} {stmt : SqlStatement} {e : Option Uuid × SqlEffect}
    (he : e ∈ stmt.published id) : e.1 = some id := by
  rcases List.mem_cons.mp he with rfl | he
  · rfl
  · obtain ⟨effect, -, rfl⟩ := List.mem_map.mp he
    rfl

mutual

theorem RunStep.standing_author (id : Uuid) :
    ∀ (step : RunStep) (e : Option Uuid × SqlEffect), e ∈ step.standing id →
      ∃ a ∈ id :: step.delegateIds, e.1 = some a
  | .execute stmt, e, he => by
    rw [RunStep.standing] at he
    split at he
    · exact ⟨id, List.mem_cons_self, author_published he⟩
    · exact absurd he List.not_mem_nil
  | .query stmt, e, he => by
    rw [RunStep.standing] at he
    split at he
    · exact ⟨id, List.mem_cons_self, author_published he⟩
    · exact absurd he List.not_mem_nil
  | .delegate child steps, e, he => by
    rw [RunStep.standing] at he
    obtain ⟨a, ha, hea⟩ := standingAll_author child steps e he
    exact ⟨a, List.mem_cons_of_mem id (by simpa [RunStep.delegateIds] using ha), hea⟩

/-- The SQL of a run is its own or that of a run it delegated to. -/
theorem standingAll_author (id : Uuid) :
    ∀ (steps : List RunStep) (e : Option Uuid × SqlEffect), e ∈ standingAll id steps →
      ∃ a ∈ id :: delegateIdsIn steps, e.1 = some a
  | [], e, he => absurd he (by simp [standingAll])
  | step :: rest, e, he => by
    rcases List.mem_append.mp (by simpa [standingAll] using he) with he | he
    · obtain ⟨a, ha, hea⟩ := RunStep.standing_author id step e he
      refine ⟨a, ?_, hea⟩
      rcases List.mem_cons.mp ha with rfl | ha
      · exact List.mem_cons_self
      · exact List.mem_cons_of_mem _ (by simp [delegateIdsIn, ha])
    · obtain ⟨a, ha, hea⟩ := standingAll_author id rest e he
      refine ⟨a, ?_, hea⟩
      rcases List.mem_cons.mp ha with rfl | ha
      · exact List.mem_cons_self
      · exact List.mem_cons_of_mem _ (by simp [delegateIdsIn, ha])

end

/-- What the effects add to the database does not depend on the setting they find. -/
def SelfContained (es : List (Option Uuid × SqlEffect)) : Prop :=
  ∀ setting, (trail setting es).filterMap Found.logged = (trail none es).filterMap Found.logged

theorem SelfContained.append {es es' : List (Option Uuid × SqlEffect)} (h : SelfContained es)
    (h' : SelfContained es') : SelfContained (es ++ es') := by
  intro setting
  rw [trail_append, trail_append, List.filterMap_append, List.filterMap_append, h setting,
    h' (settingAfter setting es), h' (settingAfter none es)]

mutual

theorem RunStep.standing_selfContained (id : Uuid) :
    ∀ step : RunStep, SelfContained (step.standing id)
  | .execute stmt => by
    rw [RunStep.standing]
    split <;> exact fun _ => rfl
  | .query stmt => by
    rw [RunStep.standing]
    split <;> exact fun _ => rfl
  | .delegate child steps => by
    rw [RunStep.standing]
    exact standingAll_selfContained child steps

/-- Every call publishes its run's id first. -/
theorem standingAll_selfContained (id : Uuid) :
    ∀ steps : List RunStep, SelfContained (standingAll id steps)
  | [] => fun _ => by rw [standingAll]; rfl
  | step :: rest => by
    rw [standingAll]
    exact (RunStep.standing_selfContained id step).append (standingAll_selfContained id rest)

end

namespace Invocation

variable {inv : Invocation} {h : Host}

end Invocation

/-! ### What a call records -/

section Writers

variable {rows : List ExecutionRow} {row new : ExecutionRow} {call : CallInfo}

end Writers

namespace Invocation

variable {inv : Invocation} {h : Host} {row : ExecutionRow} {disabled : Bool}

end Invocation

/-! ### Sequences of calls -/

variable {h : Host} {row : ExecutionRow} {disabled : Bool}

end PgSynapse
