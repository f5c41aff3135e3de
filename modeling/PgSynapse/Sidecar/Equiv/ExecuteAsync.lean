import PgSynapse.Pgrx.Equiv.Execute
import PgSynapse.Pgrx.Equiv.Queue
import PgSynapse.Sidecar.ExecuteAsync

/-!
# The status rows of asynchronous runs

* `Rows`: the row of every request is the one it planted, until the end of its run is written into
  it, and then it holds that end.  This needs no condition (`runActs_rows`).
* `Progress`: a request whose end is written stays as it is (`runActs_progress`), so its row does too.
* `ReportsTruth`: the rows say what the kernel returned, as the host inside Postgres would.  Here the
  runs have to come to a `Completed` outcome or to an error, and Postgres has to take the UPDATE.
* `CanSettle`: a row that is queued is of a run that can still go on, to a row that tells its end; and
  the row of a run that has made its UPDATE is not queued (`runActs_updated`).
-/

namespace PgSynapse

/-! ### The host inside Postgres -/

/-- The envelope `synapse.execute` hands to the queue for what the kernel returned. -/
def hostEnvelope (money : Money) : Except RuntimeError ExecutorOutcome → Value
  | .ok o => outcomeEnvelope money o
  | .error e => errorEnvelope (e.text money.text)

theorem statusLabel_eq_completed_iff {status : OutcomeStatus} :
    statusLabel status = "completed" ↔ status = .completed := by
  cases status <;> simp [statusLabel]

/-- The queue calls a job done when its run ended with a `Completed` outcome. -/
theorem queueStatusFor_hostEnvelope (money : Money) (result : Except RuntimeError ExecutorOutcome) :
    (queueStatusFor (hostEnvelope money result)).1 = .done ↔
      ∃ o, result = .ok o ∧ o.status = .completed := by
  rw [queueStatusFor_done_iff, Completed]
  cases result with
  | error e =>
    rw [hostEnvelope, errorEnvelope_status]
    simp
  | ok o =>
    rw [hostEnvelope, outcomeEnvelope_status]
    simp [statusLabel_eq_completed_iff]

/-! ### One step -/

/-- The end of the run is not in the row. -/
def AsyncPhase.Unrecorded : AsyncPhase → Prop
  | .recorded _ => False
  | _ => True

namespace AsyncApi

variable {money : Money} {s s' : AsyncApi} {a : AsyncAct}

/-- What a step can do: nothing; plant a row; move a request on, with the table unchanged; write the
end of a run into its row. -/
theorem step_cases (h : s.step money a = some s') :
    s' = s ∨
    (∃ id call, ∃ hid : id ∉ s.executions.keys, s' = { (s.goto id call .inserted) with
      executions := s.executions.insert (queuedRow id call) hid }) ∨
    (∃ id call phase phase', s.tasks id = some ⟨call, phase⟩ ∧ phase.Unrecorded ∧
      phase'.Unrecorded ∧ s' = s.goto id call phase' ∧ (phase' = .died → a = .kernel id none) ∧
      ∀ result, phase' = .lost result → phase = .ended result ∧
        ∃ reached, a = .update id reached ∧
          ¬(reached = true ∧ (RunRecord.of money result).Storable money)) ∨
    (∃ id call result, a = .update id true ∧ s.tasks id = some ⟨call, .ended result⟩ ∧
      (RunRecord.of money result).Storable money ∧
      s' = { (s.goto id call (.recorded result)) with
        executions := s.executions.update id (RunRecord.of money result).write fun _ => rfl }) := by
  cases a with
  | insert id call =>
    obtain rfl : s.insert id call = s' := Option.some.inj h
    unfold insert
    split
    · exact .inl rfl
    · next hid =>
      split
      · exact .inr (.inl ⟨id, call, hid, rfl⟩)
      · exact .inl rfl
  | respond id =>
    simp only [step] at h
    split at h
    · next call htask =>
      refine .inr (.inr (.inl ⟨id, call, _, .running, htask, trivial, trivial, ?_, by simp, by simp⟩))
      exact (Option.some.inj h).symm
    · cases h
  | kernel id result =>
    simp only [step] at h
    split at h
    · next call htask =>
      obtain rfl := Option.some.inj h
      refine .inr (.inr (.inl ⟨id, call, _, _, htask, trivial, ?_, rfl, ?_, ?_⟩)) <;>
        cases result <;> simp [AsyncPhase.Unrecorded]
    · cases h
  | update id reached =>
    simp only [step] at h
    split at h
    · next call result htask =>
      obtain rfl := Option.some.inj h
      unfold update
      -- an UPDATE that is not taken is never made again
      by_cases hok : reached = true ∧ (RunRecord.of money result).Storable money
      · obtain ⟨rfl, hstorable⟩ := hok
        refine .inr (.inr (.inr ⟨id, call, result, rfl, htask, hstorable, ?_⟩))
        rw [if_pos ⟨rfl, hstorable⟩]
      · refine .inr (.inr (.inl ⟨id, call, _, .lost result, htask, trivial, trivial, ?_, by simp, ?_⟩))
        · rw [if_neg hok]
        · intro r hr
          obtain rfl : result = r := AsyncPhase.lost.inj hr
          exact ⟨rfl, reached, rfl, hok⟩
    · cases h
  | poll id => exact .inl (Option.some.inj h).symm

theorem goto_tasks_self (s : AsyncApi) (id : Uuid) (call : CallInfo) (phase : AsyncPhase) :
    (s.goto id call phase).tasks id = some ⟨call, phase⟩ := Function.update_self ..

theorem goto_tasks_of_ne (s : AsyncApi) {id id' : Uuid} (call : CallInfo) (phase : AsyncPhase)
    (hne : id' ≠ id) : (s.goto id call phase).tasks id' = s.tasks id' :=
  Function.update_of_ne hne ..

@[simp] theorem goto_executions (s : AsyncApi) (id : Uuid) (call : CallInfo) (phase : AsyncPhase) :
    (s.goto id call phase).executions = s.executions := rfl

/-! ### The row of a request -/

/-- The row of a request: the one it planted, with the end of its run once that is written. -/
def rowOf (money : Money) (id : Uuid) (task : AsyncTask) : AuditRow :=
  match task.phase with
  | .recorded result => (RunRecord.of money result).write (queuedRow id task.call)
  | _ => queuedRow id task.call

theorem rowOf_unrecorded (id : Uuid) {task : AsyncTask} (h : task.phase.Unrecorded) :
    rowOf money id task = queuedRow id task.call := by
  unfold rowOf
  split
  · next result hphase =>
    rw [hphase] at h
    exact h.elim
  · rfl

/-- No run ends in the status of a run that has not ended. -/
theorem status_of_ne_queued (result : Except RuntimeError ExecutorOutcome) :
    (RunRecord.of money result).status ≠ "queued" := by
  cases result <;> simp [RunRecord.of]

/-- The row of every request is its own. -/
def Rows (money : Money) (s : AsyncApi) : Prop :=
  ∀ id task, s.tasks id = some task → s.executions.get id = some (rowOf money id task)

theorem rows_init (executions : Executions) : Rows money (init executions) := by
  intro id task h
  cases h

theorem step_rows (hs : Rows money s) (h : s.step money a = some s') : Rows money s' := by
  intro id task htask
  rcases step_cases h with rfl | ⟨id₀, call, hid, rfl⟩ | ⟨id₀, call, phase, phase', h₀, hold, hnew,
    rfl, -, -⟩ | ⟨id₀, call, result, -, h₀, -, rfl⟩
  · exact hs id task htask
  · -- a planted row
    by_cases hne : id = id₀
    · subst hne
      obtain rfl := Option.some.inj ((goto_tasks_self s id call .inserted).symm.trans htask)
      exact Table.get_insert_self _ (queuedRow id call) hid
    · have htask' := (goto_tasks_of_ne s call .inserted hne).symm.trans htask
      exact (Table.get_insert_of_ne _ (queuedRow id₀ call) hid hne).trans (hs id task htask')
  · -- the request moves, and its row is still the planted one
    by_cases hne : id = id₀
    · subst hne
      obtain rfl := Option.some.inj ((goto_tasks_self s id call phase').symm.trans htask)
      rw [goto_executions, hs id _ h₀, rowOf_unrecorded id hold, rowOf_unrecorded id hnew]
    · exact hs id task ((goto_tasks_of_ne s call phase' hne).symm.trans htask)
  · -- the end of a run
    by_cases hne : id = id₀
    · subst hne
      obtain rfl := Option.some.inj ((goto_tasks_self s id call (.recorded result)).symm.trans htask)
      have hrow := Table.get_update_self s.executions id (RunRecord.of money result).write
        fun _ => rfl
      rw [hs id _ h₀] at hrow
      exact hrow
    · have htask' := (goto_tasks_of_ne s call (.recorded result) hne).symm.trans htask
      have hrow := Table.get_update_of_ne s.executions id₀ (RunRecord.of money result).write
        (fun _ => rfl) hne
      exact hrow.trans (hs id task htask')

/-- The rows of every run of the sidecar. -/
theorem runActs_rows {acts : List AsyncAct} (hs : Rows money s)
    (h : runActs (step money) s acts = some s') : Rows money s' :=
  runActs_invariant (G := fun _ _ => True) (fun _ _ _ _ hInv hstep => step_rows hInv hstep)
    (along_of_forall (fun _ _ => trivial) s) hs h

/-! ### Progress -/

/-- A request is still there, and is as it was once its end is written. -/
def Progress (s s' : AsyncApi) : Prop :=
  ∀ id task, s.tasks id = some task → ∃ task', s'.tasks id = some task' ∧
    task'.call = task.call ∧ (¬task.phase.Unrecorded → task' = task)

theorem Progress.refl (s : AsyncApi) : Progress s s :=
  fun _ task htask => ⟨task, htask, rfl, fun _ => rfl⟩

theorem Progress.trans {s₁ s₂ s₃ : AsyncApi} (h₁₂ : Progress s₁ s₂) (h₂₃ : Progress s₂ s₃) :
    Progress s₁ s₃ := by
  intro id task htask
  obtain ⟨task₂, htask₂, hcall₂, hkeep₂⟩ := h₁₂ id task htask
  obtain ⟨task₃, htask₃, hcall₃, hkeep₃⟩ := h₂₃ id task₂ htask₂
  refine ⟨task₃, htask₃, hcall₃.trans hcall₂, fun hrec => ?_⟩
  obtain rfl := hkeep₂ hrec
  exact hkeep₃ hrec

/-- One request moves on from a phase in which its end was not written. -/
theorem progress_goto {id : Uuid} {call : CallInfo} {phase : AsyncPhase}
    (htask : s.tasks id = some ⟨call, phase⟩) (hphase : phase.Unrecorded) (phase' : AsyncPhase) :
    Progress s (s.goto id call phase') := by
  intro id' task' htask'
  by_cases hne : id' = id
  · subst hne
    obtain rfl := Option.some.inj (htask.symm.trans htask')
    exact ⟨_, goto_tasks_self s id' call phase', rfl, fun hrec => absurd hphase hrec⟩
  · exact ⟨task', (goto_tasks_of_ne s call phase' hne).trans htask', rfl, fun _ => rfl⟩

theorem step_progress (hs : Rows money s) (h : s.step money a = some s') : Progress s s' := by
  rcases step_cases h with rfl | ⟨id₀, call, hid, rfl⟩ | ⟨id₀, call, phase, phase', h₀, hold, -,
    rfl, -, -⟩ | ⟨id₀, call, result, -, h₀, -, rfl⟩
  · exact Progress.refl _
  · -- a request that has a row is not the one whose id was free
    intro id task htask
    have hne : id ≠ id₀ := by
      rintro rfl
      have hnone := Table.get_of_notMem hid
      rw [hs id task htask] at hnone
      cases hnone
    exact ⟨task, (goto_tasks_of_ne s call .inserted hne).trans htask, rfl, fun _ => rfl⟩
  · exact progress_goto h₀ hold phase'
  · exact progress_goto h₀ trivial (.recorded result)

theorem runActs_progress {acts : List AsyncAct} (hs : Rows money s)
    (h : runActs (step money) s acts = some s') : Progress s s' := by
  induction acts generalizing s with
  | nil =>
    cases h
    exact Progress.refl _
  | cons a rest ih =>
    obtain ⟨s₁, hstep, hrest⟩ := runActs_cons.mp h
    exact (step_progress hs hstep).trans (ih (step_rows hs hstep) hrest)

/-- **Once and never back**: the row of a request changes from `queued` to a terminal status or not
at all. -/
theorem row_moves_once {acts : List AsyncAct} (hs : Rows money s)
    (h : runActs (step money) s acts = some s') {id : Uuid} {task : AsyncTask}
    (htask : s.tasks id = some task) :
    s'.executions.get id = s.executions.get id ∨
      (s.executions.get id).map (fun row => row.status) = some "queued" ∧
        ∃ row, s'.executions.get id = some row ∧ row.status ≠ "queued" := by
  obtain ⟨task', htask', hcall, hkeep⟩ := runActs_progress hs h id task htask
  have hrow := hs id task htask
  have hrow' := runActs_rows hs h id task' htask'
  by_cases hrec : task.phase.Unrecorded
  · by_cases hrec' : task'.phase.Unrecorded
    · left
      rw [hrow, hrow', rowOf_unrecorded id hrec, rowOf_unrecorded id hrec', hcall]
    · right
      refine ⟨by rw [hrow, rowOf_unrecorded id hrec]; rfl, _, hrow', ?_⟩
      unfold rowOf
      split
      · exact status_of_ne_queued _
      · next hphase =>
        refine absurd ?_ hrec'
        cases hp : task'.phase <;> first | trivial | exact absurd hp (hphase _)
  · left
    rw [hrow, hrow', hkeep hrec]

/-! ### The truth -/

/-- The row tells how a run ended: its own output and tokens, `completed` for a `Completed` outcome
and for nothing else, the label the host inside Postgres writes for an outcome, and success where the
queue of that host has success. -/
structure Truthful (money : Money) (result : Except RuntimeError ExecutorOutcome)
    (row : AuditRow) : Prop where
  terminal : row.status ≠ "queued"
  own : match result with
    | .ok o => row.output = some o.output ∧ row.tokensIn = o.tokensIn.toNat ∧
        row.tokensOut = o.tokensOut.toNat
    | .error e => row.output = some (e.text money.text) ∧ row.tokensIn = 0 ∧ row.tokensOut = 0
  completed_iff : row.status = "completed" ↔ ∃ o, result = .ok o ∧ o.status = .completed
  label : ∀ o, result = .ok o → row.status = statusLabel o.status
  queue : row.status = "completed" ↔ (queueStatusFor (hostEnvelope money result)).1 = .done

/-- A run that is recorded as it should be: an error, or a `Completed` outcome. -/
def Conclusive (result : Except RuntimeError ExecutorOutcome) : Prop :=
  ∀ o, result = .ok o → o.status = .completed

theorem truthful_write {result : Except RuntimeError ExecutorOutcome} (h : Conclusive result)
    (row : AuditRow) : Truthful money result ((RunRecord.of money result).write row) := by
  have hcompleted : ((RunRecord.of money result).write row).status = "completed" ↔
      ∃ o, result = .ok o ∧ o.status = .completed := by
    cases result with
    | error e => simp [RunRecord.write, RunRecord.of]
    | ok o =>
      have ho : o.status = .completed := h o rfl
      simp [RunRecord.write, RunRecord.of, ho]
  refine ⟨status_of_ne_queued result, ?_, hcompleted, ?_, ?_⟩
  · cases result <;> exact ⟨rfl, rfl, rfl⟩
  · rintro o rfl
    rw [h o rfl]
    rfl
  · rw [hcompleted, queueStatusFor_hostEnvelope]

/-- **The truth in one state**: every id that was returned names one row, which a poll shows; it is
queued until the end of the run is written, and then it tells that end. -/
def ReportsTruth (money : Money) (s : AsyncApi) : Prop :=
  ∀ id task, s.tasks id = some task → task.phase ≠ .inserted →
    ∃ row, s.executions.withKey id = [row] ∧ statusHandler s.executions id = .ok (.of row) ∧
      row.agentName = task.call.agent ∧ row.input = task.call.input ∧
      row.callerRole = task.call.caller ∧
      match task.phase with
      | .recorded result => Truthful money result row
      | .lost _ | .died => False
      | _ => row.status = "queued"

/-- No run panics; the UPDATE after a run reaches the database, Postgres takes it, and the run came to
an error or to a `Completed` outcome. -/
def Recordable (money : Money) (s : AsyncApi) : AsyncAct → Prop
  | .kernel _ result => result.isSome = true
  | .update id reached => reached = true ∧ ∀ call result, s.tasks id = some ⟨call, .ended result⟩ →
      (RunRecord.of money result).Storable money ∧ Conclusive result
  | _ => True

/-- What the ends of the runs are. -/
def Ends (s : AsyncApi) : Prop :=
  ∀ id task, s.tasks id = some task →
    match task.phase with
    | .recorded result => Conclusive result
    | .lost _ | .died => False
    | _ => True

theorem ends_goto (hs : Ends s) (id : Uuid) (call : CallInfo) (phase : AsyncPhase)
    (hphase : match phase with
      | .recorded result => Conclusive result
      | .lost _ | .died => False
      | _ => True) : Ends (s.goto id call phase) := by
  intro id' task htask
  by_cases hne : id' = id
  · subst hne
    obtain rfl := Option.some.inj ((goto_tasks_self s id' call phase).symm.trans htask)
    exact hphase
  · exact hs id' task ((goto_tasks_of_ne s call phase hne).symm.trans htask)

theorem step_ends (hG : Recordable money s a) (hs : Ends s) (h : s.step money a = some s') :
    Ends s' := by
  rcases step_cases h with rfl | ⟨id, call, -, rfl⟩ | ⟨id, call, phase, phase', h₀, -, hnew, rfl,
    hdied, hlost⟩ | ⟨id, call, result, rfl, h₀, -, rfl⟩
  · exact hs
  · exact ends_goto hs id call .inserted trivial
  · refine ends_goto hs id call phase' ?_
    cases phase' with
    | recorded result => exact hnew.elim
    | lost result =>
      obtain ⟨rfl, reached, rfl, hnot⟩ := hlost result rfl
      exact hnot ⟨hG.1, (hG.2 call result h₀).1⟩
    | died =>
      obtain rfl := hdied rfl
      exact absurd hG Bool.false_ne_true
    | _ => trivial
  · exact ends_goto hs id call (.recorded result) (hG.2 call result h₀).2

theorem reportsTruth_of_rows (hrows : Rows money s) (hends : Ends s) : ReportsTruth money s := by
  intro id task htask _
  have hget := hrows id task htask
  refine ⟨rowOf money id task, Table.withKey_of_get hget, ?_, ?_⟩
  · rw [statusHandler, hget]
  · have hend := hends id task htask
    obtain ⟨call, phase⟩ := task
    cases phase with
    | recorded result => exact ⟨rfl, rfl, rfl, truthful_write hend _⟩
    | lost result => exact hend.elim
    | died => exact hend.elim
    | _ => exact ⟨rfl, rfl, rfl, rfl⟩

/-! ### The end of a run -/

/-- The steps that a run has still to take, when the kernel comes back with a result. -/
def remaining (id : Uuid) (result : Except RuntimeError ExecutorOutcome) :
    AsyncPhase → List AsyncAct
  | .inserted => [.respond id, .kernel id (some result), .update id true]
  | .running => [.kernel id (some result), .update id true]
  | .ended _ => [.update id true]
  | _ => []

/-- A run can come to a result. -/
def CanReturn (result : Except RuntimeError ExecutorOutcome) : AsyncPhase → Prop
  | .inserted | .running => True
  | .ended r | .recorded r => r = result
  | .died | .lost _ => False

/-- Whatever a run comes to, its own steps go on, and they end with a row that tells it. -/
def CanSettle (money : Money) (s : AsyncApi) (id : Uuid) (phase : AsyncPhase) : Prop :=
  ∀ result, CanReturn result phase → (RunRecord.of money result).Storable money →
    Conclusive result → ∃ s' row, runActs (step money) s (remaining id result phase) = some s' ∧
      s'.executions.get id = some row ∧ Truthful money result row

/-- An UPDATE that is taken. -/
theorem step_update {id : Uuid} {call : CallInfo} {result : Except RuntimeError ExecutorOutcome}
    (htask : s.tasks id = some ⟨call, .ended result⟩)
    (hstorable : (RunRecord.of money result).Storable money) :
    ∃ s', s.step money (.update id true) = some s' ∧
      s'.tasks id = some ⟨call, .recorded result⟩ := by
  refine ⟨s.update money id call result true, ?_, ?_⟩
  · simp only [step, htask]
  · rw [update, if_pos ⟨rfl, hstorable⟩]
    exact goto_tasks_self s id call (.recorded result)

/-- A run of its own steps, up to its UPDATE. -/
theorem runActs_remaining {id : Uuid} {call : CallInfo} {phase : AsyncPhase}
    {result : Except RuntimeError ExecutorOutcome} (htask : s.tasks id = some ⟨call, phase⟩)
    (hcan : CanReturn result phase) (hstorable : (RunRecord.of money result).Storable money) :
    ∃ s', runActs (step money) s (remaining id result phase) = some s' ∧
      s'.tasks id = some ⟨call, .recorded result⟩ := by
  -- backwards from the UPDATE: each phase has one act more to go than the one after it
  have hended : ∀ {s : AsyncApi}, s.tasks id = some ⟨call, .ended result⟩ →
      ∃ s', runActs (step money) s [.update id true] = some s' ∧
        s'.tasks id = some ⟨call, .recorded result⟩ := by
    intro s hs
    obtain ⟨s', hstep, hs'⟩ := step_update hs hstorable
    exact ⟨s', runActs_cons.mpr ⟨s', hstep, rfl⟩, hs'⟩
  have hrunning : ∀ {s : AsyncApi}, s.tasks id = some ⟨call, .running⟩ →
      ∃ s', runActs (step money) s [.kernel id (some result), .update id true] = some s' ∧
        s'.tasks id = some ⟨call, .recorded result⟩ := by
    intro s hs
    obtain ⟨s', hrun, hs'⟩ := hended (goto_tasks_self s id call (.ended result))
    refine ⟨s', runActs_cons.mpr ⟨_, ?_, hrun⟩, hs'⟩
    simp only [step, hs, Option.elim_some]
  cases phase with
  | inserted =>
    obtain ⟨s', hrun, hs'⟩ := hrunning (goto_tasks_self s id call .running)
    refine ⟨s', runActs_cons.mpr ⟨_, ?_, hrun⟩, hs'⟩
    simp only [step, htask]
  | running => exact hrunning htask
  | ended r =>
    obtain rfl : r = result := hcan
    exact hended htask
  | recorded r =>
    obtain rfl : r = result := hcan
    exact ⟨s, rfl, htask⟩
  | died => exact hcan.elim
  | lost r => exact hcan.elim

theorem canSettle (hrows : Rows money s) {id : Uuid} {task : AsyncTask}
    (htask : s.tasks id = some task) : CanSettle money s id task.phase := by
  intro result hcan hstorable hconclusive
  obtain ⟨s', hrun, htask'⟩ := runActs_remaining htask hcan hstorable
  exact ⟨s', _, hrun, runActs_rows hrows hrun id _ htask', truthful_write hconclusive _⟩

/-- **After the UPDATE**: a run that has made it has its end in its row, from then on. -/
theorem runActs_updated {acts : List AsyncAct} (hrows : Rows money s)
    (hrecordable : Along (step money) (Recordable money) s acts)
    (h : runActs (step money) s acts = some s') {id : Uuid} {reached : Bool}
    (hmem : .update id reached ∈ acts) :
    ∃ call result, s'.tasks id = some ⟨call, .recorded result⟩ := by
  induction acts generalizing s with
  | nil => cases hmem
  | cons a rest ih =>
    obtain ⟨s₁, hstep, hrest⟩ := runActs_cons.mp h
    have hrows₁ := step_rows hrows hstep
    rcases List.mem_cons.mp hmem with rfl | hmem
    · obtain ⟨rfl, hG⟩ := hrecordable.1
      obtain ⟨call, result, htask⟩ : ∃ call result, s.tasks id = some ⟨call, .ended result⟩ := by
        simp only [step] at hstep
        split at hstep
        · next call result htask => exact ⟨call, result, htask⟩
        · cases hstep
      obtain ⟨s₂, hstep₂, htask₂⟩ := step_update htask (hG call result htask).1
      obtain rfl := Option.some.inj (hstep₂.symm.trans hstep)
      obtain ⟨task', htask', -, hkeep⟩ := runActs_progress hrows₁ hrest id _ htask₂
      exact ⟨call, result, htask'.trans (congrArg some (hkeep not_false))⟩
    · exact ih hrows₁ (hrecordable.2 s₁ hstep) hrest hmem

/-- **Asynchronous runs report the truth.**  In every run of the sidecar, from any table, in which no
run panics and the UPDATEs are taken, for runs that came to an error or to a `Completed` outcome: every
id that was returned names one row, which a poll shows and which tells the end of its own run; from any
state on, that row moves from `queued` to a terminal status or not at all; it has moved once its run
has made its UPDATE, and until then the run can go on to it. -/
theorem async_runs_report_truth (money : Money) (executions : Executions)
    (before after : List AsyncAct) (s s' : AsyncApi)
    (hbefore : runActs (step money) (init executions) before = some s)
    (hafter : runActs (step money) s after = some s')
    (hrecordable : Along (step money) (Recordable money) (init executions) before) :
    ReportsTruth money s ∧
      (∀ id, s.Returned id →
        s'.executions.get id = s.executions.get id ∨
          (s.executions.get id).map (fun row => row.status) = some "queued" ∧
            ∃ row, s'.executions.get id = some row ∧ row.status ≠ "queued") ∧
      (∀ id reached, .update id reached ∈ before →
        ∃ row, s.executions.get id = some row ∧ row.status ≠ "queued") ∧
      ∀ id task, s.tasks id = some task → CanSettle money s id task.phase := by
  have hrows : Rows money s := runActs_rows (rows_init executions) hbefore
  have hends : Ends s := runActs_invariant (fun _ _ _ hG hInv hstep => step_ends hG hInv hstep)
    hrecordable (fun _ _ h => by cases h) hbefore
  refine ⟨reportsTruth_of_rows hrows hends, ?_, ?_, fun id task htask => canSettle hrows htask⟩
  · rintro id ⟨task, htask, _⟩
    exact row_moves_once hrows hafter htask
  · intro id reached hmem
    obtain ⟨call, result, htask⟩ := runActs_updated (rows_init executions) hrecordable hbefore hmem
    exact ⟨_, hrows id _ htask, status_of_ne_queued result⟩

end AsyncApi

/-! ### Two requests, and one that runs out of iterations -/

namespace TwoRequests

def money : Money := ⟨fun _ => "", fun _ => .null⟩

def call : CallInfo := ⟨"a", "hi", none⟩

/-- An answer. -/
def answer : ExecutorOutcome := { ExecutorOutcome.default with output := "ok", tokensIn := 3 }

/-- A run that was cut off. -/
def cutOff : ExecutorOutcome := { ExecutorOutcome.default with status := .maxIterations }

/-- The request under an id comes to a result, which is written. -/
def acts (id : Uuid) (result : Except RuntimeError ExecutorOutcome) : List AsyncAct :=
  [.insert id call, .respond id, .poll id, .kernel id (some result), .update id true]

/-- Two requests interleave; one has an answer and one fails. -/
def interleaved : List AsyncAct :=
  [.insert ⟨1⟩ call, .insert ⟨2⟩ call, .respond ⟨2⟩, .respond ⟨1⟩, .kernel ⟨1⟩ (some (.ok answer)),
    .kernel ⟨2⟩ (some (.error (.agentNotFound "a"))), .update ⟨2⟩ true, .poll ⟨2⟩]

theorem interleaved_recordable :
    Along (AsyncApi.step money) (AsyncApi.Recordable money) (.init .empty) interleaved := by
  refine .cons trivial rfl (.cons trivial rfl (.cons trivial rfl (.cons trivial rfl
    (.cons rfl rfl (.cons rfl rfl (.cons ⟨rfl, ?_⟩ rfl (.cons trivial rfl trivial)))))))
  intro c result htask
  obtain ⟨rfl, rfl⟩ : call = c ∧ .error (.agentNotFound "a") = result := by
    simpa [AsyncApi.goto, AsyncApi.insert] using htask
  exact ⟨by decide, fun o ho => by cases ho⟩

theorem interleaved_report_truth :
    ∃ s s', runActs (AsyncApi.step money) (.init .empty) interleaved = some s ∧
      runActs (AsyncApi.step money) s [.update ⟨1⟩ true] = some s' ∧
      AsyncApi.ReportsTruth money s ∧ s.Returned ⟨1⟩ ∧
      (s.executions.get ⟨1⟩).map (fun row => row.status) = some "queued" ∧
      (s'.executions.get ⟨1⟩).map (fun row => row.status) = some "completed" := by
  refine ⟨_, _, rfl, rfl, ?_, ⟨_, rfl, by simp⟩, by decide, by decide⟩
  exact (AsyncApi.async_runs_report_truth money .empty interleaved [.update ⟨1⟩ true] _ _ rfl rfl
    interleaved_recordable).1

/-- A run that was cut off is reported as completed, where the host inside Postgres records an
error. -/
theorem cut_off_reads_completed :
    ∃ s, runActs (AsyncApi.step money) (.init .empty) (acts ⟨1⟩ (.ok cutOff)) = some s ∧
      (s.executions.get ⟨1⟩).map (fun row => row.status) = some "completed" ∧
      statusLabel cutOff.status = "max_iterations" ∧
      (queueStatusFor (hostEnvelope money (.ok cutOff))).1 = .error ∧
      ¬ AsyncApi.ReportsTruth money s := by
  obtain ⟨s, hrun, htask, hstatus⟩ : ∃ s,
      runActs (AsyncApi.step money) (.init .empty) (acts ⟨1⟩ (.ok cutOff)) = some s ∧
      s.tasks ⟨1⟩ = some ⟨call, .recorded (.ok cutOff)⟩ ∧
      (s.executions.get ⟨1⟩).map (fun row => row.status) = some "completed" :=
    ⟨_, rfl, rfl, by decide⟩
  refine ⟨s, hrun, hstatus, rfl, by decide, fun htruth => ?_⟩
  obtain ⟨row, hrow, -, -, -, -, htrue⟩ := htruth ⟨1⟩ _ htask (by simp)
  have hlabel : row.status = "max_iterations" := htrue.label cutOff rfl
  rw [Table.get, hrow, List.head?_cons, Option.map_some, hlabel] at hstatus
  exact absurd hstatus (by decide)

end TwoRequests

end PgSynapse
