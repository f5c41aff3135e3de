import PgSynapse.Pgrx.Queue

/-!
# What the queue's transactions keep

`Queue.Inv` is the invariant of all runs.  A claimed row stays in status `queued` for everybody but its
drain until that drain commits, since the drain holds its lock; and when a drain commits, each row it
claimed has got the terminal status of its run.  The marks `running` never commit.
-/

namespace PgSynapse

/-! ### Terminal statuses -/

/-- The envelope's status is `completed`. -/
def Completed (envelope : Value) : Prop := envelope.get? "status" = some (.string "completed")

theorem queueStatusFor_completed {envelope : Value} (h : Completed envelope) :
    queueStatusFor envelope = (.done, none) := by
  unfold queueStatusFor
  rw [h]
  rfl

theorem queueStatusFor_other {envelope : Value} (h : ¬ Completed envelope) :
    ∃ reason, queueStatusFor envelope = (.error, some reason) := by
  unfold queueStatusFor
  dsimp only
  split
  · rename_i hstatus
    exfalso
    refine h ?_
    rw [Completed]
    cases hget : envelope.get? "status" with
    | none =>
      rw [hget] at hstatus
      exact absurd hstatus (by decide)
    | some v =>
      rw [hget] at hstatus
      cases v with
      | string s => simpa [Value.asStr?] using hstatus
      | _ => exact absurd hstatus (by simp [Value.asStr?])
  · exact ⟨_, rfl⟩

theorem queueStatusFor_done_iff {envelope : Value} :
    (queueStatusFor envelope).1 = .done ↔ Completed envelope := by
  by_cases h : Completed envelope
  · rw [queueStatusFor_completed h]
    exact iff_of_true rfl h
  · obtain ⟨reason, hr⟩ := queueStatusFor_other h
    rw [hr]
    exact iff_of_false (by simp) h

/-- A run ends a job. -/
theorem queueStatusFor_final (envelope : Value) :
    (queueStatusFor envelope).1 ≠ .queued ∧ (queueStatusFor envelope).1 ≠ .running := by
  by_cases h : Completed envelope
  · rw [queueStatusFor_completed h]
    simp
  · obtain ⟨reason, hr⟩ := queueStatusFor_other h
    rw [hr]
    simp

/-! ### One drain -/

/-- The jobs a drain has run. -/
def Drain.jobs (d : Drain) : List Nat := d.runs.map Prod.fst

/-- A row with the terminal status of a run. -/
def QueueRow.Records (row : QueueRow) (envelope : Value) : Prop :=
  (row.status, row.error) = queueStatusFor envelope

namespace DrainTxn

/-- How the phase of a drain fits what it has done. -/
def PhaseOk (t : DrainTxn) : Prop :=
  match t.data.phase with
  | .started => t.data.taken = [] ∧ t.data.runs = [] ∧ ∀ j, t.own j = none
  | .counted _ => t.data.taken = [] ∧ t.data.runs = [] ∧ ∀ j, t.own j = none
  | .scanning _ candidates =>
    t.data.runs = [] ∧ (∀ j, t.own j = none) ∧ (t.data.taken ++ candidates).Nodup
  | .working todo => t.data.taken = t.data.jobs ++ todo ∧ ∀ j ∈ t.data.taken, t.own j ≠ none
  | .executing job rest =>
    t.data.taken = t.data.jobs ++ job :: rest ∧ ∀ j ∈ t.data.taken, t.own j ≠ none

/-- What holds of an open drain, over the committed rows. -/
structure Ok (rows : Nat → Option QueueRow) (t : DrainTxn) : Prop where
  taken_held : ∀ j ∈ t.data.taken, j ∈ t.held
  taken_nodup : t.data.taken.Nodup
  taken_queued : ∀ j ∈ t.data.taken, (rows j).map QueueRow.status = some .queued
  own_or_new : ∀ j row, t.own j = some row →
    j ∈ t.data.taken ∨ (rows j = none ∧ row.status = .queued)
  ran : ∀ p ∈ t.data.runs, ∃ row, t.own p.1 = some row ∧ row.Records p.2
  phase : PhaseOk t

variable {rows rows' : Nat → Option QueueRow} {t : DrainTxn}

/-- The rows a drain does not depend on may change. -/
theorem Ok.transfer (h : Ok rows t)
    (hrows : ∀ j, j ∈ t.data.taken ∨ t.own j ≠ none → rows' j = rows j) : Ok rows' t where
  taken_held := h.taken_held
  taken_nodup := h.taken_nodup
  taken_queued j hj := by
    rw [hrows j (.inl hj)]
    exact h.taken_queued j hj
  own_or_new j row hrow := by
    rw [hrows j (.inr (by simp [hrow]))]
    exact h.own_or_new j row hrow
  ran := h.ran
  phase := h.phase

theorem ok_new (rows : Nat → Option QueueRow) (maxJobs : Int) (now : Nat) :
    Ok rows ⟨[], fun _ => none, ⟨maxJobs, now, .started, [], []⟩⟩ :=
  ⟨by simp, by simp, by simp, by simp, by simp, ⟨rfl, rfl, fun _ => rfl⟩⟩

/-- A drain that has claimed nothing and comes to a phase that fits. -/
theorem ok_idle {phase : DrainPhase} (htaken : t.data.taken = []) (hruns : t.data.runs = [])
    (hown : ∀ j, t.own j = none) (hphase : PhaseOk (goto t phase)) : Ok rows (goto t phase) :=
  ⟨by simp [goto, htaken], by simp [goto, htaken], by simp [goto, htaken], by simp [goto, hown],
    by simp [goto, hruns], hphase⟩

theorem Ok.count (h : Ok rows t) (hphase : t.data.phase = .started) (cap : MaxConcurrentRuns)
    (running : Nat) : Ok rows (count cap running t) := by
  have hidle := h.phase
  rw [PhaseOk, hphase] at hidle
  obtain ⟨htaken, hruns, hown⟩ := hidle
  unfold DrainTxn.count
  dsimp only
  split
  · exact ok_idle htaken hruns hown (by simp [PhaseOk, goto, Drain.jobs, htaken, hruns])
  · exact ok_idle htaken hruns hown ⟨htaken, hruns, hown⟩

theorem Ok.select (h : Ok rows t) {limit : Int} (hphase : t.data.phase = .counted limit)
    (wanted : Nat) {candidates : List Nat} (hnodup : candidates.Nodup) :
    Ok rows (goto t (.scanning wanted candidates)) := by
  have hidle := h.phase
  rw [PhaseOk, hphase] at hidle
  obtain ⟨htaken, hruns, hown⟩ := hidle
  refine ok_idle htaken hruns hown ⟨hruns, hown, ?_⟩
  simpa [goto, htaken] using hnodup

theorem Ok.scan (h : Ok rows t) {wanted job : Nat} {rest : List Nat}
    (hphase : t.data.phase = .scanning (wanted + 1) (job :: rest)) (lockedByOther : Bool) :
    Ok rows (scan rows lockedByOther wanted job rest t) := by
  have hscan := h.phase
  rw [PhaseOk, hphase] at hscan
  obtain ⟨hruns, hown, hnodup⟩ := hscan
  have hskip : (t.data.taken ++ rest).Nodup :=
    hnodup.sublist ((List.sublist_cons_self job rest).append_left _)
  unfold DrainTxn.scan
  split
  · exact ⟨h.taken_held, h.taken_nodup, h.taken_queued, h.own_or_new, h.ran, hruns, hown, hskip⟩
  split
  · rename_i hqueued
    have hassoc : t.data.taken ++ [job] ++ rest = t.data.taken ++ job :: rest := by simp
    have hnodup' : (t.data.taken ++ [job] ++ rest).Nodup := hassoc ▸ hnodup
    refine ⟨?_, hnodup'.of_append_left, ?_, by simp [hown], by simp [hruns], hruns, hown, hnodup'⟩
    · intro j hj
      rcases List.mem_append.mp hj with hj | hj
      · exact List.mem_cons_of_mem _ (h.taken_held j hj)
      · exact List.mem_cons.mpr (.inl (List.mem_singleton.mp hj))
    · intro j hj
      rcases List.mem_append.mp hj with hj | hj
      · exact h.taken_queued j hj
      · rw [List.mem_singleton.mp hj]
        exact hqueued
  · exact ⟨fun j hj => List.mem_cons_of_mem _ (h.taken_held j hj), h.taken_nodup, h.taken_queued,
      h.own_or_new, h.ran, hruns, hown, hskip⟩

/-- The scan locks at most its candidate, and only where no other has. -/
theorem held_scan (rows : Nat → Option QueueRow) (lockedByOther : Bool) (wanted job : Nat)
    (rest : List Nat) (t : DrainTxn) :
    (∀ k ∈ (scan rows lockedByOther wanted job rest t).held,
      k ∈ t.held ∨ (k = job ∧ lockedByOther = false)) ∧
    (∀ k ∈ t.held, k ∈ (scan rows lockedByOther wanted job rest t).held) ∧
    (scan rows lockedByOther wanted job rest t).own = t.own := by
  unfold scan goto
  cases lockedByOther with
  | true => simp
  | false =>
    simp only [Bool.false_eq_true, if_false]
    split <;> simp +contextual [or_comm]

theorem Ok.claim (h : Ok rows t) {wanted : Nat} {candidates : List Nat}
    (hphase : t.data.phase = .scanning wanted candidates) : Ok rows (claim rows t) := by
  have hscan := h.phase
  rw [PhaseOk, hphase] at hscan
  obtain ⟨hruns, hown, -⟩ := hscan
  refine ⟨h.taken_held, h.taken_nodup, h.taken_queued, ?_, by simp [DrainTxn.claim, goto, hruns], ?_⟩
  · intro j row hrow
    simp only [DrainTxn.claim, goto, hown] at hrow
    split at hrow
    · rename_i hj
      exact .inl hj
    · cases hrow
  · refine ⟨by simp [DrainTxn.claim, goto, Drain.jobs, hruns], fun j hj => ?_⟩
    change j ∈ t.data.taken at hj
    have hq := h.taken_queued j hj
    cases hrow : rows j with
    | none =>
      rw [hrow] at hq
      cases hq
    | some row => simp [DrainTxn.claim, hj, hrow]

/-! ### Updates of a claimed row -/

/-- A row the drain has a version of is changed in that version. -/
theorem update_eq (rows : Nat → Option QueueRow) {job : Nat} (hown : t.own job ≠ none) (f : QueueRow → QueueRow) :
    ∃ row, t.own job = some row ∧ update t rows job f = Function.update t.own job (some (f row)) := by
  cases hrow : t.own job with
  | none => exact absurd hrow hown
  | some row =>
    refine ⟨row, rfl, ?_⟩
    simp [DrainTxn.update, Txn.view, hrow]

/-- An update of the next job's row, in a drain that goes on to another phase. -/
theorem Ok.update (h : Ok rows t) {job : Nat} {rest : List Nat}
    (htaken : t.data.taken = t.data.jobs ++ job :: rest) (hown : ∀ j ∈ t.data.taken, t.own j ≠ none)
    (f : QueueRow → QueueRow) {d : Drain} (hd : d.taken = t.data.taken)
    (hruns : ∀ p ∈ d.runs, p ∈ t.data.runs ∨ p.1 = job ∧ ∀ row, (f row).Records p.2)
    (hphase : PhaseOk ⟨t.held, DrainTxn.update t rows job f, d⟩) :
    Ok rows ⟨t.held, DrainTxn.update t rows job f, d⟩ := by
  have hjob : job ∈ t.data.taken := by simp [htaken]
  obtain ⟨row₀, hrow₀, hupdate⟩ := update_eq rows (hown job hjob) f
  refine ⟨?_, ?_, ?_, ?_, ?_, hphase⟩
  · rw [hd]
    exact h.taken_held
  · rw [hd]
    exact h.taken_nodup
  · rw [hd]
    exact h.taken_queued
  · intro j row hrow
    simp only [hd]
    by_cases hj : j = job
    · exact .inl (hj ▸ hjob)
    · simp only [hupdate, Function.update_of_ne hj] at hrow
      exact h.own_or_new j row hrow
  · intro p hp
    simp only [hupdate]
    rcases hruns p hp with hold | ⟨hpj, hrec⟩
    · have hne : p.1 ≠ job := by
        rintro rfl
        have hnodup := h.taken_nodup
        rw [htaken] at hnodup
        have hmem : p.1 ∈ t.data.jobs := List.mem_map.mpr ⟨p, hold, rfl⟩
        exact (List.nodup_append.mp hnodup).2.2 p.1 hmem p.1 List.mem_cons_self rfl
      rw [Function.update_of_ne hne]
      exact h.ran p hold
    · rw [hpj, Function.update_self]
      exact ⟨_, rfl, hrec row₀⟩

/-- An update keeps the versions a drain has. -/
theorem update_ne_none {job j : Nat} {f : QueueRow → QueueRow} (hown : t.own j ≠ none) :
    DrainTxn.update t rows job f j ≠ none := by
  unfold DrainTxn.update
  cases t.view rows job with
  | none => exact hown
  | some row =>
    by_cases hj : j = job
    · subst hj
      simp
    · simpa only [Function.update_of_ne hj] using hown

/-- An update adds no version but that of its row. -/
theorem own_of_update {job k : Nat} {f : QueueRow → QueueRow}
    (h : DrainTxn.update t rows job f k ≠ none) : t.own k ≠ none ∨ k = job := by
  by_cases hk : k = job
  · exact .inr hk
  · refine .inl ?_
    unfold DrainTxn.update at h
    cases hv : t.view rows job with
    | none => simpa [hv] using h
    | some row => simpa [hv, Function.update_of_ne hk] using h

/-- The job a drain comes to is one it has claimed. -/
theorem Ok.job_taken (h : Ok rows t) {job : Nat} {rest : List Nat}
    (hphase : t.data.phase = .working (job :: rest) ∨ t.data.phase = .executing job rest) :
    job ∈ t.data.taken := by
  have hwork := h.phase
  rcases hphase with hphase | hphase <;>
  · rw [PhaseOk, hphase] at hwork
    rw [hwork.1]
    simp

theorem Ok.start (h : Ok rows t) {job : Nat} {rest : List Nat}
    (hphase : t.data.phase = .working (job :: rest)) : Ok rows (start rows job rest t) := by
  have hwork := h.phase
  rw [PhaseOk, hphase] at hwork
  obtain ⟨htaken, hown⟩ := hwork
  exact h.update htaken hown _ rfl (fun p hp => .inl hp)
    ⟨htaken, fun j hj => update_ne_none (hown j hj)⟩

theorem Ok.finish (h : Ok rows t) {job : Nat} {rest : List Nat}
    (hphase : t.data.phase = .executing job rest) (envelope : Value) :
    Ok rows (finish rows job rest envelope t) := by
  have hwork := h.phase
  rw [PhaseOk, hphase] at hwork
  obtain ⟨htaken, hown⟩ := hwork
  refine h.update htaken hown _ rfl (fun p hp => ?_) ⟨?_, fun j hj => update_ne_none (hown j hj)⟩
  · rcases List.mem_append.mp hp with hp | hp
    · exact .inl hp
    · rw [List.mem_singleton.mp hp]
      exact .inr ⟨rfl, fun row => rfl⟩
  · simp [Drain.jobs] at htaken ⊢
    exact htaken

/-- The agent of a job enqueues another. -/
theorem Ok.enqueue (h : Ok rows t) {job : Nat} {rest : List Nat}
    (hphase : t.data.phase = .executing job rest) {k : Nat} (hrow : rows k = none)
    (hown : t.own k = none) (row : QueueRow) (hstatus : row.status = .queued) :
    Ok rows { t with own := Function.update t.own k (some row) } := by
  have hwork := h.phase
  rw [PhaseOk, hphase] at hwork
  have hne : ∀ j, t.own j ≠ none → j ≠ k := by
    rintro j hj rfl
    exact hj hown
  refine ⟨h.taken_held, h.taken_nodup, h.taken_queued, ?_, ?_, ?_⟩
  · intro j r hr
    by_cases hj : j = k
    · subst hj
      simp only [Function.update_self] at hr
      cases hr
      exact .inr ⟨hrow, hstatus⟩
    · simp only [Function.update_of_ne hj] at hr
      exact h.own_or_new j r hr
  · intro p hp
    obtain ⟨r, hr, hrec⟩ := h.ran p hp
    refine ⟨r, ?_, hrec⟩
    simp only [Function.update_of_ne (hne p.1 (by simp [hr])), hr]
  · rw [PhaseOk, hphase]
    refine ⟨hwork.1, fun j hj => ?_⟩
    simp only [Function.update_of_ne (hne j (hwork.2 j hj))]
    exact hwork.2 j hj

end DrainTxn

/-! ### All of them -/

namespace Queue

/-- What every run keeps. -/
structure Inv (q : Queue) : Prop where
  store : q.store.Ok
  drains : ∀ i t, q.store.txns i = some t → DrainTxn.Ok q.store.rows t
  fresh : ∀ k, q.next ≤ k → q.store.Unused k
  not_running : ∀ j row, q.store.rows j = some row → row.status ≠ .running
  finished_taken : ∀ d ∈ q.finished, d.taken = d.jobs
  finished_rows : ∀ d ∈ q.finished, ∀ p ∈ d.runs,
    ∃ row, q.store.rows p.1 = some row ∧ row.Records p.2
  finished_nodup : (q.finished.flatMap Drain.jobs).Nodup

theorem inv_init : Inv init where
  store := Store.ok_empty
  drains _ _ h := by cases h
  fresh _ _ := ⟨rfl, fun _ _ h => by cases h⟩
  not_running _ _ h := by cases h
  finished_taken := by simp [init]
  finished_rows := by simp [init]
  finished_nodup := by simp [init]

variable {q q' : Queue} {i : Nat} {t t' : DrainTxn}

/-- **A drain goes on**: it locks rows that no other has locked, and has new versions of rows it has
claimed only. -/
theorem Inv.set (h : Inv q) (ht : q.store.txns i = some t) (hok : DrainTxn.Ok q.store.rows t')
    (hheld : ∀ k ∈ t'.held, k ∈ t.held ∨ q.store.heldByOther i k = false)
    (hkeep : ∀ k ∈ t.held, k ∈ t'.held)
    (hown : ∀ k, t'.own k ≠ none → t.own k ≠ none ∨ k ∈ t'.data.taken) : Inv (q.set i t') := by
  have hrow : ∀ k ∈ t'.data.taken, q.store.rows k ≠ none := by
    intro k hk hnone
    have := hok.taken_queued k hk
    rw [hnone] at this
    cases this
  refine ⟨h.store.set ht ?_ ?_, ?_, ?_, h.not_running, h.finished_taken, h.finished_rows,
    h.finished_nodup⟩
  · intro k hk j u hj hu
    rcases hheld k hk with hold | hfree
    · exact h.store.exclusive i j t u k (Ne.symm hj) ht hu hold
    · exact Store.not_held_of_heldByOther h.store hfree hj hu
  · intro k hk
    rcases hown k hk with hold | htaken
    · exact .inl ⟨hold, hkeep k⟩
    · exact .inr (.inl ⟨hok.taken_held k htaken, hrow k htaken⟩)
  · intro j u hu
    rcases Store.txns_set q.store i t' hu with ⟨rfl, rfl⟩ | ⟨-, hu'⟩
    · exact hok
    · exact h.drains j u hu'
  · intro k hk
    refine ⟨(h.fresh k hk).1, fun j u hu => ?_⟩
    rcases Store.txns_set q.store i t' hu with ⟨rfl, rfl⟩ | ⟨-, hu'⟩
    · by_contra hne
      rcases hown k hne with hold | htaken
      · exact hold ((h.fresh k hk).2 j t ht)
      · exact hrow k htaken (h.fresh k hk).1
    · exact (h.fresh k hk).2 j u hu'

/-- A job is enqueued. -/
theorem Inv.insertRow (h : Inv q) (row : QueueRow) (hstatus : row.status = .queued) :
    Inv { q with store := q.store.insertRow q.next row, next := q.next + 1 } := by
  have hunused := h.fresh q.next (Nat.le_refl _)
  have hrows : ∀ j, j ≠ q.next → (q.store.insertRow q.next row).rows j = q.store.rows j := by
    intro j hj
    simp only [Store.insertRow, Function.update_of_ne hj]
  have hold : ∀ j r, q.store.rows j = some r →
      (q.store.insertRow q.next row).rows j = some r := by
    intro j r hr
    rw [hrows j, hr]
    rintro rfl
    rw [hunused.1] at hr
    cases hr
  refine ⟨h.store.insertRow row hunused, ?_, ?_, ?_, h.finished_taken, ?_, h.finished_nodup⟩
  · intro i t ht
    refine (h.drains i t ht).transfer fun j hj => hrows j ?_
    rintro rfl
    rcases hj with hj | hj
    · have := (h.drains i t ht).taken_queued _ hj
      rw [hunused.1] at this
      cases this
    · exact hj (hunused.2 i t ht)
  · intro k hk
    have hlt : q.next ≤ k := Nat.le_of_succ_le hk
    exact ⟨(hrows k (by rintro rfl; exact absurd hk (by simp))).trans (h.fresh k hlt).1,
      (h.fresh k hlt).2⟩
  · intro j r hr
    by_cases hj : j = q.next
    · subst hj
      simp only [Store.insertRow, Function.update_self] at hr
      cases hr
      rw [hstatus]
      simp
    · rw [hrows j hj] at hr
      exact h.not_running j r hr
  · intro d hd p hp
    obtain ⟨r, hr, hrec⟩ := h.finished_rows d hd p hp
    exact ⟨r, hold _ r hr, hrec⟩

/-- A drain begins. -/
theorem Inv.begin (h : Inv q) (maxJobs : Int) (now : Nat) :
    Inv { q with store := q.store.beginTxn ⟨maxJobs, now, .started, [], []⟩ } := by
  refine ⟨h.store.beginTxn _, ?_, ?_, h.not_running, h.finished_taken, h.finished_rows,
    h.finished_nodup⟩
  · intro i t ht
    rcases Store.txns_beginTxn q.store _ ht with rfl | ht'
    · exact DrainTxn.ok_new _ maxJobs now
    · exact h.drains i t ht'
  · intro k hk
    refine ⟨(h.fresh k hk).1, fun i t ht => ?_⟩
    rcases Store.txns_beginTxn q.store _ ht with rfl | ht'
    · rfl
    · exact (h.fresh k hk).2 i t ht'

/-- The agent of a job enqueues another, in the drain's transaction. -/
theorem Inv.enqueueIn (h : Inv q) (ht : q.store.txns i = some t) {job : Nat} {rest : List Nat}
    (hphase : t.data.phase = .executing job rest) (row : QueueRow) (hstatus : row.status = .queued) :
    Inv { q with
      store := q.store.set i { t with own := Function.update t.own q.next (some row) }
      next := q.next + 1 } := by
  have hunused := h.fresh q.next (Nat.le_refl _)
  have hok := (h.drains i t ht).enqueue hphase hunused.1 (hunused.2 i t ht) row hstatus
  refine ⟨h.store.set ht ?_ ?_, ?_, ?_, h.not_running, h.finished_taken, h.finished_rows,
    h.finished_nodup⟩
  · exact fun k hk j u hj hu => h.store.exclusive i j t u k (Ne.symm hj) ht hu hk
  · intro k hk
    by_cases hkn : k = q.next
    · subst hkn
      exact .inr (.inr hunused)
    · simp only [Function.update_of_ne hkn] at hk
      exact .inl ⟨hk, id⟩
  · intro j u hu
    rcases Store.txns_set q.store i _ hu with ⟨rfl, rfl⟩ | ⟨-, hu'⟩
    · exact hok
    · exact h.drains j u hu'
  · intro k hk
    have hlt : q.next ≤ k := Nat.le_of_succ_le hk
    refine ⟨(h.fresh k hlt).1, fun j u hu => ?_⟩
    rcases Store.txns_set q.store i _ hu with ⟨rfl, rfl⟩ | ⟨-, hu'⟩
    · have hne : k ≠ q.next := by
        rintro rfl
        exact absurd hk (by simp)
      simp only [Function.update_of_ne hne]
      exact (h.fresh k hlt).2 j t ht
    · exact (h.fresh k hlt).2 j u hu'

/-- A drain aborts. -/
theorem Inv.abort (h : Inv q) (i : Nat) : Inv { q with store := q.store.abort i } :=
  ⟨h.store.abort i, fun j u hu => h.drains j u (Store.txns_abort q.store i hu).2,
    fun k hk => ⟨(h.fresh k hk).1, fun j u hu =>
      (h.fresh k hk).2 j u (Store.txns_abort q.store i hu).2⟩,
    h.not_running, h.finished_taken, h.finished_rows, h.finished_nodup⟩

/-- **A drain commits**: its rows were `queued` until now, so none of its jobs was run by a drain that
committed before. -/
theorem Inv.commit (h : Inv q) (ht : q.store.txns i = some t)
    (hphase : t.data.phase = .working []) :
    Inv { q with store := q.store.commit i t, finished := q.finished ++ [t.data] } := by
  have hok := h.drains i t ht
  have hwork := hok.phase
  rw [DrainTxn.PhaseOk, hphase] at hwork
  have htaken : t.data.taken = t.data.jobs := by simpa using hwork.1
  -- a job recorded before is not `queued`, so this drain has no version of it
  have hrecorded : ∀ j row envelope, q.store.rows j = some row → row.Records envelope →
      j ∉ t.data.taken ∧ t.own j = none := by
    intro j row envelope hrow hrec
    have hnot : j ∉ t.data.taken := by
      intro hj
      have hq := hok.taken_queued j hj
      rw [hrow, Option.map_some, Option.some.injEq] at hq
      have hfinal := (queueStatusFor_final envelope).1
      rw [← hrec, hq] at hfinal
      exact hfinal rfl
    refine ⟨hnot, ?_⟩
    cases hown : t.own j with
    | none => rfl
    | some r =>
      rcases hok.own_or_new j r hown with hj | ⟨hnone, -⟩
      · exact absurd hj hnot
      · rw [hnone] at hrow
        cases hrow
  refine ⟨h.store.commit ht, ?_, ?_, ?_, ?_, ?_, ?_⟩
  · -- the other drains: the rows they hold do not change under them
    intro j u hu
    obtain ⟨hj, hu⟩ := Store.txns_abort q.store i hu
    have hu' := h.drains j u hu
    refine hu'.transfer fun k hk => ?_
    rcases hk with hk | hk
    · refine Store.rows_commit_of_held h.store ht hj hu (hu'.taken_held k hk) ?_
      intro hnone
      have := hu'.taken_queued k hk
      rw [hnone] at this
      cases this
    · exact Store.rows_commit_of_own (h.store.separate j i u t k hj hu ht hk)
  · intro k hk
    have hfresh := h.fresh k hk
    exact ⟨(Store.rows_commit_of_own (hfresh.2 i t ht)).trans hfresh.1,
      fun j u hu => hfresh.2 j u (Store.txns_abort q.store i hu).2⟩
  · -- a version that is committed is of a job that was run, or of one just enqueued
    intro j row hrow
    cases hown : t.own j with
    | none => exact h.not_running j row ((Store.rows_commit_of_own hown).symm.trans hrow)
    | some r =>
      have hr : r = row := by simpa [Store.commit, Txn.view, hown] using hrow
      subst hr
      rcases hok.own_or_new j r hown with hj | ⟨-, hq⟩
      · rw [htaken] at hj
        obtain ⟨p, hp, rfl⟩ := List.mem_map.mp hj
        obtain ⟨r', hr', hrec⟩ := hok.ran p hp
        obtain rfl : r' = r := by simpa [hown] using hr'.symm
        have hfinal := (queueStatusFor_final p.2).2
        rw [← hrec] at hfinal
        exact hfinal
      · rw [hq]
        simp
  · intro d hd
    rcases List.mem_append.mp hd with hd | hd
    · exact h.finished_taken d hd
    · rw [List.mem_singleton.mp hd]
      exact htaken
  · intro d hd p hp
    rcases List.mem_append.mp hd with hd | hd
    · obtain ⟨row, hrow, hrec⟩ := h.finished_rows d hd p hp
      exact ⟨row, (Store.rows_commit_of_own (hrecorded _ _ _ hrow hrec).2).trans hrow, hrec⟩
    · rw [List.mem_singleton.mp hd] at hp
      obtain ⟨row, hrow, hrec⟩ := hok.ran p hp
      exact ⟨row, by simp [Store.commit, Txn.view, hrow], hrec⟩
  · -- a job of an earlier drain is recorded, so this drain did not take it
    rw [List.flatMap_append, List.flatMap_singleton, List.nodup_append]
    refine ⟨h.finished_nodup, htaken ▸ hok.taken_nodup, ?_⟩
    rintro j hj j' hj' rfl
    obtain ⟨d, hd, hjd⟩ := List.mem_flatMap.mp hj
    obtain ⟨p, hp, rfl⟩ := List.mem_map.mp hjd
    obtain ⟨row, hrow, hrec⟩ := h.finished_rows d hd p hp
    exact (hrecorded _ _ _ hrow hrec).1 (htaken ▸ hj')

theorem candidates_nodup (q : Queue) (t : DrainTxn) : (q.candidates t).Nodup := by
  unfold candidates jobsIn
  exact (List.perm_insertionSort _ _).nodup_iff.mpr (List.nodup_range.filter _)

/-- What a statement of an open drain does, and the phase it is taken in. -/
inductive DrainStep (cap : MaxConcurrentRuns) (q : Queue) (i : Nat) (t : DrainTxn) :
    DrainAct → Queue → Prop where
  | count (hphase : t.data.phase = .started) :
    DrainStep cap q i t .count (q.set i (DrainTxn.count cap (q.jobsIn t .running).length t))
  | select {limit : Int} (hphase : t.data.phase = .counted limit) :
    DrainStep cap q i t .select
      (q.set i (DrainTxn.goto t (.scanning limit.toNat (q.candidates t))))
  | scan {wanted job : Nat} {rest : List Nat}
      (hphase : t.data.phase = .scanning (wanted + 1) (job :: rest)) :
    DrainStep cap q i t .scan
      (q.set i (DrainTxn.scan q.store.rows (q.store.heldByOther i job) wanted job rest t))
  | claim {wanted : Nat} {rest : List Nat} (hphase : t.data.phase = .scanning wanted rest) :
    DrainStep cap q i t .claim (q.set i (DrainTxn.claim q.store.rows t))
  | start {job : Nat} {rest : List Nat} (hphase : t.data.phase = .working (job :: rest)) :
    DrainStep cap q i t .start (q.set i (DrainTxn.start q.store.rows job rest t))
  | enqueue {job : Nat} {rest : List Nat} {agent input : String} {source : Option String}
      (hphase : t.data.phase = .executing job rest) :
    DrainStep cap q i t (.enqueue agent input source)
      { q with
        store := q.store.set i { t with
          own := Function.update t.own q.next (some (.new agent input source t.data.now)) }
        next := q.next + 1 }
  | finish {job : Nat} {rest : List Nat} {envelope : Value}
      (hphase : t.data.phase = .executing job rest) :
    DrainStep cap q i t (.finish envelope)
      (q.set i (DrainTxn.finish q.store.rows job rest envelope t))
  | commit (hphase : t.data.phase = .working []) :
    DrainStep cap q i t .commit
      { q with store := q.store.commit i t, finished := q.finished ++ [t.data] }
  | abort : DrainStep cap q i t .abort { q with store := q.store.abort i }

theorem drainStep_spec {cap : MaxConcurrentRuns} {act : DrainAct}
    (h : q.drainStep cap i t act = some q') : DrainStep cap q i t act q' := by
  -- each statement is taken in one phase
  cases act with
  | count =>
    simp only [Queue.drainStep] at h
    split at h
    · next hphase =>
      obtain rfl := Option.some.inj h
      exact .count hphase
    · cases h
  | select =>
    simp only [Queue.drainStep] at h
    split at h
    · next limit hphase =>
      obtain ⟨-, h⟩ := Option.ite_none_left_eq_some.mp h
      obtain rfl := Option.some.inj h
      exact .select hphase
    · cases h
  | scan =>
    simp only [Queue.drainStep] at h
    split at h
    · next wanted job rest hphase =>
      obtain rfl := Option.some.inj h
      exact .scan hphase
    · cases h
  | claim =>
    simp only [Queue.drainStep] at h
    split at h
    · next wanted rest hphase =>
      obtain ⟨-, h⟩ := Option.ite_none_right_eq_some.mp h
      obtain rfl := Option.some.inj h
      exact .claim hphase
    · cases h
  | start =>
    simp only [Queue.drainStep] at h
    split at h
    · next job rest hphase =>
      obtain rfl := Option.some.inj h
      exact .start hphase
    · cases h
  | enqueue agent input source =>
    simp only [Queue.drainStep] at h
    split at h
    · next job rest hphase =>
      obtain rfl := Option.some.inj h
      exact .enqueue hphase
    · cases h
  | finish envelope =>
    simp only [Queue.drainStep] at h
    split at h
    · next job rest hphase =>
      obtain rfl := Option.some.inj h
      exact .finish hphase
    · cases h
  | commit =>
    simp only [Queue.drainStep] at h
    split at h
    · next hphase =>
      obtain rfl := Option.some.inj h
      exact .commit hphase
    · cases h
  | abort =>
    obtain rfl := Option.some.inj h
    exact .abort

/-- **One statement** of a drain keeps the invariant. -/
theorem Inv.drainStep (h : Inv q) (cap : MaxConcurrentRuns) (ht : q.store.txns i = some t)
    {act : DrainAct} (hstep : q.drainStep cap i t act = some q') : Inv q' := by
  have hok := h.drains i t ht
  cases drainStep_spec hstep with
  | count hphase =>
    refine h.set ht (hok.count hphase cap _) ?_ ?_ ?_ <;>
      (unfold DrainTxn.count DrainTxn.goto; dsimp only; split <;> simp_all)
  | select hphase =>
    exact h.set ht (hok.select hphase _ (q.candidates_nodup t)) (fun k hk => .inl hk)
      (fun k hk => hk) (fun k hk => .inl hk)
  | @scan wanted job rest hphase =>
    obtain ⟨hheld, hkeep, hown⟩ :=
      DrainTxn.held_scan q.store.rows (q.store.heldByOther i job) wanted job rest t
    refine h.set ht (hok.scan hphase _) (fun k hk => ?_) hkeep fun k hk => .inl (hown ▸ hk)
    rcases hheld k hk with hold | ⟨rfl, hfree⟩
    · exact .inl hold
    · exact .inr hfree
  | claim hphase =>
    -- the versions it writes are of the rows it has taken, which it holds
    refine h.set ht (hok.claim hphase) (fun k hk => .inl hk) (fun k hk => hk) fun k hk => ?_
    by_cases hk' : k ∈ t.data.taken
    · exact .inr hk'
    · exact .inl (by simpa [DrainTxn.claim, hk'] using hk)
  | start hphase =>
    refine h.set ht (hok.start hphase) (fun k hk => .inl hk) (fun k hk => hk) fun k hk => ?_
    rcases DrainTxn.own_of_update hk with hold | rfl
    · exact .inl hold
    · exact .inr (hok.job_taken (.inl hphase))
  | enqueue hphase => exact h.enqueueIn ht hphase _ rfl
  | @finish job rest envelope hphase =>
    refine h.set ht (hok.finish hphase envelope) (fun k hk => .inl hk) (fun k hk => hk)
      fun k hk => ?_
    rcases DrainTxn.own_of_update hk with hold | rfl
    · exact .inl hold
    · exact .inr (hok.job_taken (.inr hphase))
  | commit hphase => exact h.commit ht hphase
  | abort => exact h.abort i

/-- **One step** keeps the invariant. -/
theorem inv_step (cap : MaxConcurrentRuns) (h : Inv q) {act : QueueAct}
    (hstep : q.step cap act = some q') : Inv q' := by
  cases act with
  | enqueue agent input source now =>
    cases hstep
    exact h.insertRow _ rfl
  | begin maxJobs now =>
    cases hstep
    exact h.begin maxJobs now
  | drain i act =>
    rw [step] at hstep
    split at hstep
    · cases hstep
    · rename_i t ht
      exact h.drainStep cap ht hstep

/-- **Every run** keeps the invariant. -/
theorem inv_run {cap : MaxConcurrentRuns} {acts : List QueueAct}
    (h : runActs (step cap) init acts = some q) : Inv q :=
  runActs_invariant (fun _ _ _ _ hinv hstep => inv_step cap hinv hstep)
    (along_of_forall (P := fun _ => True) (fun _ _ => trivial) init) inv_init h

/-! ### Claimed once, ended truthfully -/

/-- **The jobs of the queue**, in every run.  No job is run twice by drains that committed.  Each job that
a committed drain claimed was run, and its row says whether the run completed.  When a drain aborts, the
jobs it had claimed are `queued` and locked by no one. -/
theorem jobs_exclusive_and_truthful (cap : MaxConcurrentRuns) (acts : List QueueAct) (q : Queue)
    (hrun : runActs (step cap) init acts = some q) :
    (q.finished.flatMap Drain.jobs).Nodup ∧
    (∀ d ∈ q.finished, d.taken = d.jobs ∧ ∀ p ∈ d.runs, ∃ row, q.store.rows p.1 = some row ∧
      (row.status = .done ∧ row.error = none ↔ Completed p.2) ∧
      (¬ Completed p.2 → row.status = .error ∧ row.error ≠ none)) ∧
    (∀ i t q', q.store.txns i = some t → q.step cap (.drain i .abort) = some q' →
      ∀ j ∈ t.data.taken, (q'.store.rows j).map QueueRow.status = some .queued ∧
        ∀ i' t', q'.store.txns i' = some t' → j ∉ t'.held) := by
  have hinv := inv_run hrun
  refine ⟨hinv.finished_nodup, fun d hd => ⟨hinv.finished_taken d hd, fun p hp => ?_⟩, ?_⟩
  · obtain ⟨row, hrow, hrec⟩ := hinv.finished_rows d hd p hp
    refine ⟨row, hrow, ?_⟩
    by_cases hc : Completed p.2
    · rw [QueueRow.Records, queueStatusFor_completed hc, Prod.mk.injEq] at hrec
      exact ⟨iff_of_true hrec hc, fun hn => absurd hc hn⟩
    · obtain ⟨reason, hreason⟩ := queueStatusFor_other hc
      rw [QueueRow.Records, hreason, Prod.mk.injEq] at hrec
      exact ⟨by simp [hrec.1, hc], fun _ => ⟨hrec.1, by simp [hrec.2]⟩⟩
  · intro i t q' ht hstep j hj
    have hok := hinv.drains i t ht
    simp only [step, ht, drainStep, Option.some.injEq] at hstep
    subst hstep
    refine ⟨hok.taken_queued j hj, fun i' t' ht' => ?_⟩
    obtain ⟨hne, ht'⟩ := Store.txns_abort q.store i ht'
    exact hinv.store.exclusive i i' t t' j (Ne.symm hne) ht ht' (hok.taken_held j hj)

/-- A ceiling of one. -/
def capOne : MaxConcurrentRuns := ⟨1, by decide, by decide⟩

/-- A drain up to the job it executes. -/
def claimActs (i scans : Nat) : List QueueAct :=
  [.drain i .count, .drain i .select] ++ List.replicate scans (.drain i .scan) ++
    [.drain i .claim, .drain i .start]

/-- One job, run to its end by one drain. -/
def oneJob : List QueueAct :=
  [.enqueue "clerk" "a" none 0, .begin 10 1] ++ claimActs 0 1 ++
    [.drain 0 (.finish (.obj [("status", .string "completed")])), .drain 0 .commit]

theorem one_job_done :
    ∃ q, runActs (step capOne) init oneJob = some q ∧ q.finished.length = 1 ∧
      (q.finished.flatMap Drain.jobs).Nodup := by
  obtain ⟨q, hq, hlen⟩ : ∃ q, runActs (step capOne) init oneJob = some q ∧
      q.finished.length = 1 := by
    refine ⟨_, rfl, ?_⟩
    rfl
  exact ⟨q, hq, hlen, (jobs_exclusive_and_truthful capOne oneJob q hq).1⟩

end Queue

end PgSynapse
