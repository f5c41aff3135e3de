import PgSynapse.Pgrx.Equiv.Queue
import Mathlib.Data.Finset.Card

/-!
# How many jobs run at once

A drain executes its jobs one after another, so the jobs in execution are the drains in a job.  The
count that is to keep them below `pg_synapse.max_concurrent_runs` looks for rows in status `running`,
and those of other drains have not committed.
-/

namespace PgSynapse

namespace Queue

variable {q q' : Queue} {i : Nat} {t t' : DrainTxn}

/-- No drain that counts sees a `running` row: the marks of others have not committed. -/
theorem jobsIn_running (h : Inv q) (ht : q.store.txns i = some t)
    (hphase : t.data.phase = .started) : q.jobsIn t .running = [] := by
  have hidle := (h.drains i t ht).phase
  rw [DrainTxn.PhaseOk, hphase] at hidle
  rw [jobsIn, List.filter_eq_nil_iff]
  intro j _ hj
  rw [Txn.view, hidle.2.2 j, Option.none_or] at hj
  cases hrow : q.store.rows j with
  | none => simp [hrow] at hj
  | some row => exact h.not_running j row hrow (by simpa [hrow] using hj)

/-- A drain in a job. -/
def isExecuting (t : DrainTxn) : Bool :=
  match t.data.phase with
  | .executing _ _ => true
  | _ => false

/-- A drain with claimed jobs still to run, or in a job. -/
def isBusy (t : DrainTxn) : Bool :=
  match t.data.phase with
  | .executing _ _ => true
  | .working (_ :: _) => true
  | _ => false

/-- The open drains that satisfy a test. -/
def those (q : Queue) (test : DrainTxn → Bool) : Finset Nat :=
  (Finset.range q.store.bound).filter fun i => (q.store.txns i).any test = true

/-- The number of jobs being executed. -/
def executing (q : Queue) : Nat := (q.those isExecuting).card

/-- The condition on a claim: it takes no jobs, or fewer drains than the ceiling allows are busy with
jobs they claimed. -/
def ClaimsBelow (cap : MaxConcurrentRuns) (q : Queue) : QueueAct → Prop
  | .drain i .claim => ∀ t, q.store.txns i = some t → t.data.taken ≠ [] →
      ((q.those isBusy).erase i).card < cap.val
  | _ => True

theorem mem_those {test : DrainTxn → Bool} :
    i ∈ q.those test ↔ i < q.store.bound ∧ ∃ t, q.store.txns i = some t ∧ test t = true := by
  rw [those, Finset.mem_filter, Finset.mem_range]
  cases q.store.txns i <;> simp

/-- A drain that goes on without claiming is busy only if it was. -/
theorem those_set (ht : q.store.txns i = some t) (hbusy : isBusy t' = true → isBusy t = true) :
    (q.set i t').those isBusy ⊆ q.those isBusy := by
  intro j hj
  rw [mem_those] at hj ⊢
  obtain ⟨hlt, u, hu, hb⟩ := hj
  rcases Store.txns_set q.store i t' hu with ⟨rfl, rfl⟩ | ⟨-, hu'⟩
  · exact ⟨hlt, t, ht, hbusy hb⟩
  · exact ⟨hlt, u, hu', hb⟩

theorem those_abort (q : Queue) (i : Nat) :
    ({ q with store := q.store.abort i } : Queue).those isBusy ⊆ q.those isBusy := by
  intro j hj
  rw [mem_those] at hj ⊢
  obtain ⟨hlt, u, hu, hb⟩ := hj
  exact ⟨hlt, u, (Store.txns_abort q.store i hu).2, hb⟩

/-- A claim makes at most its own drain busy. -/
theorem those_claim (ht : q.store.txns i = some t) :
    (q.set i t').those isBusy ⊆ insert i ((q.those isBusy).erase i) := by
  intro j hj
  rw [mem_those] at hj
  obtain ⟨hlt, u, hu, hb⟩ := hj
  rcases Store.txns_set q.store i t' hu with ⟨rfl, -⟩ | ⟨hne, hu'⟩
  · exact Finset.mem_insert_self _ _
  · exact Finset.mem_insert_of_mem (Finset.mem_erase.mpr ⟨hne, mem_those.mpr ⟨hlt, u, hu', hb⟩⟩)

/-- The statements other than the claim make no drain busy that was not. -/
theorem those_drainStep {cap : MaxConcurrentRuns} (ht : q.store.txns i = some t) {act : DrainAct}
    (hact : act ≠ .claim) (hstep : q.drainStep cap i t act = some q') :
    q'.those isBusy ⊆ q.those isBusy := by
  cases drainStep_spec hstep with
  | count hphase =>
    refine those_set ht fun hb => ?_
    unfold DrainTxn.count DrainTxn.goto at hb
    dsimp only at hb
    split at hb <;> cases hb
  | select hphase => exact those_set ht fun hb => by cases hb
  | scan hphase =>
    refine those_set ht fun hb => ?_
    unfold DrainTxn.scan DrainTxn.goto at hb
    split at hb
    · cases hb
    · split at hb <;> cases hb
  | claim hphase => exact absurd rfl hact
  | start hphase => exact those_set ht fun _ => by simp [isBusy, hphase]
  | @enqueue job rest agent input source hphase =>
    -- its own version of the new row does not touch its phase
    let row := QueueRow.new agent input source t.data.now
    have hset : (q.set i { t with own := Function.update t.own q.next (some row) }).those isBusy ⊆
        q.those isBusy := those_set ht fun hb => hb
    exact fun j hj => hset hj
  | finish hphase => exact those_set ht fun _ => by simp [isBusy, hphase]
  | commit hphase => exact fun j hj => those_abort q i hj
  | abort => exact those_abort q i

/-- **One step** under the condition keeps the busy drains below the ceiling. -/
theorem those_step {cap : MaxConcurrentRuns} {act : QueueAct} (hact : ClaimsBelow cap q act)
    (hle : (q.those isBusy).card ≤ cap.val) (hstep : q.step cap act = some q') :
    (q'.those isBusy).card ≤ cap.val := by
  cases act with
  | enqueue agent input source now =>
    cases hstep
    exact hle
  | begin maxJobs now =>
    cases hstep
    refine (Finset.card_le_card fun j hj => ?_).trans hle
    rw [mem_those] at hj ⊢
    obtain ⟨hlt, u, hu, hb⟩ := hj
    by_cases hj : j = q.store.bound
    -- the new drain is not busy
    · subst hj
      simp only [Store.beginTxn, Function.update_self, Option.some.injEq] at hu
      subst hu
      cases hb
    · simp only [Store.beginTxn, Function.update_of_ne hj] at hu
      exact ⟨Nat.lt_of_le_of_ne (Nat.le_of_lt_succ hlt) hj, u, hu, hb⟩
  | drain i act =>
    rw [step] at hstep
    split at hstep
    · cases hstep
    rename_i t ht
    by_cases hclaim : act = .claim
    · subst hclaim
      cases drainStep_spec hstep with
      | claim hphase =>
        by_cases htaken : t.data.taken = []
        · -- a claim without jobs leaves its drain idle
          refine (Finset.card_le_card (those_set ht fun hb => ?_)).trans hle
          rw [isBusy, DrainTxn.claim, DrainTxn.goto, htaken] at hb
          cases hb
        · calc ((q.set i (DrainTxn.claim q.store.rows t)).those isBusy).card
              ≤ (insert i ((q.those isBusy).erase i)).card := Finset.card_le_card (those_claim ht)
            _ ≤ ((q.those isBusy).erase i).card + 1 := Finset.card_insert_le _ _
            _ ≤ cap.val := hact t ht htaken
    · exact (Finset.card_le_card (those_drainStep ht hclaim hstep)).trans hle

/-- **The ceiling**: in every run in which each claim that takes jobs finds fewer than
`max_concurrent_runs` other drains busy, no more than that many jobs are executed at once. -/
theorem executing_le_of_claimsBelow (cap : MaxConcurrentRuns) (acts : List QueueAct) (q : Queue)
    (hacts : Along (step cap) (ClaimsBelow cap) init acts)
    (hrun : runActs (step cap) init acts = some q) : q.executing ≤ cap.val := by
  have hbusy : (q.those isBusy).card ≤ cap.val :=
    runActs_invariant (fun _ _ _ ha hle hs => those_step ha hle hs) hacts (Nat.zero_le _) hrun
  refine (Finset.card_le_card fun j hj => ?_).trans hbusy
  rw [mem_those] at hj ⊢
  obtain ⟨hlt, u, hu, he⟩ := hj
  refine ⟨hlt, u, hu, ?_⟩
  unfold isExecuting at he
  unfold isBusy
  split at he
  · rename_i hphase
    rw [hphase]
  · cases he

/-- One drain after another stays below a ceiling of one. -/
theorem one_drain_at_once : ∃ q, runActs (step capOne) init oneJob = some q ∧ q.executing ≤ 1 := by
  obtain ⟨q, hq⟩ : ∃ q, runActs (step capOne) init oneJob = some q := ⟨_, rfl⟩
  have halong : Along (step capOne) (ClaimsBelow capOne) init oneJob := by
    refine .cons trivial rfl (.cons trivial rfl (.cons trivial rfl (.cons trivial rfl
      (.cons trivial rfl (.cons ?_ rfl (.cons trivial rfl (.cons trivial rfl (.cons trivial rfl
        trivial))))))))
    intro t _ _
    decide
  exact ⟨q, hq, executing_le_of_claimsBelow capOne oneJob q halong hq⟩

/-! ### Two sessions -/

/-- Two jobs, and two drains one of which begins while the other is in its job. -/
def twoSessions : List QueueAct :=
  [.enqueue "clerk" "a" none 0, .enqueue "clerk" "b" none 1, .begin 10 2] ++ claimActs 0 1 ++
    [.begin 10 3] ++ claimActs 1 2

/-- With a ceiling of one, two jobs are executed at once. -/
theorem two_sessions_exceed :
    ∃ q, runActs (step capOne) init twoSessions = some q ∧ ¬ q.executing ≤ capOne.val := by
  refine ⟨_, rfl, ?_⟩
  decide

end Queue

end PgSynapse
