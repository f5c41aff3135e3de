import PgSynapse.Pgrx.Equiv.QueueCeiling
import Mathlib.Data.Finset.SDiff

/-!
# No job starves

A drain takes the oldest of the jobs that are queued.  While drains run one at a time, each to its
commit, and jobs are enqueued at any moment, a job is run once these drains have had more places
than there were other jobs not younger than it (`no_starvation`).
-/

namespace PgSynapse

namespace Queue

variable {q q' q'' : Queue} {i j k since n : Nat} {t t' : DrainTxn}

/-! ### Waiting -/

/-- The job waits in the queue since a time. -/
def Waiting (q : Queue) (since j : Nat) : Prop :=
  ∃ row, q.store.rows j = some row ∧ row.status = .queued ∧ row.enqueuedAt = since

/-- The job has been run. -/
def Terminal (q : Queue) (j : Nat) : Prop :=
  ∃ row, q.store.rows j = some row ∧ (row.status = .done ∨ row.status = .error)

/-- The row waits, and is not younger. -/
def notYounger (since : Nat) (row : QueueRow) : Bool :=
  row.status = .queued && row.enqueuedAt ≤ since

/-- The jobs that may be taken before a job: the others that wait and are not younger. -/
def ahead (q : Queue) (since j : Nat) : Finset Nat :=
  (Finset.range q.next).filter fun k => k ≠ j ∧ (q.store.rows k).any (notYounger since) = true

theorem mem_ahead (h : Inv q) : k ∈ q.ahead since j ↔
    k ≠ j ∧ ∃ row, q.store.rows k = some row ∧ row.status = .queued ∧ row.enqueuedAt ≤ since := by
  rw [ahead, Finset.mem_filter, Finset.mem_range]
  constructor
  · rintro ⟨-, hne, hany⟩
    obtain ⟨row, hrow, hold⟩ := (Option.any_eq_true ..).mp hany
    exact ⟨hne, row, hrow, by simpa [notYounger] using hold⟩
  · rintro ⟨hne, row, hrow, hold⟩
    refine ⟨?_, hne, by simp [hrow, notYounger, hold]⟩
    -- beyond the counter there are no rows
    by_contra hge
    rw [(h.fresh k (Nat.le_of_not_lt hge)).1] at hrow
    cases hrow

/-- The row of a job that was run has a terminal status. -/
theorem records_terminal {row : QueueRow} {envelope : Value} (h : row.Records envelope) :
    row.status = .done ∨ row.status = .error := by
  have hstatus : row.status = (queueStatusFor envelope).1 := congrArg Prod.fst h
  by_cases hc : Completed envelope
  · exact .inl (hstatus.trans (queueStatusFor_done_iff.mpr hc))
  · obtain ⟨reason, hreason⟩ := queueStatusFor_other hc
    exact .inr (hstatus.trans (congrArg Prod.fst hreason))

/-- The rows differ by younger jobs only. -/
def Grows (since : Nat) (q q' : Queue) : Prop :=
  ∀ k, q'.store.rows k = q.store.rows k ∨
    (q.store.rows k = none ∧ ∀ row, q'.store.rows k = some row → since < row.enqueuedAt)

theorem Grows.of_rows (h : q'.store.rows = q.store.rows) : Grows since q q' :=
  fun k => .inl (congrFun h k)

theorem Grows.trans (h : Grows since q q') (h' : Grows since q' q'') : Grows since q q'' := by
  intro k
  rcases h k, h' k with ⟨hsame | ⟨hnone, hyoung⟩, hsame' | ⟨hnone', hyoung'⟩⟩
  · exact .inl (hsame'.trans hsame)
  · exact .inr ⟨hsame ▸ hnone', hyoung'⟩
  · exact .inr ⟨hnone, fun row hrow => hyoung row (hsame' ▸ hrow)⟩
  · exact .inr ⟨hnone, hyoung'⟩

theorem Grows.get (h : Grows since q q') {row : QueueRow} (hrow : q.store.rows k = some row) :
    q'.store.rows k = some row := by
  rcases h k with hsame | ⟨hnone, -⟩
  · exact hsame.trans hrow
  · rw [hnone] at hrow
    cases hrow

theorem Grows.waiting (h : Grows since q q') (hj : q.Waiting since j) : q'.Waiting since j := by
  obtain ⟨row, hrow, hqueued⟩ := hj
  exact ⟨row, h.get hrow, hqueued⟩

theorem Grows.terminal (h : Grows since q q') (hj : q.Terminal j) : q'.Terminal j := by
  obtain ⟨row, hrow, hstatus⟩ := hj
  exact ⟨row, h.get hrow, hstatus⟩

/-- Younger jobs are not ahead. -/
theorem Grows.ahead_eq (h : Grows since q q') (hq : Inv q) (hq' : Inv q') :
    q'.ahead since j = q.ahead since j := by
  ext k
  rw [mem_ahead hq', mem_ahead hq]
  refine and_congr_right fun _ => ?_
  rcases h k with hsame | ⟨hnone, hyoung⟩
  · rw [hsame]
  · rw [hnone]
    constructor
    · rintro ⟨row, hrow, -, hle⟩
      exact absurd (hyoung row hrow) (Nat.not_lt.mpr hle)
    · rintro ⟨row, hrow, -⟩
      cases hrow

/-- A job enqueued at a later time. -/
def Late (since : Nat) : QueueAct → Prop
  | .enqueue _ _ _ now => since < now
  | _ => False

theorem late_step {cap : MaxConcurrentRuns} (hinv : Inv q) {act : QueueAct} (hlate : Late since act)
    (hstep : q.step cap act = some q') :
    Grows since q q' ∧ q'.store.txns = q.store.txns ∧ q'.store.bound = q.store.bound := by
  cases act with
  | enqueue agent input source now =>
    cases hstep
    refine ⟨fun k => ?_, rfl, rfl⟩
    by_cases hk : k = q.next
    · subst hk
      refine .inr ⟨(hinv.fresh q.next (Nat.le_refl _)).1, fun row hrow => ?_⟩
      simp only [Store.insertRow, Function.update_self] at hrow
      rw [← Option.some.inj hrow]
      exact hlate
    · exact .inl (Function.update_of_ne hk ..)
  | begin maxJobs now => exact absurd hlate id
  | drain i act => exact absurd hlate id

/-! ### A claim -/

/-- The time a job was enqueued. -/
def age (q : Queue) (k : Nat) : Nat := ((q.store.rows k).map QueueRow.enqueuedAt).getD 0

/-- A claim on its way: the jobs taken and the candidates left are the jobs that wait, oldest
first, and places are left for as many as were asked for. -/
structure Claiming (q : Queue) (n j : Nat) (taken : List Nat) (wanted : Nat)
    (rest : List Nat) : Prop where
  places : n ≤ taken.length + wanted
  waits : j ∈ taken ++ rest
  queued : ∀ k ∈ taken ++ rest, (q.store.rows k).map QueueRow.status = some .queued
  sorted : (taken ++ rest).Pairwise fun k l => q.age k ≤ q.age l

/-- The jobs a claim has taken serve a job: it is one of them, or they fill the places and were all
ahead of it. -/
def Served (a : Finset Nat) (n j : Nat) (taken : List Nat) : Prop :=
  j ∈ taken ∨ (n ≤ taken.length ∧ ∀ k ∈ taken, k ∈ a)

/-- The end of a claim. -/
theorem Claiming.served {taken rest : List Nat} {wanted : Nat} (hinv : Inv q)
    (h : Claiming q n j taken wanted rest) (hj : q.Waiting since j)
    (hend : wanted = 0 ∨ rest = []) : Served (q.ahead since j) n j taken := by
  by_cases hmem : j ∈ taken
  · exact .inl hmem
  have hrest : j ∈ rest := (List.mem_append.mp h.waits).resolve_left hmem
  have hzero : wanted = 0 := hend.resolve_right (List.ne_nil_of_mem hrest)
  refine .inr ⟨by simpa [hzero] using h.places, fun k hk => ?_⟩
  have hage : q.age k ≤ q.age j := (List.pairwise_append.mp h.sorted).2.2 k hk j hrest
  obtain ⟨row, hrow, -, hsince⟩ := hj
  obtain ⟨row', hrow', hqueued⟩ :=
    Option.map_eq_some_iff.mp (h.queued k (List.mem_append_left _ hk))
  refine (mem_ahead hinv).mpr ⟨fun heq => hmem (heq ▸ hk), row', hrow', hqueued, ?_⟩
  have hle : row'.enqueuedAt ≤ row.enqueuedAt := by simpa [age, hrow, hrow'] using hage
  omega

theorem Claiming.grows {taken rest : List Nat} {wanted : Nat}
    (h : Claiming q n j taken wanted rest) (hgrows : Grows since q q') :
    Claiming q' n j taken wanted rest := by
  have hsame : ∀ k ∈ taken ++ rest, q'.store.rows k = q.store.rows k := by
    intro k hk
    obtain ⟨row, hrow, -⟩ := Option.map_eq_some_iff.mp (h.queued k hk)
    rw [hgrows.get hrow, hrow]
  refine ⟨h.places, h.waits, fun k hk => ?_, ?_⟩
  · rw [hsame k hk]
    exact h.queued k hk
  · refine h.sorted.imp_of_mem fun hk hl hle => ?_
    unfold age
    rw [hsame _ hk, hsame _ hl]
    exact hle

/-- The claim takes its next candidate. -/
theorem Claiming.take {taken rest : List Nat} {wanted job : Nat}
    (h : Claiming q n j taken (wanted + 1) (job :: rest)) :
    Claiming q n j (taken ++ [job]) wanted rest := by
  have hlist : taken ++ [job] ++ rest = taken ++ job :: rest := by simp
  have hplaces := h.places
  refine ⟨?_, hlist ▸ h.waits, hlist ▸ h.queued, hlist ▸ h.sorted⟩
  rw [List.length_append, List.length_singleton]
  omega

/-- The snapshot of a claim. -/
theorem claiming_candidates (hinv : Inv q) (hown : ∀ k, t.own k = none) (hj : q.Waiting since j) :
    Claiming q n j [] n (q.candidates t) := by
  have hview : t.view q.store.rows = q.store.rows := by
    funext k
    rw [Txn.view, hown, Option.none_or]
  have hmem : ∀ k, k ∈ q.candidates t ↔
      k < q.next ∧ (q.store.rows k).map QueueRow.status = some .queued := by
    intro k
    unfold candidates jobsIn
    rw [(List.perm_insertionSort _ _).mem_iff, List.mem_filter, List.mem_range, hview]
    simp
  refine ⟨Nat.le_add_left n _, ?_, fun k hk => ((hmem k).mp hk).2, ?_⟩
  · obtain ⟨row, hrow, hqueued, -⟩ := hj
    refine (hmem j).mpr ⟨?_, by rw [hrow]; exact congrArg some hqueued⟩
    by_contra hge
    rw [(hinv.fresh j (Nat.le_of_not_lt hge)).1] at hrow
    cases hrow
  · have hsorted : (q.candidates t).Pairwise fun k l =>
        ((t.view q.store.rows k).map QueueRow.enqueuedAt).getD 0 ≤
          ((t.view q.store.rows l).map QueueRow.enqueuedAt).getD 0 :=
      List.pairwise_insertionSort _ _
    rw [hview] at hsorted
    exact hsorted

/-! ### One drain alone -/

/-- No drain but one is open. -/
def Alone (q : Queue) (i : Nat) : Prop := ∀ k, k ≠ i → q.store.txns k = none

/-- No drain is open. -/
def Idle (q : Queue) : Prop := ∀ k < q.store.bound, q.store.txns k = none

instance (q : Queue) : Decidable q.Idle :=
  inferInstanceAs (Decidable (∀ k < q.store.bound, q.store.txns k = none))

/-- How far a drain has come in serving a job. -/
def Progress (q : Queue) (t : DrainTxn) (a : Finset Nat) (n j : Nat) : Prop :=
  match t.data.phase with
  | .started => True
  | .counted limit => limit.toNat = n
  | .scanning wanted rest => Claiming q n j t.data.taken wanted rest
  | .working _ => Served a n j t.data.taken
  | .executing _ _ => Served a n j t.data.taken

/-- A drain that runs alone, with places for `n` jobs, while a job waits behind those of `a`. -/
structure Serving (cap : MaxConcurrentRuns) (since n j : Nat) (a : Finset Nat) (i : Nat) (q : Queue)
    (t : DrainTxn) : Prop where
  isOpen : q.store.txns i = some t
  alone : q.Alone i
  places : (min t.data.maxJobs cap.val).toNat = n
  later : since < t.data.now
  young : ∀ k row, t.own k = some row → k ∈ t.data.taken ∨ since < row.enqueuedAt
  waits : q.Waiting since j
  behind : q.ahead since j = a
  progress : q.Progress t a n j

/-- A round is over: the job has been run, or as many of those ahead of it as there were places. -/
structure Over (since n j : Nat) (a : Finset Nat) (q : Queue) : Prop where
  idle : q.Idle
  served : q.Terminal j ∨ (q.Waiting since j ∧ (q.ahead since j).card + n ≤ a.card)

section Alone

variable {cap : MaxConcurrentRuns} {a : Finset Nat}

theorem Alone.heldByOther (h : q.Alone i) (k : Nat) : q.store.heldByOther i k = false := by
  rw [Store.heldByOther, List.any_eq_false]
  intro j _ hany
  rw [Bool.and_eq_true, bne_iff_ne] at hany
  rw [h j hany.1] at hany
  exact absurd hany.2 (by simp)

theorem Alone.set (h : q.Alone i) (t : DrainTxn) : (q.set i t).Alone i :=
  fun k hk => (Function.update_of_ne hk ..).trans (h k hk)

theorem Progress.grows (h : q.Progress t a n j) (hgrows : Grows since q q') :
    q'.Progress t a n j := by
  unfold Progress at h ⊢
  cases hphase : t.data.phase with
  | scanning wanted rest =>
    rw [hphase] at h
    exact h.grows hgrows
  | _ =>
    rw [hphase] at h
    exact h

/-- The drain goes on, on the same rows. -/
theorem Serving.set (h : Serving cap since n j a i q t) (hmax : t'.data.maxJobs = t.data.maxJobs)
    (hnow : t'.data.now = t.data.now)
    (hyoung : ∀ k row, t'.own k = some row → k ∈ t'.data.taken ∨ since < row.enqueuedAt)
    (hprogress : q.Progress t' a n j) : Serving cap since n j a i (q.set i t') t' where
  isOpen := Function.update_self ..
  alone := h.alone.set t'
  places := by rw [hmax, h.places]
  later := by rw [hnow]; exact h.later
  young := hyoung
  waits := h.waits
  behind := h.behind
  progress := by
    have hsame : Grows since q (q.set i t') := Grows.of_rows rfl
    exact hprogress.grows hsame

/-- Another session enqueues a younger job. -/
theorem Serving.grows (h : Serving cap since n j a i q t) (hinv : Inv q) (hinv' : Inv q')
    (hgrows : Grows since q q') (htxns : q'.store.txns = q.store.txns) :
    Serving cap since n j a i q' t where
  isOpen := by rw [htxns, h.isOpen]
  alone k hk := by rw [htxns, h.alone k hk]
  places := h.places
  later := h.later
  young := h.young
  waits := hgrows.waiting h.waits
  behind := (hgrows.ahead_eq hinv hinv').trans h.behind
  progress := h.progress.grows hgrows

theorem update_of_ne (rows : Nat → Option QueueRow) {job : Nat} (hk : k ≠ job)
    (f : QueueRow → QueueRow) : DrainTxn.update t rows job f k = t.own k := by
  unfold DrainTxn.update
  cases t.view rows job with
  | none => rfl
  | some row => exact Function.update_of_ne hk ..

/-- The drain writes to a row it has taken. -/
theorem Serving.young_update (h : Serving cap since n j a i q t) {job : Nat}
    (hjob : job ∈ t.data.taken) (f : QueueRow → QueueRow) (k : Nat) (row : QueueRow)
    (hrow : DrainTxn.update t q.store.rows job f k = some row) :
    k ∈ t.data.taken ∨ since < row.enqueuedAt := by
  by_cases hk : k = job
  · exact .inl (hk ▸ hjob)
  · rw [update_of_ne q.store.rows hk] at hrow
    exact h.young k row hrow

/-- **The commit** of a drain that has served a job. -/
theorem Serving.commit (h : Serving cap since n j a i q t) (hinv : Inv q)
    (hphase : t.data.phase = .working []) :
    Over since n j a { q with
      store := q.store.commit i t, finished := q.finished ++ [t.data] } := by
  have hok := hinv.drains i t h.isOpen
  have hinv' := hinv.commit h.isOpen hphase
  have hwork := hok.phase
  rw [DrainTxn.PhaseOk, hphase] at hwork
  have htaken : t.data.taken = t.data.jobs := by simpa using hwork.1
  have hrun : ∀ k ∈ t.data.taken, ∃ row, t.own k = some row ∧
      (row.status = .done ∨ row.status = .error) := by
    intro k hk
    rw [htaken] at hk
    obtain ⟨p, hp, rfl⟩ := List.mem_map.mp hk
    obtain ⟨row, hrow, hrecords⟩ := hok.ran p hp
    exact ⟨row, hrow, records_terminal hrecords⟩
  generalize hq' : ({ q with store := q.store.commit i t, finished := q.finished ++ [t.data] } :
    Queue) = q' at hinv' ⊢
  have hrows : ∀ k, q'.store.rows k = (t.own k).or (q.store.rows k) := by
    subst hq'
    exact fun _ => rfl
  have hidle : q'.Idle := by
    subst hq'
    intro k _
    by_cases hk : k = i
    · exact hk ▸ Function.update_self ..
    · exact (Function.update_of_ne hk ..).trans (h.alone k hk)
  clear hq'
  -- a row that the drain has not taken is as it was, or a younger one
  have hother : ∀ k ∉ t.data.taken, q'.store.rows k = q.store.rows k ∨
      (q.store.rows k = none ∧ ∀ row, q'.store.rows k = some row → since < row.enqueuedAt) := by
    intro k hk
    rw [hrows]
    cases hown : t.own k with
    | none => exact .inl rfl
    | some row =>
      refine .inr ⟨((hok.own_or_new k row hown).resolve_left hk).1, fun row' hrow' => ?_⟩
      rw [← Option.some.inj hrow']
      exact (h.young k row hown).resolve_left hk
  have hserved : Served a n j t.data.taken := by
    have hprogress := h.progress
    rw [Progress, hphase] at hprogress
    exact hprogress
  refine ⟨hidle, ?_⟩
  by_cases hj : j ∈ t.data.taken
  · obtain ⟨row, hrow, hstatus⟩ := hrun j hj
    exact .inl ⟨row, by rw [hrows, hrow, Option.some_or], hstatus⟩
  obtain ⟨hfull, hahead⟩ := hserved.resolve_left hj
  have hwaits : q'.Waiting since j := by
    obtain ⟨row, hrow, hqueued⟩ := h.waits
    rcases hother j hj with hsame | ⟨hnone, -⟩
    · exact ⟨row, hsame.trans hrow, hqueued⟩
    · rw [hnone] at hrow
      cases hrow
  refine .inr ⟨hwaits, ?_⟩
  have hsub : q'.ahead since j ⊆ a \ t.data.taken.toFinset := by
    intro k hk
    obtain ⟨hne, row, hrow, hqueued, hold⟩ := (mem_ahead hinv').mp hk
    have hnot : k ∉ t.data.taken := by
      intro hmem
      obtain ⟨row', hrow', hstatus⟩ := hrun k hmem
      rw [hrows, hrow', Option.some_or] at hrow
      rw [Option.some.inj hrow, hqueued] at hstatus
      simp at hstatus
    rw [Finset.mem_sdiff, List.mem_toFinset]
    refine ⟨?_, hnot⟩
    rcases hother k hnot with hsame | ⟨-, hyoung⟩
    · rw [← h.behind]
      exact (mem_ahead hinv).mpr ⟨hne, row, hsame ▸ hrow, hqueued, hold⟩
    · exact absurd (hyoung row hrow) (Nat.not_lt.mpr hold)
  have htook : t.data.taken.toFinset ⊆ a := fun k hk => hahead k (List.mem_toFinset.mp hk)
  have hcard := Finset.card_le_card hsub
  rw [Finset.card_sdiff_of_subset htook, List.toFinset_card_of_nodup hok.taken_nodup] at hcard
  have hle : t.data.taken.toFinset.card ≤ a.card := Finset.card_le_card htook
  rw [List.toFinset_card_of_nodup hok.taken_nodup] at hle
  omega

theorem count_zero (cap : MaxConcurrentRuns) (t : DrainTxn) :
    DrainTxn.count cap 0 t = DrainTxn.goto t (.counted (min t.data.maxJobs cap.val)) := by
  have hroom : max ((cap.val : Int) - (0 : Nat)) 0 = cap.val := by omega
  have hpos : (cap.val : Int) ≠ 0 := by
    have hone := cap.one_le
    omega
  unfold DrainTxn.count
  simp only [hroom, hpos, if_false]

/-- **One statement** of a drain that runs alone: it goes on to serve the job, or it has. -/
theorem Serving.step (h : Serving cap since n j a i q t) (hinv : Inv q) {act : DrainAct}
    (hact : act ≠ .abort) (hstep : q.drainStep cap i t act = some q') :
    (∃ t', Serving cap since n j a i q' t') ∨ Over since n j a q' := by
  have hok := hinv.drains i t h.isOpen
  have hidle := hok.phase
  have hprogress := h.progress
  have hinv' := hinv.drainStep cap h.isOpen hstep
  cases drainStep_spec hstep with
  | count hphase =>
    rw [jobsIn_running hinv h.isOpen hphase, List.length_nil, count_zero]
    exact .inl ⟨_, h.set rfl rfl h.young h.places⟩
  | @select limit hphase =>
    rw [DrainTxn.PhaseOk, hphase] at hidle
    rw [Progress, hphase] at hprogress
    obtain ⟨htaken, -, hown⟩ := hidle
    -- the candidates come in the order of their places, so ours stands right behind those ahead of it
    have hclaim := claiming_candidates (n := n) hinv hown h.waits
    refine .inl ⟨_, h.set rfl rfl h.young ?_⟩
    show Claiming q n j t.data.taken limit.toNat (q.candidates t)
    rw [htaken, hprogress]
    exact hclaim
  | @scan wanted job rest hphase =>
    rw [Progress, hphase] at hprogress
    -- the drain is alone: no other one holds a row, and a queued one is claimed
    have hqueued : (q.store.rows job).map QueueRow.status = some .queued :=
      hprogress.queued job (by simp)
    rw [h.alone.heldByOther job]
    unfold DrainTxn.scan
    rw [if_neg Bool.false_ne_true, if_pos hqueued]
    refine .inl ⟨_, h.set rfl rfl (fun k row hrow => ?_) hprogress.take⟩
    exact (h.young k row hrow).imp_left (List.mem_append_left _)
  | @claim wanted rest hphase =>
    rw [Progress, hphase] at hprogress
    have hend : wanted = 0 ∨ rest = [] := by
      simp only [Queue.drainStep, hphase] at hstep
      exact (Option.ite_none_right_eq_some.mp hstep).1
    have hserved : Served a n j t.data.taken := h.behind ▸ hprogress.served hinv h.waits hend
    refine .inl ⟨_, h.set rfl rfl (fun k row hrow => ?_) hserved⟩
    by_cases hk : k ∈ t.data.taken
    · exact .inl hk
    · simp only [DrainTxn.claim, if_neg hk] at hrow
      exact h.young k row hrow
  | @start job rest hphase =>
    rw [Progress, hphase] at hprogress
    exact .inl ⟨_, h.set rfl rfl (h.young_update (hok.job_taken (.inl hphase)) _) hprogress⟩
  | @enqueue job rest agent input source hphase =>
    -- a job that a run enqueues stands behind all that wait
    have hgrows : Grows since q { q with
        store := q.store.set i { t with
          own := Function.update t.own q.next (some (.new agent input source t.data.now)) }
        next := q.next + 1 } := Grows.of_rows rfl
    refine .inl ⟨_, Function.update_self .., h.alone.set _, h.places, h.later, fun k row hrow => ?_,
      h.waits, (hgrows.ahead_eq hinv hinv').trans h.behind, ?_⟩
    · dsimp only at hrow ⊢
      by_cases hk : k = q.next
      · subst hk
        rw [Function.update_self] at hrow
        rw [← Option.some.inj hrow]
        exact .inr h.later
      · rw [Function.update_of_ne hk] at hrow
        exact h.young k row hrow
    · rw [Progress, hphase] at hprogress ⊢
      exact hprogress
  | @finish job rest envelope hphase =>
    rw [Progress, hphase] at hprogress
    exact .inl ⟨_, h.set rfl rfl (h.young_update (hok.job_taken (.inr hphase)) _) hprogress⟩
  | commit hphase => exact .inr (h.commit hinv hphase)
  | abort => exact absurd rfl hact

theorem Over.grows (h : Over since n j a q) (hinv : Inv q) (hinv' : Inv q')
    (hgrows : Grows since q q') (htxns : q'.store.txns = q.store.txns)
    (hbound : q'.store.bound = q.store.bound) : Over since n j a q' := by
  refine ⟨fun k hk => ?_, h.served.imp hgrows.terminal fun ⟨hj, hcard⟩ => ?_⟩
  · rw [hbound] at hk
    rw [htxns, h.idle k hk]
  · refine ⟨hgrows.waiting hj, ?_⟩
    rw [hgrows.ahead_eq hinv hinv']
    exact hcard

end Alone

/-! ### Rounds -/

theorem Idle.none (h : q.Idle) (hinv : Inv q) (k : Nat) : q.store.txns k = none := by
  by_contra hne
  obtain ⟨t, ht⟩ := Option.ne_none_iff_exists'.mp hne
  exact hne (h k (hinv.store.bounded k t ht))

/-- A round: a drain begins where none is open and commits; before and meanwhile younger jobs are
enqueued. -/
def Round (cap : MaxConcurrentRuns) (since : Nat) (maxJobs : Int) (q q' : Queue) : Prop :=
  ∃ early now during, (∀ act ∈ early, Late since act) ∧ since < now ∧
    (∀ act ∈ during, Late since act ∨ ∃ a, a ≠ .abort ∧ act = .drain q.store.bound a) ∧
    runActs (step cap) q (early ++ .begin maxJobs now :: during) = some q' ∧ q'.Idle

/-- Rounds one after another, with the places that their drains have in all. -/
inductive Rounds (cap : MaxConcurrentRuns) (since : Nat) : Nat → Queue → Queue → Prop
  | nil (q : Queue) : Rounds cap since 0 q q
  | cons {maxJobs : Int} {n : Nat} {q q' q'' : Queue} (head : Round cap since maxJobs q q')
    (tail : Rounds cap since n q' q'') :
    Rounds cap since ((min maxJobs cap.val).toNat + n) q q''

variable {cap : MaxConcurrentRuns} {maxJobs : Int}

/-- A job that has been run stays so. -/
theorem terminal_step (hinv : Inv q) (hj : q.Terminal j) {act : QueueAct}
    (hstep : q.step cap act = some q') : q'.Terminal j := by
  obtain ⟨row, hrow, hstatus⟩ := hj
  cases act with
  | enqueue agent input source now =>
    cases hstep
    refine ⟨row, ?_, hstatus⟩
    have hne : j ≠ q.next := by
      rintro rfl
      rw [(hinv.fresh q.next (Nat.le_refl _)).1] at hrow
      cases hrow
    exact (Function.update_of_ne hne ..).trans hrow
  | begin maxJobs now =>
    cases hstep
    exact ⟨row, hrow, hstatus⟩
  | drain i act =>
    rw [step] at hstep
    split at hstep
    · cases hstep
    · rename_i t ht
      have hok := hinv.drains i t ht
      cases drainStep_spec hstep with
      | commit hphase =>
        -- the drain has no version of the row, which is there and not queued
        have hown : t.own j = none := by
          by_contra hne
          obtain ⟨row', hrow'⟩ := Option.ne_none_iff_exists'.mp hne
          rcases hok.own_or_new j row' hrow' with htaken | ⟨hnone, -⟩
          · have hqueued := hok.taken_queued j htaken
            rw [hrow, Option.map_some, Option.some_inj] at hqueued
            rw [hqueued] at hstatus
            simp at hstatus
          · rw [hnone] at hrow
            cases hrow
        refine ⟨row, ?_, hstatus⟩
        show (t.own j).or (q.store.rows j) = some row
        rw [hown, Option.none_or, hrow]
      | _ => exact ⟨row, hrow, hstatus⟩

/-- Younger jobs are enqueued while no drain is open. -/
theorem early_run {early : List QueueAct} (hearly : ∀ act ∈ early, Late since act) (hinv : Inv q)
    (hrun : runActs (step cap) q early = some q') :
    Inv q' ∧ Grows since q q' ∧ q'.store.txns = q.store.txns ∧
      q'.store.bound = q.store.bound := by
  apply @runActs_invariant _ _ _ (fun _ act => Late since act)
    (fun x => Inv x ∧ Grows since q x ∧ x.store.txns = q.store.txns ∧
      x.store.bound = q.store.bound) ?_ _ q q' (along_of_forall hearly q)
    ⟨hinv, Grows.of_rows rfl, rfl, rfl⟩ hrun
  rintro x act x' hlate ⟨hx, hgrows, htxns, hbound⟩ hstep
  obtain ⟨hgrows', htxns', hbound'⟩ := late_step hx hlate hstep
  exact ⟨inv_step cap hx hstep, hgrows.trans hgrows', htxns'.trans htxns, hbound'.trans hbound⟩

/-- A drain that begins alone. -/
theorem serving_begin (hinv : Inv q) (hidle : q.Idle) (hj : q.Waiting since j) {now : Nat}
    (hnow : since < now) (hplaces : (min maxJobs cap.val).toNat = n) :
    Serving cap since n j (q.ahead since j) q.store.bound
      { q with store := q.store.beginTxn ⟨maxJobs, now, .started, [], []⟩ }
      ⟨[], fun _ => none, ⟨maxJobs, now, .started, [], []⟩⟩ where
  isOpen := Function.update_self ..
  alone k hk := (Function.update_of_ne hk ..).trans (hidle.none hinv k)
  places := hplaces
  later := hnow
  young _ _ hrow := by cases hrow
  waits := hj
  behind := rfl
  progress := trivial

/-- One step of a round: the drain makes a statement, or another session enqueues a younger job. -/
theorem round_step {a : Finset Nat} {act : QueueAct}
    (hact : Late since act ∨ ∃ b, b ≠ .abort ∧ act = .drain i b) (hinv : Inv q)
    (hq : (∃ t, Serving cap since n j a i q t) ∨ Over since n j a q)
    (hstep : q.step cap act = some q') :
    Inv q' ∧ ((∃ t, Serving cap since n j a i q' t) ∨ Over since n j a q') := by
  have hinv' := inv_step cap hinv hstep
  refine ⟨hinv', ?_⟩
  rcases hact with hlate | ⟨b, hb, rfl⟩
  · obtain ⟨hgrows, htxns, hbound⟩ := late_step hinv hlate hstep
    apply hq.imp
    · rintro ⟨t, ht⟩
      exact ⟨t, ht.grows hinv hinv' hgrows htxns⟩
    · intro hover
      exact hover.grows hinv hinv' hgrows htxns hbound
  · rcases hq with ⟨t, ht⟩ | hover
    · rw [step, ht.isOpen] at hstep
      exact ht.step hinv hb hstep
    · -- the drain has committed, and makes no statement any more
      rw [step, hover.idle.none hinv] at hstep
      cases hstep

/-- **One round** serves a job that waits: it runs the job, or as many of those ahead of it as its
drain has places. -/
theorem Round.over (h : Round cap since maxJobs q q') (hinv : Inv q) (hidle : q.Idle)
    (hj : q.Waiting since j) :
    Inv q' ∧ Over since (min maxJobs cap.val).toNat j (q.ahead since j) q' := by
  obtain ⟨early, now, during, hearly, hnow, hduring, hrun, hidle'⟩ := h
  obtain ⟨q₁, hearlyRun, hrest⟩ := runActs_append.mp hrun
  obtain ⟨hinv₁, hgrows, htxns, hbound⟩ := early_run hearly hinv hearlyRun
  have hidle₁ : q₁.Idle := fun k hk => by rw [htxns, hidle k (hbound ▸ hk)]
  obtain ⟨q₂, hbegin, hduringRun⟩ := runActs_cons.mp hrest
  cases hbegin
  generalize hn : (min maxJobs cap.val).toNat = n
  have hserving := serving_begin hinv₁ hidle₁ (hgrows.waiting hj) hnow hn
  rw [hgrows.ahead_eq hinv hinv₁, hbound] at hserving
  have hend : Inv q' ∧ ((∃ t, Serving cap since n j (q.ahead since j) q.store.bound q' t) ∨
      Over since n j (q.ahead since j) q') := by
    apply @runActs_invariant _ _ _
      (fun _ act => Late since act ∨ ∃ a, a ≠ .abort ∧ act = .drain q.store.bound a)
      (fun x => Inv x ∧ ((∃ t, Serving cap since n j (q.ahead since j) q.store.bound x t) ∨
        Over since n j (q.ahead since j) x)) ?_ _ _ q' (along_of_forall hduring _)
      ⟨hinv₁.begin maxJobs now, .inl ⟨_, hserving⟩⟩ hduringRun
    rintro x act x' hact ⟨hx, hcases⟩ hstep
    exact round_step hact hx hcases hstep
  refine ⟨hend.1, hend.2.resolve_left ?_⟩
  rintro ⟨t, ht⟩
  have hopen := ht.isOpen
  rw [hidle'.none hend.1] at hopen
  cases hopen

theorem Round.terminal (h : Round cap since maxJobs q q') (hinv : Inv q) (hj : q.Terminal j) :
    Inv q' ∧ q'.Terminal j := by
  obtain ⟨early, now, during, -, -, -, hrun, -⟩ := h
  apply @runActs_invariant _ _ _ (fun _ _ => True) (fun x => Inv x ∧ x.Terminal j) ?_ _ q q'
    (along_of_forall (P := fun _ => True) (fun _ _ => trivial) q) ⟨hinv, hj⟩ hrun
  rintro x act x' - ⟨hx, hterminal⟩ hstep
  exact ⟨inv_step cap hx hstep, terminal_step hx hterminal hstep⟩

theorem Rounds.terminal (h : Rounds cap since n q q') (hinv : Inv q) (hj : q.Terminal j) :
    q'.Terminal j := by
  induction h with
  | nil q => exact hj
  | cons head tail ih =>
    obtain ⟨hinv₁, hj₁⟩ := head.terminal hinv hj
    exact ih hinv₁ hj₁

/-- **No job starves**: from any state of the queue in which no drain is open, when drains run one
at a time, each to its commit, and every job enqueued from then on is younger, a job that waits has
been run once these drains have had more places than there were other jobs not younger than it.  A
drain has as many places as it was asked for, up to the ceiling. -/
theorem no_starvation {acts : List QueueAct} (hrun : runActs (step cap) init acts = some q)
    (hidle : q.Idle) (hj : q.Waiting since j) (hrounds : Rounds cap since n q q')
    (hplaces : (q.ahead since j).card < n) : q'.Terminal j := by
  have hinv := inv_run hrun
  clear hrun
  induction hrounds with
  | nil q => exact absurd hplaces (Nat.not_lt_zero _)
  | @cons maxJobs n q q₁ q₂ head tail ih =>
    obtain ⟨hinv₁, hidle₁, hserved⟩ := head.over hinv hidle hj
    rcases hserved with hterminal | ⟨hj₁, hcard⟩
    · exact tail.terminal hinv₁ hterminal
    · exact ih hidle₁ hj₁ (by omega) hinv₁

/-- Two jobs that wait. -/
def twoJobs : List QueueAct :=
  [.enqueue "clerk" "a" none 0, .enqueue "clerk" "b" none 1]

/-- A drain that runs one job and commits. -/
def drainActs (i : Nat) : List QueueAct :=
  claimActs i 1 ++ [.drain i (.finish (.obj [("status", .string "completed")])), .drain i .commit]

theorem drainActs_eq (i : Nat) (act : QueueAct) (hact : act ∈ drainActs i) :
    ∃ a, a ≠ .abort ∧ act = .drain i a := by
  simp only [drainActs, claimActs, List.replicate, List.cons_append, List.nil_append,
    List.mem_cons, List.not_mem_nil, or_false] at hact
  rcases hact with rfl | rfl | rfl | rfl | rfl | rfl | rfl <;> exact ⟨_, by simp, rfl⟩

/-- The second job is run by the second drain. -/
theorem second_job_runs : ∃ q, runActs (step capOne) init
    (twoJobs ++ .begin 10 2 :: drainActs 0 ++ .begin 10 3 :: drainActs 1) = some q ∧
      q.Terminal 1 := by
  obtain ⟨q₀, h₀, hidle₀, hwaits, hahead⟩ : ∃ q, runActs (step capOne) init twoJobs = some q ∧
      (q.Idle ∧ q.store.bound = 0) ∧ q.Waiting 1 1 ∧ (q.ahead 1 1).card < 1 + (1 + 0) := by
    refine ⟨_, rfl, ⟨?_, rfl⟩, ⟨_, rfl, rfl, rfl⟩, ?_⟩
    · exact fun k hk => absurd hk (Nat.not_lt_zero k)
    · decide
  obtain ⟨q₁, h₁, hidle₁⟩ : ∃ q, runActs (step capOne) q₀ (.begin 10 2 :: drainActs 0) = some q ∧
      (q.Idle ∧ q.store.bound = 1) := by
    cases h₀
    refine ⟨_, rfl, ?_, rfl⟩
    decide
  obtain ⟨q₂, h₂, hidle₂⟩ : ∃ q, runActs (step capOne) q₁ (.begin 10 3 :: drainActs 1) = some q ∧
      q.Idle := by
    cases h₀
    cases h₁
    refine ⟨_, rfl, ?_⟩
    decide
  have hhead : Round capOne 1 10 q₀ q₁ :=
    ⟨[], 2, drainActs 0, by simp, by decide, fun act hact => .inr ?_, h₁, hidle₁.1⟩
  have htail : Round capOne 1 10 q₁ q₂ :=
    ⟨[], 3, drainActs 1, by simp, by decide, fun act hact => .inr ?_, h₂, hidle₂⟩
  · refine ⟨q₂, runActs_append.mpr ⟨q₁, runActs_append.mpr ⟨q₀, h₀, h₁⟩, h₂⟩, ?_⟩
    exact no_starvation h₀ hidle₀.1 hwaits (.cons hhead (.cons htail (.nil q₂))) hahead
  · rw [hidle₁.2]
    exact drainActs_eq 1 act hact
  · rw [hidle₀.2]
    exact drainActs_eq 0 act hact

end Queue

end PgSynapse
