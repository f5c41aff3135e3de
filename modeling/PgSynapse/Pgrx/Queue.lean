import PgSynapse.Lib.RowLocks
import PgSynapse.Lib.Transition
import PgSynapse.Serde.Value
import Mathlib.Data.List.Sort

/-!
# The job queue

`synapse.enqueue`, `synapse.drain_queue` and `queue_status_for` (`pg-synapse-pgrx`) over the table
`synapse.agent_queue`.  Each drain is one READ COMMITTED transaction, and its statements interleave
with those of other drains.  A job is known by its number, in the place of its `job_id`.  What
`synapse.execute` returns for a job is given.
-/

namespace PgSynapse

/-! ### Terminal statuses -/

/-- The values the `status` column takes. -/
inductive QueueStatus where
  | queued
  | running
  | done
  | error
  deriving DecidableEq, Repr

/-- `queue_status_for`. -/
def queueStatusFor (envelope : Value) : QueueStatus × Option String :=
  let status := ((envelope.get? "status").bind Value.asStr?).getD "errored"
  if status = "completed" then (.done, none)
  else
    let reason := ((envelope.get? "error").bind Value.asStr?).getD
      ("run ended with status \"" ++ status ++ "\"")
    (.error, some reason)

/-- A row of `synapse.agent_queue`. -/
structure QueueRow where
  agent : String
  input : String
  status : QueueStatus
  result : Option Value
  error : Option String
  source : Option String
  enqueuedAt : Nat
  startedAt : Option Nat
  finishedAt : Option Nat
  deriving DecidableEq, Repr

/-- The row `enqueue` inserts. -/
def QueueRow.new (agent input : String) (source : Option String) (now : Nat) : QueueRow :=
  ⟨agent, input, .queued, none, none, source, now, none, none⟩

/-! ### Drains -/

/-- How far a drain has come: before its count; with a limit for the claim; in the claim's scan, with
the number of rows still wanted and the candidates of its snapshot; between jobs; in a job. -/
inductive DrainPhase where
  | started
  | counted (limit : Int)
  | scanning (wanted : Nat) (candidates : List Nat)
  | working (todo : List Nat)
  | executing (job : Nat) (rest : List Nat)
  deriving DecidableEq, Repr

/-- A call of `drain_queue`: its argument, the time of its transaction, the jobs it has claimed, and
those it has run with the envelopes `execute` returned. -/
structure Drain where
  maxJobs : Int
  now : Nat
  phase : DrainPhase
  taken : List Nat
  runs : List (Nat × Value)
  deriving DecidableEq, Repr

/-- The transaction of a drain. -/
abbrev DrainTxn := Txn Nat QueueRow Drain

/-- The queue: its table with the open drains, the next job number, and the drains that have
committed. -/
structure Queue where
  store : Store Nat QueueRow Drain
  next : Nat
  finished : List Drain

/-- The queue before any job. -/
def Queue.init : Queue := ⟨.empty, 0, []⟩

/-- `pg_synapse.max_concurrent_runs`. -/
structure MaxConcurrentRuns where
  val : Nat
  one_le : 1 ≤ val
  le_max : val ≤ 1024

/-- The statements of a drain: the count, the start of the claim and its rows one by one, its end, the
mark before a job, and the update after it.  The agent of a job may enqueue others. -/
inductive DrainAct where
  | count
  | select
  | scan
  | claim
  | start
  | enqueue (agent input : String) (source : Option String)
  | finish (envelope : Value)
  | commit
  | abort
  deriving DecidableEq, Repr

/-- What the parties do. -/
inductive QueueAct where
  | enqueue (agent input : String) (source : Option String) (now : Nat)
  | begin (maxJobs : Int) (now : Nat)
  | drain (i : Nat) (act : DrainAct)
  deriving DecidableEq, Repr

namespace DrainTxn

/-- An UPDATE of one row by its `job_id`. -/
def update (t : DrainTxn) (rows : Nat → Option QueueRow) (job : Nat) (f : QueueRow → QueueRow) :
    Nat → Option QueueRow :=
  match t.view rows job with
  | none => t.own
  | some row => Function.update t.own job (some (f row))

/-- Go on to a phase. -/
def goto (t : DrainTxn) (phase : DrainPhase) : DrainTxn :=
  { t with data := { t.data with phase := phase } }

/-- The ceiling: how many jobs the drain may claim, or its end where there is no headroom.  `running` is
the number of rows the drain sees in status `running`. -/
def count (cap : MaxConcurrentRuns) (running : Nat) (t : DrainTxn) : DrainTxn :=
  let headroom := max ((cap.val : Int) - running) 0
  if headroom = 0 then goto t (.working [])
  else goto t (.counted (min t.data.maxJobs headroom))

/-- The claim meets its next candidate: a row locked by another is skipped, and one whose status has
changed since the snapshot is not taken. -/
def scan (rows : Nat → Option QueueRow) (lockedByOther : Bool) (wanted job : Nat)
    (rest : List Nat) (t : DrainTxn) : DrainTxn :=
  if lockedByOther then goto t (.scanning (wanted + 1) rest)
  else if ((rows job).map QueueRow.status) = some .queued then
    { held := job :: t.held
      own := t.own
      data := { t.data with
        phase := .scanning wanted rest
        taken := t.data.taken ++ [job] } }
  else { (goto t (.scanning (wanted + 1) rest)) with held := job :: t.held }

/-- The claim marks the rows it has taken. -/
def claim (rows : Nat → Option QueueRow) (t : DrainTxn) : DrainTxn :=
  { (goto t (.working t.data.taken)) with
    own := fun job =>
      if job ∈ t.data.taken then
        (rows job).map fun row => { row with status := .running, startedAt := some t.data.now }
      else t.own job }

/-- The mark of one job, before it is executed. -/
def start (rows : Nat → Option QueueRow) (job : Nat) (rest : List Nat) (t : DrainTxn) : DrainTxn :=
  { (goto t (.executing job rest)) with
    own := update t rows job fun row =>
      { row with status := .running, startedAt := row.startedAt.or (some t.data.now) } }

/-- The job has been executed, and its result is written. -/
def finish (rows : Nat → Option QueueRow) (job : Nat) (rest : List Nat) (envelope : Value)
    (t : DrainTxn) : DrainTxn :=
  { held := t.held
    own := update t rows job fun row =>
      { row with
        status := (queueStatusFor envelope).1
        result := some envelope
        error := (queueStatusFor envelope).2
        finishedAt := some t.data.now }
    data := { t.data with
      phase := .working rest
      runs := t.data.runs ++ [(job, envelope)] } }

end DrainTxn

namespace Queue

/-- The jobs a drain sees in a status, by their numbers. -/
def jobsIn (q : Queue) (t : DrainTxn) (status : QueueStatus) : List Nat :=
  (List.range q.next).filter fun job =>
    ((t.view q.store.rows job).map QueueRow.status) == some status

/-- The candidates of a claim, oldest first. -/
def candidates (q : Queue) (t : DrainTxn) : List Nat :=
  (q.jobsIn t .queued).insertionSort fun i j =>
    ((t.view q.store.rows i).map QueueRow.enqueuedAt).getD 0 ≤
      ((t.view q.store.rows j).map QueueRow.enqueuedAt).getD 0

/-- A drain goes on. -/
def set (q : Queue) (i : Nat) (t : DrainTxn) : Queue := { q with store := q.store.set i t }

/-- A statement of an open drain. -/
def drainStep (cap : MaxConcurrentRuns) (q : Queue) (i : Nat) (t : DrainTxn) :
    DrainAct → Option Queue
  | .count =>
    match t.data.phase with
    | .started => some (q.set i (DrainTxn.count cap (q.jobsIn t .running).length t))
    | _ => none
  | .select =>
    match t.data.phase with
    | .counted limit =>
      -- a negative LIMIT is an error, and the transaction can only abort
      if limit < 0 then none
      else some (q.set i (DrainTxn.goto t (.scanning limit.toNat (q.candidates t))))
    | _ => none
  | .scan =>
    match t.data.phase with
    | .scanning (wanted + 1) (job :: rest) =>
      some (q.set i (DrainTxn.scan q.store.rows (q.store.heldByOther i job) wanted job rest t))
    | _ => none
  | .claim =>
    match t.data.phase with
    | .scanning wanted rest =>
      if wanted = 0 ∨ rest = [] then some (q.set i (DrainTxn.claim q.store.rows t)) else none
    | _ => none
  | .start =>
    match t.data.phase with
    | .working (job :: rest) => some (q.set i (DrainTxn.start q.store.rows job rest t))
    | _ => none
  | .enqueue agent input source =>
    match t.data.phase with
    | .executing _ _ =>
      let row := QueueRow.new agent input source t.data.now
      some { q with
        store := q.store.set i { t with own := Function.update t.own q.next (some row) }
        next := q.next + 1 }
    | _ => none
  | .finish envelope =>
    match t.data.phase with
    | .executing job rest => some (q.set i (DrainTxn.finish q.store.rows job rest envelope t))
    | _ => none
  | .commit =>
    match t.data.phase with
    | .working [] => some { q with
        store := q.store.commit i t
        finished := q.finished ++ [t.data] }
    | _ => none
  | .abort => some { q with store := q.store.abort i }

/-- One step of the queue. -/
def step (cap : MaxConcurrentRuns) (q : Queue) : QueueAct → Option Queue
  | .enqueue agent input source now =>
    some { q with
      store := q.store.insertRow q.next (QueueRow.new agent input source now)
      next := q.next + 1 }
  | .begin maxJobs now => some { q with store := q.store.beginTxn ⟨maxJobs, now, .started, [], []⟩ }
  | .drain i act =>
    match q.store.txns i with
    | none => none
    | some t => q.drainStep cap i t act

end Queue

end PgSynapse
