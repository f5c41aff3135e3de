import PgSynapse.Lib.RowLocks
import PgSynapse.Lib.Transition
import PgSynapse.Pgrx.Schedules

/-!
# Ticks side by side

`synapse.tick` (`sql/schema.sql`) where several drivers call it at once.  Each call is one READ
COMMITTED transaction, and its statements interleave with those of other ticks and with what users do
to `synapse.schedules` and `synapse.agent_queue`.

The query of a tick reads a snapshot.  `FOR UPDATE SKIP LOCKED` then takes its rows one by one as the
loop fetches them: it skips a row that another has locked, and a row that changed since the snapshot is
taken as it is now, if it is still enabled and due.  The queue is not looked at again.
-/

namespace PgSynapse

/-- A schedule that a tick has fired: the time of the tick, the row it locked, and the new
`next_run_at`. -/
structure Firing where
  now : Nat
  row : Schedule
  next : Int
  deriving DecidableEq

/-- How far a tick has come: before its query; in its loop, with the rows of its snapshot that are not
fetched yet, and those fetched and not yet fired. -/
inductive TickPhase where
  | started
  | looping (candidates : List Uuid) (fetched : List Schedule)
  deriving DecidableEq

/-- A call of `synapse.tick`: the time of its transaction, the jobs it has enqueued, and the schedules
it has fired. -/
structure TickRun where
  now : Nat
  phase : TickPhase
  jobs : List QueueRow
  fired : List Firing
  deriving DecidableEq

/-- The transaction of a tick. -/
abbrev TickTxn := Txn Uuid Schedule TickRun

/-- What has been done to the schedules. -/
inductive ScheduleEvent where
  | put (row : Schedule)
  | remove (id : Uuid)
  | fired (f : Firing)
  deriving DecidableEq

/-- The schedules with the open ticks, all ids there have been, the queue, the jobs that ticks have put
into it, and what was committed on the schedules, one after another. -/
structure Scheduler where
  store : Store Uuid Schedule TickRun
  ids : List Uuid
  queue : List QueueRow
  enqueued : List QueueRow
  history : List ScheduleEvent

/-- No schedules yet. -/
def Scheduler.init : Scheduler := ⟨.empty, [], [], [], []⟩

/-- The statements of a tick: its query, the fetch of a row, one pass of the loop, and the end of its
transaction.  A row may be locked by a session that is no tick. -/
inductive TickAct where
  | query
  | fetch (lockedOutside : Bool)
  | fire
  | commit
  | abort
  deriving DecidableEq, Repr

/-- What the parties do: a user inserts, updates or deletes a schedule; the queue changes; a tick begins
and goes on. -/
inductive SchedulerAct where
  | put (row : Schedule)
  | remove (id : Uuid)
  | queue (rows : List QueueRow)
  | begin (now : Nat)
  | tick (i : Nat) (act : TickAct)
  deriving DecidableEq

namespace TickTxn

/-- Go on in the loop. -/
def goto (t : TickTxn) (candidates : List Uuid) (fetched : List Schedule) : TickTxn :=
  { t with data := { t.data with phase := .looping candidates fetched } }

/-- The loop fetches its next candidate. -/
def fetch (rows : Uuid → Option Schedule) (locked : Bool) (id : Uuid) (rest : List Uuid)
    (fetched : List Schedule) (t : TickTxn) : TickTxn :=
  if locked then goto t rest fetched
  else
    match rows id with
    -- deleted since the snapshot
    | none => goto t rest fetched
    | some row =>
      -- the lock stays, whether the row still qualifies or not
      let t : TickTxn := { t with held := id :: t.held }
      if row.enabled && row.nextRunAt ≤ t.data.now then goto t rest (fetched ++ [row])
      else goto t rest fetched

/-- One pass of the loop: enqueue, and advance the row. -/
def fire (rows : Uuid → Option Schedule) (next : Int) (sc : Schedule) (candidates : List Uuid)
    (rest : List Schedule) (t : TickTxn) : TickTxn where
  held := t.held
  own := t.update rows sc.scheduleId (Tick.advanced t.data.now next)
  data := { t.data with
    phase := .looping candidates rest
    jobs := t.data.jobs ++ [Tick.job t.data.now sc]
    fired := t.data.fired ++ [⟨t.data.now, sc, next⟩] }

end TickTxn

namespace Scheduler

/-- The rows of a tick's query, in its order. -/
def candidates (s : Scheduler) (now : Nat) : List Uuid :=
  let nextRunAt id := ((s.store.rows id).map Schedule.nextRunAt).getD 0
  (s.ids.filter fun id => (s.store.rows id).any (Tick.due now s.queue)).insertionSort fun a b =>
    nextRunAt a ≤ nextRunAt b

/-- A tick goes on. -/
def set (s : Scheduler) (i : Nat) (t : TickTxn) : Scheduler := { s with store := s.store.set i t }

/-- A user writes or deletes a row, once nobody has it locked. -/
def edit (s : Scheduler) (id : Uuid) (row : Option Schedule) (event : ScheduleEvent) :
    Option Scheduler :=
  if s.store.isHeld id then none
  else some { s with
    store := s.store.setRow id row
    ids := s.ids.insert id
    history := s.history ++ [event] }

/-- A statement of an open tick. -/
def tickStep (cal : Calendar) (s : Scheduler) (i : Nat) (t : TickTxn) : TickAct → Option Scheduler
  | .query =>
    match t.data.phase with
    | .started => some (s.set i (TickTxn.goto t (s.candidates t.data.now) []))
    | .looping _ _ => none
  | .fetch lockedOutside =>
    match t.data.phase with
    | .looping (id :: rest) fetched =>
      some (s.set i (TickTxn.fetch s.store.rows (lockedOutside || s.store.heldByOther i id) id rest
        fetched t))
    | _ => none
  | .fire =>
    match t.data.phase with
    | .looping candidates (sc :: rest) =>
      match Tick.nextRun cal t.data.now sc with
      -- the transaction can only abort
      | .error _ => none
      | .ok next => some (s.set i (TickTxn.fire s.store.rows next sc candidates rest t))
    | _ => none
  | .commit =>
    match t.data.phase with
    | .looping [] [] => some { s with
        store := s.store.commit i t
        queue := s.queue ++ t.data.jobs
        enqueued := s.enqueued ++ t.data.jobs
        history := s.history ++ t.data.fired.map .fired }
    | _ => none
  | .abort => some { s with store := s.store.abort i }

/-- One step of the scheduler. -/
def step (cal : Calendar) (s : Scheduler) : SchedulerAct → Option Scheduler
  | .put row => s.edit row.scheduleId (some row) (.put row)
  | .remove id => s.edit id none (.remove id)
  | .queue rows => some { s with queue := rows }
  | .begin now => some { s with store := s.store.beginTxn ⟨now, .started, [], []⟩ }
  | .tick i act =>
    match s.store.txns i with
    | none => none
    | some t => s.tickStep cal i t act

end Scheduler

end PgSynapse
