import PgSynapse.Config.Tables
import PgSynapse.Pgrx.Queue
import PgSynapse.Types.Message

/-!
# Schedules

`synapse.tick` (`sql/schema.sql`) over the tables `synapse.schedules` and `synapse.agent_queue`, in
one transaction with no other tick at work.  Times and interval lengths are in microseconds.
-/

namespace PgSynapse

/-- `interval`: its three fields are kept apart. -/
structure Interval where
  months : Int
  days : Int
  micros : Int
  deriving DecidableEq, Repr

/-- The length by which intervals compare: a month is 30 days and a day 24 hours. -/
def Interval.span (i : Interval) : Int := (i.months * 30 + i.days) * 86400000000 + i.micros

/-- `EXTRACT(epoch FROM i)`: twelve months are 365.25 days, the months left over 30 days each. -/
def Interval.epoch (i : Interval) : Int :=
  i.months.tdiv 12 * 31557600000000 + (i.months.tmod 12 * 30 + i.days) * 86400000000 + i.micros

/-- Calendar arithmetic in the session's time zone: `t + i * k`, where it is in range. -/
structure Calendar where
  plusTimes : Int → Interval → Int → Option Int

/-- A row of `synapse.schedules`, with its CHECK. -/
structure Schedule where
  scheduleId : Uuid
  app : String
  agent : String
  input : String
  everyInterval : Interval
  nextRunAt : Int
  lastRunAt : Option Nat
  enabled : Bool
  positive : 0 < everyInterval.span
  deriving DecidableEq

/-- The tables a tick reads and writes. -/
structure ScheduleTables where
  schedules : Table Schedule.scheduleId
  queue : List QueueRow

/-- The values of `int`. -/
def inInt (n : Int) : Bool := -2 ^ 31 ≤ n && n < 2 ^ 31

namespace Tick

/-- The WHERE clause of the tick's query: enabled, due, and no queued or running job of the agent. -/
def due (now : Nat) (queue : List QueueRow) (sc : Schedule) : Bool :=
  sc.enabled && sc.nextRunAt ≤ now &&
    !queue.any fun q => q.agent = sc.agent && (q.status = .queued || q.status = .running)

/-- The new `next_run_at`: past the whole intervals that fit in the time since it was due.  An
interval may be positive and its epoch not, when its fields have different signs. -/
def nextRun (cal : Calendar) (now : Nat) (sc : Schedule) : Except String Int :=
  let missed := (now - sc.nextRunAt).fdiv sc.everyInterval.epoch
  if sc.everyInterval.epoch = 0 then .error "division by zero"
  else if !inInt missed then .error "integer out of range"
  else if !inInt (missed + 1) then .error "integer out of range"
  else
    match cal.plusTimes sc.nextRunAt sc.everyInterval (missed + 1) with
    | none => .error "timestamp out of range"
    | some t => .ok t

/-- The job a schedule enqueues. -/
def job (now : Nat) (sc : Schedule) : QueueRow :=
  .new sc.agent sc.input (some "schedule") now

/-- A schedule after its run. -/
def advanced (now : Nat) (t : Int) (sc : Schedule) : Schedule :=
  { sc with nextRunAt := t, lastRunAt := some now }

/-- One pass of the loop: enqueue, and advance the row. -/
def fire (cal : Calendar) (now : Nat) (r : Nat × ScheduleTables) (sc : Schedule) :
    Except String (Nat × ScheduleTables) :=
  let queue := r.2.queue ++ [job now sc]
  match nextRun cal now sc with
  | .error e => .error e
  | .ok t =>
    let schedules := r.2.schedules.update sc.scheduleId (advanced now t) fun _ => rfl
    .ok (r.1 + 1, ⟨schedules, queue⟩)

/-- The rows of the tick's query.  They are those of its start: what the loop enqueues does not hide
a row. -/
def selected (now : Nat) (s : ScheduleTables) : List Schedule :=
  (s.schedules.rows.filter (due now s.queue)).insertionSort fun a b => a.nextRunAt ≤ b.nextRunAt

/-- `synapse.tick`: how many schedules it fired, and the tables it leaves.  An error undoes the
tick. -/
def tick (cal : Calendar) (now : Nat) (s : ScheduleTables) : Except String (Nat × ScheduleTables) :=
  (selected now s).foldlM (fire cal now) (0, s)

end Tick

end PgSynapse
