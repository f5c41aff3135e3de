import PgSynapse.Lib.Except
import PgSynapse.Pgrx.Schedules

/-!
# How a tick advances the schedules

A tick fires every due schedule once and leaves the other rows alone (`tick_ok`), and it returns
where every due schedule has a next run in range (`tick_returns`).  The intervals it skips are
counted with months of 30 days, and the advance is by the calendar; the next run is the first
occurrence after now exactly when the two measures agree there (`tick_advances_iff`).
-/

namespace PgSynapse

namespace Tick

variable {cal : Calendar} {now : Nat}

/-! ### The loop -/

/-- The rows of a pass that returns. -/
theorem fire_ok {r r' : Nat × ScheduleTables} {sc : Schedule} (h : fire cal now r sc = .ok r') :
    ∃ t, nextRun cal now sc = .ok t ∧
      r' = (r.1 + 1, ⟨r.2.schedules.update sc.scheduleId (advanced now t) fun _ => rfl,
        r.2.queue ++ [job now sc]⟩) := by
  unfold fire at h
  cases hnext : nextRun cal now sc with
  | error e => rw [hnext] at h; cases h
  | ok t =>
    rw [hnext] at h
    exact ⟨t, rfl, (Except.ok.inj h).symm⟩

/-- What a loop over some schedules leaves. -/
structure Fired (cal : Calendar) (now : Nat) (todo : List Schedule) (s s' : ScheduleTables) :
    Prop where
  queue : s'.queue = s.queue ++ todo.map (job now)
  advanced : ∀ sc ∈ todo, ∃ t, nextRun cal now sc = .ok t ∧
    s'.schedules.get sc.scheduleId = some (advanced now t sc)
  others : ∀ id, id ∉ todo.map Schedule.scheduleId → s'.schedules.get id = s.schedules.get id

theorem fires_ok {todo : List Schedule} {fired : Nat} {s : ScheduleTables}
    {r : Nat × ScheduleTables} (hnodup : (todo.map Schedule.scheduleId).Nodup)
    (hrows : ∀ sc ∈ todo, s.schedules.get sc.scheduleId = some sc)
    (h : todo.foldlM (fire cal now) (fired, s) = .ok r) :
    r.1 = fired + todo.length ∧ Fired cal now todo s r.2 := by
  induction todo generalizing fired s with
  | nil =>
    obtain rfl := Except.ok.inj h
    exact ⟨rfl, by simp, by simp, fun _ _ => rfl⟩
  | cons sc todo ih =>
    obtain ⟨r₁, hfire, hrest⟩ := bind_eq_ok.mp h
    obtain ⟨t, hnext, rfl⟩ := fire_ok hfire
    obtain ⟨hfresh, hnodup'⟩ := List.nodup_cons.mp hnodup
    -- the other schedules of the loop still have their rows
    have hkept : ∀ id, id ≠ sc.scheduleId →
        (s.schedules.update sc.scheduleId (advanced now t) fun _ => rfl).get id =
          s.schedules.get id := by
      intro id hne
      exact Table.get_update_of_ne _ _ _ _ hne
    have hrows' : ∀ sc' ∈ todo, (s.schedules.update sc.scheduleId (advanced now t)
        fun _ => rfl).get sc'.scheduleId = some sc' := by
      intro sc' hsc'
      rw [hkept _ (fun heq => hfresh (heq ▸ List.mem_map_of_mem hsc'))]
      exact hrows sc' (List.mem_cons_of_mem sc hsc')
    obtain ⟨hcount, hfired⟩ := ih hnodup' hrows' hrest
    refine ⟨by rw [hcount, List.length_cons]; omega, ?_, ?_, ?_⟩
    · rw [hfired.queue, List.map_cons, List.append_assoc, List.singleton_append]
    · intro sc' hsc'
      rcases List.mem_cons.mp hsc' with rfl | hsc'
      · refine ⟨t, hnext, ?_⟩
        have hrow := Table.get_update_self s.schedules sc'.scheduleId (advanced now t) fun _ => rfl
        rw [hrows _ List.mem_cons_self] at hrow
        exact (hfired.others _ hfresh).trans hrow
      · exact hfired.advanced sc' hsc'
    · intro id hid
      rw [List.map_cons, List.mem_cons, not_or] at hid
      rw [hfired.others id hid.2, hkept id hid.1]

theorem fires_returns {todo : List Schedule} (h : ∀ sc ∈ todo, ∃ t, nextRun cal now sc = .ok t)
    (r : Nat × ScheduleTables) : ∃ r', todo.foldlM (fire cal now) r = .ok r' := by
  induction todo generalizing r with
  | nil => exact ⟨r, rfl⟩
  | cons sc todo ih =>
    obtain ⟨t, hnext⟩ := h sc List.mem_cons_self
    have hfire : ∃ r₁, fire cal now r sc = .ok r₁ := by
      unfold fire
      rw [hnext]
      exact ⟨_, rfl⟩
    obtain ⟨r₁, hfire⟩ := hfire
    obtain ⟨r', hrest⟩ := ih (fun sc' hsc' => h sc' (List.mem_cons_of_mem sc hsc')) r₁
    exact ⟨r', bind_eq_ok.mpr ⟨r₁, hfire, hrest⟩⟩

/-! ### The tick -/

theorem mem_selected {s : ScheduleTables} {sc : Schedule} :
    sc ∈ selected now s ↔ sc ∈ s.schedules.rows ∧ due now s.queue sc = true := by
  unfold selected
  rw [(List.perm_insertionSort _ _).mem_iff, List.mem_filter]

theorem selected_nodup (now : Nat) (s : ScheduleTables) :
    ((selected now s).map Schedule.scheduleId).Nodup := by
  have hperm := (List.perm_insertionSort (fun a b : Schedule => a.nextRunAt ≤ b.nextRunAt)
    (s.schedules.rows.filter (due now s.queue))).map Schedule.scheduleId
  exact hperm.nodup_iff.mpr (s.schedules.nodup.sublist (List.filter_sublist.map _))

/-- **A tick that returns** fires the selected schedules. -/
theorem tick_ok {s : ScheduleTables} {r : Nat × ScheduleTables} (h : tick cal now s = .ok r) :
    r.1 = (selected now s).length ∧ Fired cal now (selected now s) s r.2 := by
  have hfires := fires_ok (selected_nodup now s)
    (fun sc hsc => Table.get_of_mem (mem_selected.mp hsc).1) h
  rwa [Nat.zero_add] at hfires

/-- **A tick returns** where every due schedule has a next run in range. -/
theorem tick_returns {s : ScheduleTables}
    (h : ∀ sc ∈ selected now s, ∃ t, nextRun cal now sc = .ok t) : ∃ r, tick cal now s = .ok r :=
  fires_returns h (0, s)

/-! ### The next run -/

/-- How many intervals a tick adds. -/
def steps (now : Nat) (sc : Schedule) : Int :=
  (now - sc.nextRunAt).fdiv sc.everyInterval.epoch + 1

theorem nextRun_eq_ok {sc : Schedule} {t : Int} :
    nextRun cal now sc = .ok t ↔
      sc.everyInterval.epoch ≠ 0 ∧ inInt (steps now sc - 1) = true ∧ inInt (steps now sc) = true ∧
        cal.plusTimes sc.nextRunAt sc.everyInterval (steps now sc) = some t := by
  unfold nextRun steps
  by_cases hzero : sc.everyInterval.epoch = 0
  · simp [hzero]
  · grind

theorem inInt_iff {n : Int} : inInt n = true ↔ -2 ^ 31 ≤ n ∧ n < 2 ^ 31 := by
  simp [inInt]

/-- The `k`-th occurrence of a schedule is later than now. -/
def Later (cal : Calendar) (now : Nat) (sc : Schedule) (k : Int) : Prop :=
  ∃ t, cal.plusTimes sc.nextRunAt sc.everyInterval k = some t ∧ now < t

/-- The `k`-th occurrence is the first later than now. -/
structure FirstLater (cal : Calendar) (now : Nat) (sc : Schedule) (k : Int) : Prop where
  one_le : 1 ≤ k
  later : Later cal now sc k
  least : ∀ j, 1 ≤ j → j < k → ¬Later cal now sc j

/-- No two occurrences of a schedule fall together. -/
def Distinct (cal : Calendar) (sc : Schedule) : Prop :=
  ∀ j k t, cal.plusTimes sc.nextRunAt sc.everyInterval j = some t →
    cal.plusTimes sc.nextRunAt sc.everyInterval k = some t → j = k

/-- The calendar and the length of the interval agree on a schedule's occurrences, from the first to
the one past now.  A length below zero fits only into no time at all. -/
def Aligned (cal : Calendar) (now : Nat) (sc : Schedule) : Prop :=
  let elapsed := now - sc.nextRunAt
  let length := sc.everyInterval.epoch
  (0 < length ∧ elapsed < (2 ^ 31 - 1) * length ∧
    ∀ k, 1 ≤ k → (k - 1) * length ≤ elapsed → (Later cal now sc k ↔ elapsed < k * length)) ∨
  (length < 0 ∧ elapsed = 0 ∧ Later cal now sc 1)

/-- The steps are one more than the lengths that fit. -/
theorem le_steps_iff (now : Nat) {sc : Schedule} (hlength : 0 < sc.everyInterval.epoch) (k : Int) :
    k ≤ steps now sc ↔ (k - 1) * sc.everyInterval.epoch ≤ now - sc.nextRunAt := by
  unfold steps
  rw [Int.fdiv_eq_ediv_of_nonneg _ hlength.le, ← Int.le_ediv_iff_mul_le hlength]
  omega

theorem lt_steps_iff (now : Nat) {sc : Schedule} (hlength : 0 < sc.everyInterval.epoch) (k : Int) :
    k < steps now sc ↔ k * sc.everyInterval.epoch ≤ now - sc.nextRunAt := by
  have h := le_steps_iff now hlength (k + 1)
  rwa [Int.add_sub_cancel, Int.add_one_le_iff] at h

/-- A length below zero takes the schedule no step forward. -/
theorem steps_nonpos {sc : Schedule} (hlength : sc.everyInterval.epoch < 0)
    (hlate : sc.nextRunAt < now) : steps now sc ≤ 0 := by
  unfold steps
  rw [← Int.neg_fdiv_neg]
  have hneg := Int.fdiv_neg_of_neg_of_pos (a := -(now - sc.nextRunAt))
    (b := -sc.everyInterval.epoch) (by omega) (by omega)
  omega

theorem steps_of_now {sc : Schedule} (hnow : now - sc.nextRunAt = 0) : steps now sc = 1 := by
  unfold steps
  rw [hnow, Int.zero_fdiv]
  rfl

/-- **The step is the first later occurrence** when the calendar and the length agree up to it. -/
theorem firstLater_steps {sc : Schedule} (hdue : sc.nextRunAt ≤ now)
    (hlength : 0 < sc.everyInterval.epoch) :
    FirstLater cal now sc (steps now sc) ↔
      ∀ k, 1 ≤ k → (k - 1) * sc.everyInterval.epoch ≤ now - sc.nextRunAt →
        (Later cal now sc k ↔ now - sc.nextRunAt < k * sc.everyInterval.epoch) := by
  have hone : 1 ≤ steps now sc := by
    rw [le_steps_iff now hlength, Int.sub_self, Int.zero_mul]
    omega
  constructor
  · intro hfirst k hk hfits
    rw [← le_steps_iff now hlength] at hfits
    rw [← Int.not_le, ← lt_steps_iff now hlength]
    constructor
    · intro hlater hlt
      exact hfirst.least k hk hlt hlater
    · intro hge
      rw [show k = steps now sc by omega]
      exact hfirst.later
  · intro hagree
    refine ⟨hone, ?_, ?_⟩
    · have hfits := (le_steps_iff now hlength (steps now sc)).mp le_rfl
      have hover := mt (lt_steps_iff now hlength (steps now sc)).mpr (lt_irrefl _)
      exact (hagree _ hone hfits).mpr (Int.not_le.mp hover)
    · intro j hj hlt hlater
      have hfits := (le_steps_iff now hlength j).mp hlt.le
      have hover := (lt_steps_iff now hlength j).mp hlt
      exact absurd ((hagree j hj hfits).mp hlater) (Int.not_lt.mpr hover)

/-- The schedules whose next run is their first later occurrence. -/
theorem aligned_iff {sc : Schedule} (hdue : sc.nextRunAt ≤ now) :
    Aligned cal now sc ↔
      sc.everyInterval.epoch ≠ 0 ∧ inInt (steps now sc - 1) = true ∧ inInt (steps now sc) = true ∧
        FirstLater cal now sc (steps now sc) := by
  unfold Aligned
  simp only [inInt_iff]
  rcases lt_trichotomy sc.everyInterval.epoch 0 with hneg | hzero | hpos
  · by_cases hnow : now - sc.nextRunAt = 0
    · -- due this very moment: one step
      rw [steps_of_now hnow]
      constructor
      · rintro (⟨hpos, -⟩ | ⟨-, -, hlater⟩)
        · omega
        · exact ⟨hneg.ne, by omega, by omega, le_rfl, hlater, fun j hj hlt => by omega⟩
      · rintro ⟨-, -, -, hfirst⟩
        exact .inr ⟨hneg, hnow, hfirst.later⟩
    · constructor
      · rintro (⟨hpos, -⟩ | ⟨-, hzero, -⟩)
        · omega
        · exact absurd hzero hnow
      · rintro ⟨-, -, -, hfirst⟩
        have hback := steps_nonpos hneg (by omega : sc.nextRunAt < now)
        exact absurd hfirst.one_le (by omega)
  · constructor
    · rintro (⟨hpos, -⟩ | ⟨hneg, -⟩) <;> omega
    · rintro ⟨hne, -⟩
      exact absurd hzero hne
  · have hrange : steps now sc < 2 ^ 31 ↔
        now - sc.nextRunAt < (2 ^ 31 - 1) * sc.everyInterval.epoch := by
      rw [← Int.not_le, ← Int.not_le, le_steps_iff now hpos]
    rw [← firstLater_steps hdue hpos, ← hrange]
    constructor
    · rintro (⟨-, hlt, hfirst⟩ | ⟨hneg, -⟩)
      · have hone := hfirst.one_le
        exact ⟨hpos.ne', by omega, by omega, hfirst⟩
      · omega
    · rintro ⟨-, -, hint, hfirst⟩
      exact .inl ⟨hpos, hint.2, hfirst⟩

/-! ### The tick against the calendar -/

/-- What a tick is for: each due schedule gets one job and its first later occurrence, and the other
rows stay. -/
structure CatchesUp (cal : Calendar) (now : Nat) (s : ScheduleTables) (r : Nat × ScheduleTables) :
    Prop where
  fired : r.1 = (s.schedules.rows.filter (due now s.queue)).length
  queue : ∃ todo : List Schedule, todo.Perm (s.schedules.rows.filter (due now s.queue)) ∧
    r.2.queue = s.queue ++ todo.map (job now)
  advanced : ∀ sc ∈ s.schedules.rows, due now s.queue sc = true →
    ∃ k t, FirstLater cal now sc k ∧
      cal.plusTimes sc.nextRunAt sc.everyInterval k = some t ∧
      r.2.schedules.get sc.scheduleId = some (advanced now t sc)
  unchanged : ∀ sc ∈ s.schedules.rows, due now s.queue sc = false →
    r.2.schedules.get sc.scheduleId = some sc
  absent : ∀ id, s.schedules.get id = none → r.2.schedules.get id = none

theorem selected_perm (now : Nat) (s : ScheduleTables) :
    (selected now s).Perm (s.schedules.rows.filter (due now s.queue)) :=
  List.perm_insertionSort _ _

theorem nextRunAt_le_of_due {queue : List QueueRow} {sc : Schedule}
    (h : due now queue sc = true) : sc.nextRunAt ≤ now := by
  simp only [due, Bool.and_eq_true, decide_eq_true_eq] at h
  exact h.1.2

/-- Rows with other ids are not selected. -/
theorem notMem_selected_ids {s : ScheduleTables} {id : Uuid}
    (h : ∀ sc ∈ s.schedules.rows, sc.scheduleId = id → due now s.queue sc = false) :
    id ∉ (selected now s).map Schedule.scheduleId := by
  intro hmem
  obtain ⟨sc, hsc, rfl⟩ := List.mem_map.mp hmem
  obtain ⟨hrow, hdue⟩ := mem_selected.mp hsc
  rw [h sc hrow rfl] at hdue
  cases hdue

/-- A tick that returns catches up as far as the next runs do. -/
theorem catchesUp_of_ok {s : ScheduleTables} {r : Nat × ScheduleTables}
    (h : tick cal now s = .ok r)
    (hnext : ∀ sc ∈ s.schedules.rows, due now s.queue sc = true → ∀ t, nextRun cal now sc = .ok t →
      FirstLater cal now sc (steps now sc)) : CatchesUp cal now s r := by
  obtain ⟨hcount, hfired⟩ := tick_ok h
  refine ⟨hcount.trans (selected_perm now s).length_eq,
    ⟨_, selected_perm now s, hfired.queue⟩, ?_, ?_, ?_⟩
  · intro sc hrow hdue
    obtain ⟨t, ht, hget⟩ := hfired.advanced sc (mem_selected.mpr ⟨hrow, hdue⟩)
    exact ⟨steps now sc, t, hnext sc hrow hdue t ht, (nextRun_eq_ok.mp ht).2.2.2, hget⟩
  · intro sc hrow hdue
    rw [← Table.get_of_mem hrow]
    apply hfired.others
    apply notMem_selected_ids
    intro sc' hrow' hid
    have hget := Table.get_of_mem hrow'
    rw [hid, Table.get_of_mem hrow] at hget
    rwa [← Option.some.inj hget]
  · intro id hnone
    rw [← hnone]
    apply hfired.others
    apply notMem_selected_ids
    intro sc hrow hid
    rw [← hid, Table.get_of_mem hrow] at hnone
    cases hnone

/-- In a tick that catches up, the next run of a due schedule is its first later occurrence. -/
theorem nextRun_of_catchesUp {s : ScheduleTables} {r : Nat × ScheduleTables}
    (h : tick cal now s = .ok r) (hcatch : CatchesUp cal now s r) {sc : Schedule}
    (hrow : sc ∈ s.schedules.rows) (hdue : due now s.queue sc = true) :
    ∃ k t, FirstLater cal now sc k ∧ cal.plusTimes sc.nextRunAt sc.everyInterval k = some t ∧
      nextRun cal now sc = .ok t := by
  obtain ⟨t, ht, hget⟩ := (tick_ok h).2.advanced sc (mem_selected.mpr ⟨hrow, hdue⟩)
  obtain ⟨k, t', hfirst, hplus, hget'⟩ := hcatch.advanced sc hrow hdue
  have hsame : t = t' := congrArg Schedule.nextRunAt (Option.some.inj (hget.symm.trans hget'))
  exact ⟨k, t', hfirst, hplus, hsame ▸ ht⟩

/-- **A tick against the calendar**: it returns and catches up when calendar and lengths agree for
every due schedule, and, for schedules whose occurrences never fall together, only then. -/
theorem tick_catchesUp (cal : Calendar) (now : Nat) (s : ScheduleTables) :
    ((∀ sc ∈ s.schedules.rows, due now s.queue sc = true → Aligned cal now sc) →
      ∃ r, tick cal now s = .ok r ∧ CatchesUp cal now s r) ∧
    ((∀ sc ∈ s.schedules.rows, due now s.queue sc = true → Distinct cal sc) →
      (∃ r, tick cal now s = .ok r ∧ CatchesUp cal now s r) →
        ∀ sc ∈ s.schedules.rows, due now s.queue sc = true → Aligned cal now sc) := by
  constructor
  · intro haligned
    have hfirst : ∀ sc ∈ s.schedules.rows, due now s.queue sc = true →
        (∃ t, nextRun cal now sc = .ok t) ∧ FirstLater cal now sc (steps now sc) := by
      intro sc hrow hdue
      obtain ⟨hne, hprev, hint, hfirst⟩ :=
        (aligned_iff (nextRunAt_le_of_due hdue)).mp (haligned sc hrow hdue)
      obtain ⟨t, ht, -⟩ := hfirst.later
      exact ⟨⟨t, nextRun_eq_ok.mpr ⟨hne, hprev, hint, ht⟩⟩, hfirst⟩
    obtain ⟨r, hr⟩ : ∃ r, tick cal now s = .ok r := by
      apply tick_returns
      intro sc hsc
      obtain ⟨hrow, hdue⟩ := mem_selected.mp hsc
      exact (hfirst sc hrow hdue).1
    exact ⟨r, hr, catchesUp_of_ok hr fun sc hrow hdue _ _ => (hfirst sc hrow hdue).2⟩
  · rintro hdistinct ⟨r, hr, hcatch⟩ sc hrow hdue
    obtain ⟨k, t, hfirst, hplus, hnext⟩ := nextRun_of_catchesUp hr hcatch hrow hdue
    obtain ⟨hne, hprev, hint, hsteps⟩ := nextRun_eq_ok.mp hnext
    have hk : steps now sc = k := hdistinct sc hrow hdue _ _ _ hsteps hplus
    rw [aligned_iff (nextRunAt_le_of_due hdue)]
    exact ⟨hne, hprev, hint, hk ▸ hfirst⟩

/-- An interval of a fixed length is aligned wherever the count of its intervals is in range. -/
theorem aligned_of_fixed {sc : Schedule} (hlength : 0 < sc.everyInterval.epoch)
    (hfixed : ∀ k, cal.plusTimes sc.nextRunAt sc.everyInterval k =
      some (sc.nextRunAt + k * sc.everyInterval.epoch))
    (hrange : now - sc.nextRunAt < (2 ^ 31 - 1) * sc.everyInterval.epoch) :
    Aligned cal now sc := by
  refine .inl ⟨hlength, hrange, ?_⟩
  intro k _ _
  unfold Later
  rw [hfixed k]
  simp only [Option.some.injEq, exists_eq_left']
  omega

/-! ### A monthly schedule -/

namespace Monthly

/-- The number of a day of the Gregorian calendar, from 1 January 1970. -/
def dayOf (year month day : Int) : Int :=
  let y := if month ≤ 2 then year - 1 else year
  let ofEra := y % 400
  let ofYear := (153 * ((month + 9) % 12) + 2) / 5 + day - 1
  y / 400 * 146097 + (ofEra * 365 + ofEra / 4 - ofEra / 100 + ofYear) - 719468

/-- The year, the month and the day of the month of a day. -/
def dateOf (n : Int) : Int × Int × Int :=
  let z := n + 719468
  let ofEra := z % 146097
  let y := (ofEra - ofEra / 1460 + ofEra / 36524 - ofEra / 146096) / 365
  let ofYear := ofEra - (365 * y + y / 4 - y / 100)
  let m := (5 * ofYear + 2) / 153
  let month := if m < 10 then m + 3 else m - 9
  let year := y + z / 146097 * 400
  (if month ≤ 2 then year + 1 else year, month, ofYear - (153 * m + 2) / 5 + 1)

/-- The day some months after a day, or the last of its month where that is earlier. -/
def plusMonths (n months : Int) : Int :=
  let (year, month, day) := dateOf n
  let m := year * 12 + (month - 1) + months
  let first := dayOf (m / 12) (m % 12 + 1) 1
  let next := dayOf ((m + 1) / 12) ((m + 1) % 12 + 1) 1
  first + min day (next - first) - 1

/-- The calendar of the time zone UTC: the months first, then the days, then the time. -/
def utc : Calendar where
  plusTimes t i k :=
    let n := plusMonths (t / 86400000000) (i.months * k) + i.days * k
    let sum := n * 86400000000 + t % 86400000000 + i.micros * k
    if -210866803200000000 ≤ sum && sum < 9224318016000000000 then some sum else none

/-- Every month, and due on 15 January 2026. -/
def report : Schedule where
  scheduleId := ⟨1⟩
  app := "ledger"
  agent := "bookkeeper"
  input := "write the monthly report"
  everyInterval := ⟨1, 0, 0⟩
  nextRunAt := dayOf 2026 1 15 * 86400000000
  lastRunAt := none
  enabled := true
  positive := by decide

def tables : ScheduleTables := ⟨⟨[report], List.nodup_singleton _⟩, []⟩

/-- Noon of 14 February 2026: 30.5 days after the schedule was due. -/
def noon : Nat := 1771070400000000

/-- One 30-day month fits in those days, and the tick goes on to March, past 15 February. -/
theorem skips_february :
    ¬∃ r, tick utc noon tables = .ok r ∧ CatchesUp utc noon tables r := by
  rintro ⟨r, hr, hcatch⟩
  have hrow : report ∈ tables.schedules.rows := List.mem_singleton_self _
  have hdue : due noon tables.queue report = true := by decide +kernel
  have hlater : Later utc noon report 1 :=
    ⟨dayOf 2026 2 15 * 86400000000, by decide +kernel, by decide +kernel⟩
  have hmarch : nextRun utc noon report = .ok (dayOf 2026 3 15 * 86400000000) := by
    decide +kernel
  have hfebruary : utc.plusTimes report.nextRunAt report.everyInterval 1 =
      some (dayOf 2026 2 15 * 86400000000) := by
    decide +kernel
  obtain ⟨k, t, hfirst, hplus, hnext⟩ := nextRun_of_catchesUp hr hcatch hrow hdue
  have hk : k = 1 := by
    have hle : ¬1 < k := fun hlt => hfirst.least 1 le_rfl hlt hlater
    have hge := hfirst.one_le
    omega
  rw [hk, hfebruary] at hplus
  rw [hmarch] at hnext
  have hsame := (Option.some.inj hplus).trans (Except.ok.inj hnext).symm
  exact absurd hsame (by decide +kernel)

end Monthly

end Tick

end PgSynapse
