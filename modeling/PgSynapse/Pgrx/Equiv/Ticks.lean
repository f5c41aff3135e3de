import PgSynapse.Pgrx.Equiv.Schedules
import PgSynapse.Pgrx.Ticks
import Mathlib.Data.List.Chain

/-!
# Ticks one after another

Ticks that run side by side do to the schedules what the same firings do one after another, in the
order of the commits (`Serial`).  A tick fires a row only while it has it locked, so nothing comes
between the row it has read and the one it writes.  Hence no occurrence of a schedule is fired twice,
and each firing has its one job (`ticks_serialize`).
-/

namespace PgSynapse

variable {cal : Calendar}

/-! ### One firing after another -/

namespace Firing

/-- The schedule of a firing. -/
def id (f : Firing) : Uuid := f.row.scheduleId

/-- The row that a firing leaves. -/
def after (f : Firing) : Schedule := Tick.advanced f.now f.next f.row

/-- The job of a firing. -/
def job (f : Firing) : QueueRow := Tick.job f.now f.row

/-- A firing of the row that is there, which is enabled and due. -/
structure Fires (cal : Calendar) (rows : Uuid → Option Schedule) (f : Firing) : Prop where
  row : rows f.id = some f.row
  enabled : f.row.enabled = true
  due : f.row.nextRunAt ≤ f.now
  next : Tick.nextRun cal f.now f.row = .ok f.next

end Firing

open Firing (Fires)

/-- The schedules after events that happen one after another. -/
inductive Serial (cal : Calendar) : List ScheduleEvent → (Uuid → Option Schedule) → Prop where
  | init : Serial cal [] fun _ => none
  | put {history : List ScheduleEvent} {rows : Uuid → Option Schedule} (h : Serial cal history rows)
      (row : Schedule) :
    Serial cal (history ++ [.put row]) (Function.update rows row.scheduleId (some row))
  | remove {history : List ScheduleEvent} {rows : Uuid → Option Schedule}
      (h : Serial cal history rows) (id : Uuid) :
    Serial cal (history ++ [.remove id]) (Function.update rows id none)
  | fire {history : List ScheduleEvent} {rows : Uuid → Option Schedule} {f : Firing}
      (h : Serial cal history rows) (hfires : Fires cal rows f) :
    Serial cal (history ++ [.fired f]) (Function.update rows f.id (some f.after))

/-- The firings of a history. -/
def firings (history : List ScheduleEvent) : List Firing :=
  history.filterMap fun
    | .fired f => some f
    | _ => none

/-- The firings of a schedule since its row was last put or removed, after one more event. -/
def sinceEdit (id : Uuid) (fs : List Firing) : ScheduleEvent → List Firing
  | .put row => if row.scheduleId = id then [] else fs
  | .remove k => if k = id then [] else fs
  | .fired f => if f.id = id then fs ++ [f] else fs

/-- The firings of a schedule since its row was last put or removed. -/
def firingsOf (id : Uuid) (history : List ScheduleEvent) : List Firing :=
  history.foldl (sinceEdit id) []

/-- A firing starts from the row that the one before left. -/
def Firing.Continues (f g : Firing) : Prop := g.row = f.after

theorem firings_append (history events : List ScheduleEvent) :
    firings (history ++ events) = firings history ++ firings events :=
  List.filterMap_append

theorem firingsOf_concat (id : Uuid) (history : List ScheduleEvent) (e : ScheduleEvent) :
    firingsOf id (history ++ [e]) = sinceEdit id (firingsOf id history) e := by
  rw [firingsOf, List.foldl_append]
  rfl

theorem firings_map_fired (fs : List Firing) : firings (fs.map .fired) = fs := by
  simp [firings, List.filterMap_map]

namespace Serial

variable {history : List ScheduleEvent} {rows rows' : Uuid → Option Schedule} {id : Uuid}

/-- Every row is under its own id. -/
theorem keyed (h : Serial cal history rows) : ∀ id row, rows id = some row → row.scheduleId = id := by
  have hupdate : ∀ (rows : Uuid → Option Schedule) (k : Uuid) (v : Option Schedule),
      (∀ id row, rows id = some row → row.scheduleId = id) →
      (∀ row, v = some row → row.scheduleId = k) →
      ∀ id row, Function.update rows k v id = some row → row.scheduleId = id := by
    intro rows k v hrows hv id row hrow
    by_cases hid : id = k
    · rw [hid, Function.update_self] at hrow
      rw [hid]
      exact hv row hrow
    · rw [Function.update_of_ne hid] at hrow
      exact hrows id row hrow
  induction h with
  | init => exact fun _ _ h => absurd h (by simp)
  | put _ row ih => exact hupdate _ _ _ ih fun r hr => by rw [← Option.some.inj hr]
  | remove _ id ih => exact hupdate _ _ _ ih fun r hr => absurd hr (by simp)
  | @fire _ _ f _ _ ih => exact hupdate _ _ _ ih fun r hr => by rw [← Option.some.inj hr]; rfl

/-- **Firings of different schedules**, one after another. -/
theorem fireAll {fs : List Firing} (h : Serial cal history rows)
    (hfires : ∀ f ∈ fs, Fires cal rows f) (hnodup : (fs.map Firing.id).Nodup)
    (hfired : ∀ f ∈ fs, rows' f.id = some f.after)
    (hother : ∀ id, id ∉ fs.map Firing.id → rows' id = rows id) :
    Serial cal (history ++ fs.map .fired) rows' := by
  induction fs generalizing history rows with
  | nil =>
    obtain rfl : rows' = rows := funext fun id => hother id List.not_mem_nil
    simpa using h
  | cons f fs ih =>
    obtain ⟨hnotMem, hnodup⟩ := List.nodup_cons.mp hnodup
    have hne : ∀ g ∈ fs, g.id ≠ f.id := by
      intro g hg heq
      exact hnotMem (List.mem_map.mpr ⟨g, hg, heq⟩)
    have hfirst := h.fire (hfires f List.mem_cons_self)
    rw [List.map_cons, List.append_cons]
    apply ih hfirst
    · intro g hg
      obtain ⟨hrow, henabled, hdue, hnext⟩ := hfires g (List.mem_cons_of_mem f hg)
      refine ⟨?_, henabled, hdue, hnext⟩
      rwa [Function.update_of_ne (hne g hg)]
    · exact hnodup
    · exact fun g hg => hfired g (List.mem_cons_of_mem f hg)
    · intro id hid
      by_cases hf : id = f.id
      · rw [hf, Function.update_self]
        exact hfired f List.mem_cons_self
      · rw [Function.update_of_ne hf]
        exact hother id (by simp [hf, hid])

/-- The firings of a schedule hang together, and its row is the one that the last of them left. -/
theorem continues (h : Serial cal history rows) (id : Uuid) :
    (firingsOf id history).IsChain Firing.Continues ∧
      ∀ f, (firingsOf id history).getLast? = some f → rows id = some f.after := by
  induction h with
  | init => exact ⟨.nil, fun f hf => absurd hf (by simp [firingsOf])⟩
  | put h row ih =>
    rw [firingsOf_concat, sinceEdit]
    split_ifs with hid
    · exact ⟨.nil, fun f hf => absurd hf (by simp)⟩
    · rw [Function.update_of_ne (Ne.symm hid)]
      exact ih
  | remove h k ih =>
    rw [firingsOf_concat, sinceEdit]
    split_ifs with hid
    · exact ⟨.nil, fun f hf => absurd hf (by simp)⟩
    · rw [Function.update_of_ne (Ne.symm hid)]
      exact ih
  | @fire history rows f h hfires ih =>
    rw [firingsOf_concat, sinceEdit]
    split_ifs with hid
    · subst hid
      constructor
      · refine List.isChain_append.mpr ⟨ih.1, .singleton f, fun g hg f' hf' => ?_⟩
        obtain rfl : f = f' := Option.some.inj hf'
        have hrow := hfires.row.symm.trans (ih.2 g hg)
        exact Option.some.inj hrow
      · intro g hg
        rw [List.getLast?_concat] at hg
        rw [Function.update_self, Option.some.inj hg]
    · rw [Function.update_of_ne (Ne.symm hid)]
      exact ih

/-- Every firing of a history was of a row that was enabled and due. -/
theorem fired_due (h : Serial cal history rows) (id : Uuid) :
    ∀ f ∈ firingsOf id history, f.row.nextRunAt ≤ f.now ∧
      Tick.nextRun cal f.now f.row = .ok f.next := by
  induction h with
  | init => exact fun f hf => absurd hf (by simp [firingsOf])
  | put h row ih =>
    rw [firingsOf_concat, sinceEdit]
    split_ifs with hid
    · exact fun f hf => absurd hf List.not_mem_nil
    · exact ih
  | remove h k ih =>
    rw [firingsOf_concat, sinceEdit]
    split_ifs with hid
    · exact fun f hf => absurd hf List.not_mem_nil
    · exact ih
  | @fire history rows f h hfires ih =>
    rw [firingsOf_concat, sinceEdit]
    split_ifs with hid
    · intro g hg
      rcases List.mem_append.mp hg with hg | hg
      · exact ih g hg
      · rw [List.mem_singleton.mp hg]
        exact ⟨hfires.due, hfires.next⟩
    · exact ih

/-- **No occurrence is fired twice**: where the calendar and the lengths agree, the next firing of a
schedule is of an occurrence later than the tick that fired it before. -/
theorem ordered (h : Serial cal history rows) (id : Uuid)
    (haligned : ∀ f ∈ firingsOf id history, Tick.Aligned cal f.now f.row) :
    (firingsOf id history).Pairwise fun f g => (f.now : Int) < g.row.nextRunAt := by
  have hdue := h.fired_due id
  have hnext : ∀ f ∈ firingsOf id history, (f.now : Int) < f.next := by
    intro f hf
    obtain ⟨hdue, hnext⟩ := hdue f hf
    obtain ⟨-, -, -, hfirst⟩ := (Tick.aligned_iff hdue).mp (haligned f hf)
    obtain ⟨t, ht, hlater⟩ := hfirst.later
    have hplus := (Tick.nextRun_eq_ok.mp hnext).2.2.2
    obtain rfl : t = f.next := Option.some.inj (ht.symm.trans hplus)
    exact hlater
  let R : Firing → Firing → Prop := fun f g =>
    (f.now : Int) < g.row.nextRunAt ∧ g.row.nextRunAt ≤ g.now
  have htrans : ∀ {f g k}, R f g → R g k → R f k := by
    intro f g k hfg hgk
    exact ⟨lt_trans (lt_of_lt_of_le hfg.1 hfg.2) hgk.1, hgk.2⟩
  have : Trans R R R := ⟨htrans⟩
  have hchain : (firingsOf id history).IsChain R := by
    refine (h.continues id).1.imp_of_mem_imp fun f g hf hg hcont => ⟨?_, (hdue g hg).1⟩
    rw [hcont]
    exact hnext f hf
  exact hchain.pairwise.imp fun hfg => hfg.1

end Serial

/-! ### One tick -/

namespace TickTxn

/-- The loop of a tick: no schedule is met twice, and what is fetched is locked and due. -/
structure Loops (rows : Uuid → Option Schedule) (t : TickTxn) (candidates : List Uuid)
    (fetched : List Schedule) : Prop where
  nodup : (t.data.fired.map Firing.id ++ fetched.map Schedule.scheduleId ++ candidates).Nodup
  fetched : ∀ sc ∈ fetched, sc.scheduleId ∈ t.held ∧ rows sc.scheduleId = some sc ∧
    sc.enabled = true ∧ sc.nextRunAt ≤ t.data.now

/-- What holds of an open tick, over the committed rows. -/
structure Ok (cal : Calendar) (rows : Uuid → Option Schedule) (t : TickTxn) : Prop where
  held : ∀ id ∈ t.held, rows id ≠ none
  jobs : t.data.jobs = t.data.fired.map Firing.job
  fired : ∀ f ∈ t.data.fired, f.id ∈ t.held ∧ Fires cal rows f ∧ t.own f.id = some f.after
  own : ∀ id, t.own id ≠ none → id ∈ t.data.fired.map Firing.id
  started : t.data.phase = .started → t.data.fired = []
  looping : ∀ candidates fetched, t.data.phase = .looping candidates fetched →
    Loops rows t candidates fetched

variable {rows rows' : Uuid → Option Schedule} {t : TickTxn}

/-- A tick depends on the rows it has locked alone. -/
theorem Ok.transfer (h : Ok cal rows t) (hrows : ∀ id ∈ t.held, rows' id = rows id) :
    Ok cal rows' t where
  held id hid := by
    rw [hrows id hid]
    exact h.held id hid
  jobs := h.jobs
  fired f hf := by
    obtain ⟨hheld, hfires, hown⟩ := h.fired f hf
    exact ⟨hheld, ⟨(hrows f.id hheld).trans hfires.row, hfires.enabled, hfires.due, hfires.next⟩,
      hown⟩
  own := h.own
  started := h.started
  looping candidates fetched hphase := by
    have hloop := h.looping candidates fetched hphase
    refine ⟨hloop.nodup, fun sc hsc => ?_⟩
    obtain ⟨hheld, hrow, hdue⟩ := hloop.fetched sc hsc
    exact ⟨hheld, (hrows _ hheld).trans hrow, hdue⟩

theorem ok_new (cal : Calendar) (rows : Uuid → Option Schedule) (now : Nat) :
    Ok cal rows ⟨[], fun _ => none, ⟨now, .started, [], []⟩⟩ :=
  ⟨by simp, rfl, by simp, by simp, fun _ => rfl, fun _ _ hphase => by cases hphase⟩

/-- A tick comes to a turn of its loop. -/
theorem Ok.goto (h : Ok cal rows t) {candidates : List Uuid} {fetched : List Schedule}
    (hloop : Loops rows t candidates fetched) : Ok cal rows (goto t candidates fetched) where
  held := h.held
  jobs := h.jobs
  fired := h.fired
  own := h.own
  started hphase := by cases hphase
  looping candidates' fetched' hphase := by
    cases hphase
    exact ⟨hloop.nodup, hloop.fetched⟩

/-- The query of a tick. -/
theorem Ok.query (h : Ok cal rows t) (hphase : t.data.phase = .started) {candidates : List Uuid}
    (hnodup : candidates.Nodup) : Ok cal rows (TickTxn.goto t candidates []) := by
  refine h.goto ⟨?_, fun sc hsc => absurd hsc List.not_mem_nil⟩
  simpa [h.started hphase] using hnodup

/-- A row that a tick goes on without. -/
theorem Loops.skip {id : Uuid} {rest : List Uuid} {fetched : List Schedule}
    (h : Loops rows t (id :: rest) fetched) : Loops rows t rest fetched :=
  ⟨h.nodup.sublist ((List.sublist_cons_self id rest).append_left _), h.fetched⟩

/-- More locks do not matter to a loop. -/
theorem Loops.lock {candidates : List Uuid} {fetched : List Schedule}
    (h : Loops rows t candidates fetched) (id : Uuid) :
    Loops rows { t with held := id :: t.held } candidates fetched := by
  refine ⟨h.nodup, fun sc hsc => ?_⟩
  obtain ⟨hheld, hrest⟩ := h.fetched sc hsc
  exact ⟨List.mem_cons_of_mem id hheld, hrest⟩

/-- A tick locks a row that is there. -/
theorem Ok.lock (h : Ok cal rows t) {id : Uuid} {row : Schedule} (hrow : rows id = some row) :
    Ok cal rows { t with held := id :: t.held } where
  held k hk := by
    rcases List.mem_cons.mp hk with rfl | hk
    · rw [hrow]
      exact Option.some_ne_none row
    · exact h.held k hk
  jobs := h.jobs
  fired f hf := by
    obtain ⟨hheld, hrest⟩ := h.fired f hf
    exact ⟨List.mem_cons_of_mem id hheld, hrest⟩
  own := h.own
  started := h.started
  looping candidates fetched hphase := (h.looping candidates fetched hphase).lock id

/-- A fetch keeps what holds of a tick. -/
theorem Ok.fetch (h : Ok cal rows t) (hkeyed : ∀ id row, rows id = some row → row.scheduleId = id)
    {id : Uuid} {rest : List Uuid} {fetched : List Schedule}
    (hphase : t.data.phase = .looping (id :: rest) fetched) (locked : Bool) :
    Ok cal rows (fetch rows locked id rest fetched t) := by
  have hloop := h.looping _ _ hphase
  unfold TickTxn.fetch
  split_ifs with hlocked
  · exact h.goto hloop.skip
  split
  · exact h.goto hloop.skip
  · next row hrow =>
    have hlock := h.lock hrow
    have hloop' := hloop.lock id
    dsimp only
    split_ifs with hdue
    · rw [Bool.and_eq_true, decide_eq_true_eq] at hdue
      obtain rfl : row.scheduleId = id := hkeyed id row hrow
      refine hlock.goto ⟨?_, fun sc hsc => ?_⟩
      · simpa using hloop.nodup
      · rcases List.mem_append.mp hsc with hsc | hsc
        · exact hloop'.fetched sc hsc
        · rw [List.mem_singleton.mp hsc]
          exact ⟨List.mem_cons_self, hrow, hdue⟩
    · exact hlock.goto hloop'.skip

/-- A fetch locks at most its candidate, and that only where nobody else has. -/
theorem held_fetch (rows : Uuid → Option Schedule) (locked : Bool) (id : Uuid) (rest : List Uuid)
    (fetched : List Schedule) (t : TickTxn) :
    (∀ k ∈ (fetch rows locked id rest fetched t).held, k ∈ t.held ∨ (k = id ∧ locked = false)) ∧
    (∀ k ∈ t.held, k ∈ (fetch rows locked id rest fetched t).held) ∧
    (fetch rows locked id rest fetched t).own = t.own := by
  unfold TickTxn.fetch TickTxn.goto
  split_ifs with hlocked
  · exact ⟨fun k hk => .inl hk, fun k hk => hk, rfl⟩
  · split
    · exact ⟨fun k hk => .inl hk, fun k hk => hk, rfl⟩
    · dsimp only
      split_ifs <;> simp +contextual [hlocked, or_comm]

/-- The row that a tick fires is the one it has fetched. -/
theorem update_fetched {candidates : List Uuid} {sc : Schedule} {rest : List Schedule}
    (h : Ok cal rows t) (hloop : Loops rows t candidates (sc :: rest)) (f : Schedule → Schedule) :
    t.update rows sc.scheduleId f = Function.update t.own sc.scheduleId (some (f sc)) := by
  obtain ⟨-, hrow, -⟩ := hloop.fetched sc List.mem_cons_self
  have hown : t.own sc.scheduleId = none := by
    by_contra hne
    have hnodup := hloop.nodup
    rw [List.append_assoc] at hnodup
    exact (List.nodup_append.mp hnodup).2.2 _ (h.own _ hne) _ List.mem_cons_self rfl
  have hview : t.view rows sc.scheduleId = some sc := by rw [Txn.view, hown, hrow, Option.none_or]
  rw [Txn.update, hview]

/-- **One pass of the loop** keeps what holds of a tick. -/
theorem Ok.fire (h : Ok cal rows t) {candidates : List Uuid} {sc : Schedule} {rest : List Schedule}
    (hphase : t.data.phase = .looping candidates (sc :: rest)) {next : Int}
    (hnext : Tick.nextRun cal t.data.now sc = .ok next) :
    Ok cal rows (fire rows next sc candidates rest t) := by
  have hloop := h.looping _ _ hphase
  obtain ⟨hheld, hrow, henabled, hdue⟩ := hloop.fetched sc List.mem_cons_self
  have hupdate := update_fetched h hloop (Tick.advanced t.data.now next)
  have hnew : ∀ f ∈ t.data.fired, f.id ≠ sc.scheduleId := by
    intro f hf heq
    have hnodup := hloop.nodup
    rw [List.append_assoc] at hnodup
    exact (List.nodup_append.mp hnodup).2.2 f.id (List.mem_map.mpr ⟨f, hf, rfl⟩) sc.scheduleId
      List.mem_cons_self heq
  refine ⟨h.held, ?_, ?_, ?_, fun hstarted => (by cases hstarted), ?_⟩
  · show t.data.jobs ++ [_] = (t.data.fired ++ [_]).map Firing.job
    rw [List.map_append, h.jobs]
    rfl
  · intro f hf
    show f.id ∈ t.held ∧ Fires cal rows f ∧ t.update rows sc.scheduleId _ f.id = some f.after
    rw [hupdate]
    rcases List.mem_append.mp hf with hf | hf
    · rw [Function.update_of_ne (hnew f hf)]
      exact h.fired f hf
    · obtain rfl := List.mem_singleton.mp hf
      exact ⟨hheld, ⟨hrow, henabled, hdue, hnext⟩, Function.update_self ..⟩
  · intro id hid
    show id ∈ (t.data.fired ++ [_]).map Firing.id
    replace hid : t.update rows sc.scheduleId (Tick.advanced t.data.now next) id ≠ none := hid
    rw [hupdate] at hid
    rw [List.map_append, List.mem_append]
    by_cases heq : id = sc.scheduleId
    · exact .inr (List.mem_singleton.mpr heq)
    · rw [Function.update_of_ne heq] at hid
      exact .inl (h.own id hid)
  · intro candidates' fetched' hphase'
    cases hphase'
    refine ⟨?_, fun sc' hsc' => hloop.fetched sc' (List.mem_cons_of_mem sc hsc')⟩
    show ((t.data.fired ++ [_]).map Firing.id ++ _ ++ _).Nodup
    simpa [Firing.id] using hloop.nodup

end TickTxn

/-! ### All of them -/

namespace Scheduler

/-- What every run keeps. -/
structure Inv (cal : Calendar) (s : Scheduler) : Prop where
  store : s.store.Ok
  ticks : ∀ i t, s.store.txns i = some t → TickTxn.Ok cal s.store.rows t
  ids : s.ids.Nodup
  serial : Serial cal s.history s.store.rows
  enqueued : s.enqueued = (firings s.history).map Firing.job

theorem inv_init (cal : Calendar) : Inv cal init :=
  ⟨Store.ok_empty, fun _ _ h => (by cases h), List.nodup_nil, .init, rfl⟩

variable {s s' : Scheduler} {i : Nat} {t t' : TickTxn}

theorem candidates_nodup (h : s.ids.Nodup) (now : Nat) : (s.candidates now).Nodup :=
  (List.perm_insertionSort _ _).nodup_iff.mpr (h.filter _)

/-- **A tick goes on**: it locks rows that nobody else has locked, and has versions of locked rows
only. -/
theorem Inv.set (h : Inv cal s) (ht : s.store.txns i = some t) (hok : TickTxn.Ok cal s.store.rows t')
    (hheld : ∀ k ∈ t'.held, k ∈ t.held ∨ s.store.heldByOther i k = false) :
    Inv cal (s.set i t') := by
  refine ⟨h.store.set ht ?_ ?_, ?_, h.ids, h.serial, h.enqueued⟩
  · intro k hk j u hj hu
    rcases hheld k hk with hold | hfree
    · exact h.store.exclusive i j t u k (Ne.symm hj) ht hu hold
    · exact Store.not_held_of_heldByOther h.store hfree hj hu
  · intro k hk
    obtain ⟨f, hf, rfl⟩ := List.mem_map.mp (hok.own k hk)
    obtain ⟨hlock, hfires, -⟩ := hok.fired f hf
    refine .inr (.inl ⟨hlock, ?_⟩)
    rw [hfires.row]
    exact Option.some_ne_none f.row
  · intro j u hu
    rcases Store.txns_set s.store i t' hu with ⟨rfl, rfl⟩ | ⟨-, hu'⟩
    · exact hok
    · exact h.ticks j u hu'

/-- A user writes or deletes a row that nobody has locked. -/
theorem Inv.edit (h : Inv cal s) {id : Uuid} {row : Option Schedule} {event : ScheduleEvent}
    (hserial : Serial cal (s.history ++ [event]) (Function.update s.store.rows id row))
    (hevent : firings [event] = []) (hedit : s.edit id row event = some s') : Inv cal s' := by
  unfold Scheduler.edit at hedit
  split_ifs at hedit with hheld
  obtain rfl := Option.some.inj hedit
  have hfree : ∀ j u, s.store.txns j = some u → id ∉ u.held := fun j u hu =>
    Store.not_held_of_isHeld h.store (by simpa using hheld) hu
  refine ⟨h.store.setRow row fun j u hu => ?_, fun j u hu => ?_, h.ids.insert, hserial, ?_⟩
  · by_contra hne
    obtain ⟨f, hf, hid⟩ := List.mem_map.mp ((h.ticks j u hu).own id hne)
    exact hfree j u hu (hid ▸ ((h.ticks j u hu).fired f hf).1)
  · refine (h.ticks j u hu).transfer fun k hk => ?_
    show Function.update s.store.rows id row k = s.store.rows k
    apply Function.update_of_ne
    rintro rfl
    exact hfree j u hu hk
  · show s.enqueued = _
    rw [firings_append, hevent, List.append_nil]
    exact h.enqueued

/-- A tick begins. -/
theorem Inv.begin (h : Inv cal s) (now : Nat) :
    Inv cal { s with store := s.store.beginTxn ⟨now, .started, [], []⟩ } := by
  refine ⟨h.store.beginTxn _, fun j u hu => ?_, h.ids, h.serial, h.enqueued⟩
  rcases Store.txns_beginTxn s.store _ hu with rfl | hu'
  · exact TickTxn.ok_new cal _ now
  · exact h.ticks j u hu'

/-- A tick aborts. -/
theorem Inv.abort (h : Inv cal s) (i : Nat) : Inv cal { s with store := s.store.abort i } :=
  ⟨h.store.abort i, fun j u hu => h.ticks j u (Store.txns_abort s.store i hu).2, h.ids, h.serial,
    h.enqueued⟩

/-- **A tick commits**: the rows it has fired are still those it has read. -/
theorem Inv.commit (h : Inv cal s) (ht : s.store.txns i = some t)
    (hphase : t.data.phase = .looping [] []) :
    Inv cal { s with
      store := s.store.commit i t
      queue := s.queue ++ t.data.jobs
      enqueued := s.enqueued ++ t.data.jobs
      history := s.history ++ t.data.fired.map .fired } := by
  have hok := h.ticks i t ht
  refine ⟨h.store.commit ht, ?_, h.ids, ?_, ?_⟩
  · intro j u hu
    obtain ⟨hj, hu⟩ := Store.txns_abort s.store i hu
    have hu' := h.ticks j u hu
    exact hu'.transfer fun k hk => Store.rows_commit_of_held h.store ht hj hu hk (hu'.held k hk)
  · refine h.serial.fireAll (fun f hf => (hok.fired f hf).2.1) ?_ ?_ ?_
    · simpa using (hok.looping _ _ hphase).nodup
    · intro f hf
      show (t.own f.id).or _ = _
      rw [(hok.fired f hf).2.2, Option.some_or]
    · intro id hid
      apply Store.rows_commit_of_own
      by_contra hne
      exact hid (hok.own id hne)
  · show s.enqueued ++ t.data.jobs = _
    rw [firings_append, firings_map_fired, List.map_append, h.enqueued, hok.jobs]

/-- **One statement** of a tick keeps the invariant. -/
theorem Inv.tickStep (h : Inv cal s) (ht : s.store.txns i = some t) {act : TickAct}
    (hstep : s.tickStep cal i t act = some s') : Inv cal s' := by
  have hok := h.ticks i t ht
  cases act with
  | query =>
    simp only [Scheduler.tickStep] at hstep
    split at hstep
    · next hphase =>
      obtain rfl := Option.some.inj hstep
      exact h.set ht (hok.query hphase (candidates_nodup h.ids _)) fun k hk => .inl hk
    · cases hstep
  | fetch lockedOutside =>
    simp only [Scheduler.tickStep] at hstep
    split at hstep
    · next id rest fetched hphase =>
      obtain rfl := Option.some.inj hstep
      refine h.set ht (hok.fetch h.serial.keyed hphase _) fun k hk => ?_
      rcases (TickTxn.held_fetch _ _ _ _ _ t).1 k hk with hold | ⟨rfl, hfree⟩
      · exact .inl hold
      · exact .inr (Bool.or_eq_false_iff.mp hfree).2
    · cases hstep
  | fire =>
    simp only [Scheduler.tickStep] at hstep
    split at hstep
    · next candidates sc rest hphase =>
      split at hstep
      · cases hstep
      · next next hnext =>
        obtain rfl := Option.some.inj hstep
        exact h.set ht (hok.fire hphase hnext) fun k hk => .inl hk
    · cases hstep
  | commit =>
    simp only [Scheduler.tickStep] at hstep
    split at hstep
    · next hphase =>
      obtain rfl := Option.some.inj hstep
      exact h.commit ht hphase
    · cases hstep
  | abort =>
    obtain rfl := Option.some.inj hstep
    exact h.abort i

/-- **One step** keeps the invariant. -/
theorem inv_step (h : Inv cal s) {act : SchedulerAct} (hstep : s.step cal act = some s') :
    Inv cal s' := by
  cases act with
  | put row => exact h.edit (h.serial.put row) rfl hstep
  | remove id => exact h.edit (h.serial.remove id) rfl hstep
  | queue rows =>
    obtain rfl := Option.some.inj hstep
    exact ⟨h.store, h.ticks, h.ids, h.serial, h.enqueued⟩
  | begin now =>
    obtain rfl := Option.some.inj hstep
    exact h.begin now
  | tick i act =>
    rw [step] at hstep
    split at hstep
    · cases hstep
    · next t ht => exact h.tickStep ht hstep

/-- **Every run** keeps the invariant. -/
theorem inv_run {acts : List SchedulerAct} (h : runActs (step cal) init acts = some s) :
    Inv cal s :=
  runActs_invariant (fun _ _ _ _ hinv hstep => inv_step hinv hstep)
    (along_of_forall (P := fun _ => True) (fun _ _ => trivial) init) (inv_init cal) h

/-- **Ticks one after another**: whatever the order in which the statements of ticks and of users
interleave, the schedules are those that the committed edits and firings leave one after another, each
firing being of the row that was there, enabled and due.  Every firing has put one job into the queue.
Since the last edit of a schedule, each of its firings starts from the row that the one before left;
and where the tick of each was aligned with its row (`Tick.Aligned`), each is of an occurrence later
than the time of the tick that fired it before, so none is fired twice. -/
theorem ticks_serialize (cal : Calendar) (acts : List SchedulerAct) (s : Scheduler)
    (hrun : runActs (step cal) init acts = some s) :
    Serial cal s.history s.store.rows ∧
    s.enqueued = (firings s.history).map Firing.job ∧
    ∀ id, (firingsOf id s.history).IsChain Firing.Continues ∧
      ((∀ f ∈ firingsOf id s.history, Tick.Aligned cal f.now f.row) →
        (firingsOf id s.history).Pairwise fun f g => (f.now : Int) < g.row.nextRunAt) := by
  have hinv := inv_run hrun
  exact ⟨hinv.serial, hinv.enqueued, fun id => ⟨(hinv.serial.continues id).1,
    hinv.serial.ordered id⟩⟩

/-- A calendar of fixed lengths. -/
def plain : Calendar := ⟨fun t i k => some (t + k * i.epoch)⟩

/-- A schedule of every day, due at 100. -/
def daily : Schedule where
  scheduleId := ⟨7⟩
  app := "ledger"
  agent := "bookkeeper"
  input := "close the day"
  everyInterval := ⟨0, 1, 0⟩
  nextRunAt := 100
  lastRunAt := none
  enabled := true
  positive := by decide

/-- Three ticks have the schedule in their snapshots.  The second finds it locked by the first; the
third comes to it once the first has committed. -/
def threeTicks : List SchedulerAct :=
  [.put daily, .begin 200, .begin 200, .begin 200, .tick 0 .query, .tick 1 .query, .tick 2 .query,
    .tick 0 (.fetch false), .tick 1 (.fetch false), .tick 1 .commit, .tick 0 .fire, .tick 0 .commit,
    .tick 2 (.fetch false), .tick 2 .commit]

/-- One of the three fires it. -/
theorem fired_once_by_three : ∃ s, runActs (step plain) init threeTicks = some s ∧
    firings s.history = [⟨200, daily, 86400000100⟩] ∧ s.enqueued = [Tick.job 200 daily] ∧
    Serial plain s.history s.store.rows := by
  obtain ⟨s, hs, hfirings⟩ : ∃ s, runActs (step plain) init threeTicks = some s ∧
      firings s.history = [⟨200, daily, 86400000100⟩] := by
    refine ⟨_, rfl, ?_⟩
    rfl
  obtain ⟨hserial, hjobs, -⟩ := ticks_serialize plain threeTicks s hs
  rw [hfirings] at hjobs
  exact ⟨s, hs, hfirings, hjobs, hserial⟩

end Scheduler

end PgSynapse
