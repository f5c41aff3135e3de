import PgSynapse.Delegate.CallAgent

/-!
# What the depth counter counts

The invariant of a run (`Delegation.Inv`): the counter is the number of bodies inside the counted
section and of those that left it without a `fetch_sub`; of the bodies that await and those abandoned
there are at most `MAX_DELEGATION_DEPTH`.  Where every call goes on to its own end, the counter is the
number of bodies.
-/

namespace PgSynapse

namespace Delegation

variable {pool : WorkerPool} {s s' : Delegation}

/-- The bodies that await. -/
def awaiting (s : Delegation) : Nat := s.bodies.countP fun b => b.phase == .awaiting

/-- The bodies about to leave. -/
def refusing (s : Delegation) : Nat := s.bodies.countP fun b => b.phase == .refusing

/-- What every run keeps. -/
structure Inv (pool : WorkerPool) (s : Delegation) : Prop where
  counted : s.depth.toNat = s.bodies.length + s.abandoned
  awaiting_le : s.awaiting + s.abandoned ≤ maxDelegationDepth.toNat
  refusing_le : s.refusing ≤ pool.workers

theorem length_bodies (s : Delegation) : s.bodies.length = s.awaiting + s.refusing := by
  rw [awaiting, refusing]
  induction s.bodies with
  | nil => rfl
  | cons b bodies ih =>
    rw [List.length_cons, List.countP_cons, List.countP_cons, ih]
    cases b.phase <;> simp <;> omega

theorem entryPhase_eq_refusing {depth : UInt32} :
    entryPhase depth = .refusing ↔ maxDelegationDepth ≤ depth := by
  unfold entryPhase
  split <;> simp_all

theorem inv_init (pool : WorkerPool) : Inv pool init :=
  ⟨rfl, by decide, Nat.zero_le _⟩

/-- What a body does when it enters. -/
theorem enter_eq {parent : Option Nat} {agent : String} (h : s.enter pool parent agent = some s') :
    (entryPhase s.depth = .refusing → s.refusing < pool.workers) ∧
      s' = { s with
        depth := s.depth + 1
        next := s.next + 1
        bodies := s.bodies ++ [⟨s.next, parent, agent, entryPhase s.depth⟩] } := by
  unfold enter at h
  split at h
  · rename_i hguard
    refine ⟨fun hphase => ?_, (Option.some.inj h).symm⟩
    rw [Bool.and_eq_true, hphase] at hguard
    simpa [refusing] using hguard.2
  · cases h

/-- A body that enters. -/
theorem Inv.enter {parent : Option Nat} {agent : String} (hinv : Inv pool s)
    (h : s.enter pool parent agent = some s') : Inv pool s' := by
  obtain ⟨hworkers, rfl⟩ := enter_eq h
  have hlen := length_bodies s
  have hlt := pool.workers_lt
  have hmax : maxDelegationDepth.toNat = 4 := rfl
  obtain ⟨hcount, hle, href⟩ := hinv
  have hdepth : (s.depth + 1).toNat = s.depth.toNat + 1 := by
    rw [UInt32.toNat_add, UInt32.toNat_one]
    omega
  refine ⟨?_, ?_, ?_⟩
  · simp only [hdepth, List.length_append, List.length_singleton]
    omega
  · change List.countP _ (s.bodies ++ [_]) + s.abandoned ≤ _
    rw [List.countP_append, List.countP_singleton, ← awaiting]
    cases hphase : entryPhase s.depth with
    | refusing => simpa using hle
    | awaiting =>
      -- the depth it saw is below the limit
      have hbelow : ¬ maxDelegationDepth ≤ s.depth := by
        rw [← entryPhase_eq_refusing, hphase]
        simp
      rw [UInt32.le_iff_toNat_le] at hbelow
      simp only [beq_self_eq_true, if_true]
      omega
  · change List.countP _ (s.bodies ++ [_]) ≤ _
    rw [List.countP_append, List.countP_singleton, ← refusing]
    cases hphase : entryPhase s.depth with
    | awaiting => simpa using href
    | refusing =>
      have := hworkers hphase
      simp only [beq_self_eq_true, if_true]
      omega

/-- A body that leaves. -/
theorem leave_eq {id : Nat} {phase : BodyPhase} {r : String → Except ToolError ToolOutput}
    (h : s.leave id phase r = some s') :
    ∃ b l₁ l₂, s.bodies = l₁ ++ b :: l₂ ∧ s'.bodies = l₁ ++ l₂ ∧ s'.depth = s.depth - 1 ∧
      s'.abandoned = s.abandoned := by
  unfold leave at h
  split at h
  · cases h
  · rename_i b hb
    cases h
    obtain ⟨b', l₁, l₂, -, -, hsplit, herase⟩ :=
      List.exists_of_eraseP (List.mem_of_find?_eq_some hb) (List.find?_some hb)
    exact ⟨b', l₁, l₂, hsplit, herase, rfl, rfl⟩

theorem Inv.leave {id : Nat} {phase : BodyPhase} {r : String → Except ToolError ToolOutput}
    (hinv : Inv pool s) (h : s.leave id phase r = some s') : Inv pool s' := by
  obtain ⟨b, l₁, l₂, hsplit, hbodies, hdepth, habandoned⟩ := leave_eq h
  have hcount := hinv.counted
  have hle := hinv.awaiting_le
  have href := hinv.refusing_le
  simp only [awaiting, refusing, hsplit, List.countP_append, List.countP_cons, List.length_append,
    List.length_cons] at hcount hle href
  have hsub : (s.depth - 1).toNat = s.depth.toNat - 1 := by
    rw [UInt32.toNat_sub_of_le]
    · rfl
    · rw [UInt32.le_iff_toNat_le, UInt32.toNat_one]
      omega
  refine ⟨?_, ?_, ?_⟩
  · rw [hdepth, hsub, hbodies, habandoned, List.length_append]
    omega
  · simp only [awaiting, hbodies, habandoned, List.countP_append]
    omega
  · simp only [refusing, hbodies, List.countP_append]
    omega

/-- The bodies that are abandoned are all among those that await. -/
theorem abandon_counts (bodies : List Body) (gone : Body → Bool)
    (h : ∀ b ∈ bodies, (!gone b || b.phase == .awaiting) = true) :
    (bodies.filter fun b => !gone b).length + bodies.countP gone = bodies.length ∧
    (bodies.filter fun b => !gone b).countP (fun b => b.phase == .awaiting) + bodies.countP gone =
      bodies.countP (fun b => b.phase == .awaiting) ∧
    (bodies.filter fun b => !gone b).countP (fun b => b.phase == .refusing) =
      bodies.countP fun b => b.phase == .refusing := by
  induction bodies with
  | nil => simp
  | cons b bodies ih =>
    obtain ⟨h₁, h₂, h₃⟩ := ih fun b hb => h b (List.mem_cons_of_mem _ hb)
    have hb := h b List.mem_cons_self
    cases hg : gone b with
    | false => simp [List.countP_cons, hg, ← h₁, ← h₂, ← h₃]; omega
    | true =>
      rw [hg] at hb
      have hphase : b.phase = .awaiting := by simpa using hb
      simp [hg, hphase, ← h₁, ← h₂, ← h₃]; omega

/-- Bodies that are abandoned stay in the count. -/
theorem Inv.abandon {id : Nat} (hinv : Inv pool s) (h : s.abandon id = some s') : Inv pool s' := by
  unfold Delegation.abandon at h
  dsimp only at h
  split at h
  · rename_i hguard
    cases h
    rw [Bool.and_eq_true, List.all_eq_true] at hguard
    obtain ⟨hcount, hle, href⟩ := hinv
    have hsplit := abandon_counts s.bodies (fun b => (below id s.bodies).contains b.id) hguard.2
    simp only [awaiting, refusing] at hle href
    refine ⟨?_, ?_, ?_⟩
    · dsimp only
      omega
    · simp only [awaiting]
      omega
    · simp only [refusing]
      omega
  · cases h

/-- **One step** keeps the invariant, whichever it is. -/
theorem inv_step (hinv : Inv pool s) {act : CallAct} (h : s.step pool act = some s') :
    Inv pool s' := by
  cases act with
  | reject why =>
    cases h
    exact ⟨hinv.counted, hinv.awaiting_le, hinv.refusing_le⟩
  | enter parent agent => exact hinv.enter h
  | refuse id =>
    rw [step] at h
    exact hinv.leave h
  | finish id r =>
    rw [step] at h
    split at h
    · cases h
    · exact hinv.leave h
  | abandon id => exact hinv.abandon h

/-- **Every run** keeps the invariant. -/
theorem inv_run {acts : List CallAct} (h : runActs (step pool) init acts = some s) : Inv pool s :=
  runActs_invariant (fun _ _ _ _ hinv h => inv_step hinv h)
    (along_of_forall (P := fun _ => True) (fun _ _ => trivial) init) (inv_init pool) h

/-! ### Calls that go on to their own end -/

theorem leave_abandoned {id : Nat} {phase : BodyPhase} {r : String → Except ToolError ToolOutput}
    (h : s.leave id phase r = some s') : s'.abandoned = s.abandoned := by
  obtain ⟨_, _, _, -, -, -, h⟩ := leave_eq h
  exact h

theorem step_abandoned {act : CallAct} (hact : act.completes = true)
    (h : s.step pool act = some s') : s'.abandoned = s.abandoned := by
  cases act with
  | reject why =>
    cases h
    rfl
  | enter parent agent =>
    obtain ⟨-, rfl⟩ := enter_eq h
    rfl
  | refuse id =>
    rw [step] at h
    exact leave_abandoned h
  | finish id r =>
    rw [step] at h
    split at h
    · cases h
    · exact leave_abandoned h
  | abandon id => cases hact

/-- **The counter**: where every call goes on to its own end, `DELEGATION_DEPTH` is the number of bodies
between their increment and their decrement, and a call is refused exactly when there are
`MAX_DELEGATION_DEPTH` of them already. -/
theorem depth_counts_bodies (pool : WorkerPool) (acts : List CallAct)
    (hacts : ∀ act ∈ acts, act.completes = true) (s : Delegation)
    (hrun : runActs (step pool) init acts = some s) :
    s.depth.toNat = s.bodies.length ∧ (s.bodies = [] → s.depth = 0) ∧
    ∀ parent agent s', s.step pool (.enter parent agent) = some s' →
      ∃ b, s'.bodies = s.bodies ++ [b] ∧ b.parent = parent ∧ b.agent = agent ∧
        (b.phase = .refusing ↔ maxDelegationDepth.toNat ≤ s.bodies.length) := by
  have hinv := (inv_run hrun).counted
  have hzero : s.abandoned = 0 :=
    runActs_invariant (fun s₁ a s₂ ha h₁ h₂ => (step_abandoned ha h₂).trans h₁)
      (along_of_forall hacts init) rfl hrun
  have hdepth : s.depth.toNat = s.bodies.length := by omega
  refine ⟨hdepth, fun hnil => ?_, fun parent agent s' hstep => ?_⟩
  · rw [hnil, List.length_nil] at hdepth
    exact UInt32.toNat_inj.mp hdepth
  · obtain ⟨-, rfl⟩ := enter_eq hstep
    refine ⟨_, rfl, rfl, rfl, ?_⟩
    rw [entryPhase_eq_refusing, UInt32.le_iff_toNat_le, hdepth]

/-- One worker. -/
def oneWorker : WorkerPool := ⟨1, by decide⟩

/-- Two nested calls, one of which has ended. -/
def nestedCalls : List CallAct :=
  [.enter none "a", .enter (some 0) "b", .finish 1 (.ok "done")]

theorem depth_counts_nested :
    ∃ s, runActs (step oneWorker) init nestedCalls = some s ∧ s.depth.toNat = s.bodies.length := by
  obtain ⟨s, hs⟩ : ∃ s, runActs (step oneWorker) init nestedCalls = some s :=
    ⟨_, rfl⟩
  exact ⟨s, hs, (depth_counts_bodies oneWorker nestedCalls (by decide) s hs).1⟩

/-! ### One counter for all chains -/

/-- Five calls, none of them made by another. -/
def fiveCalls : List CallAct :=
  [.enter none "a", .enter none "b", .enter none "c", .enter none "d", .enter none "e"]

/-- The fifth is refused, though no call is above it. -/
theorem fifth_call_refused :
    ∃ s b, runActs (step oneWorker) init fiveCalls = some s ∧ b ∈ s.bodies ∧
      b.phase = .refusing ∧ chain s.bodies.reverse b.parent < maxDelegationDepth.toNat :=
  ⟨_, ⟨4, none, "e", .refusing⟩, rfl, by decide, rfl, by decide⟩

end Delegation

end PgSynapse
