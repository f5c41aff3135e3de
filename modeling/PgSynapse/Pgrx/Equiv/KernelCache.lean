import PgSynapse.Pgrx.KernelCache

/-!
# Coherence of the kernel cache

A kernel that was built after an uncommitted change outlives the rollback of that change.  Where no
rollback meets one, every run is on the kernel that would be built from the configuration it sees
(`execute_kernel_coherent`).
-/

namespace PgSynapse

namespace BackendEnv

variable {σ ε : Type} {env : BackendEnv σ ε} {s s' : TxnCache Config (Runtime σ ε)}

/-- A transaction that is rolled back leaves no kernel in the slot, or has not changed the
configuration. -/
def RollbackSafe (s : TxnCache Config (Runtime σ ε)) : BackendAct → Prop
  | .rollback => s.RollbackSafe
  | .commit => s.aborted = true → s.RollbackSafe
  | _ => True

theorem step_coherent {a : BackendAct} (hsafe : RollbackSafe s a) (hs : s.Coherent env.build)
    (h : env.step s a = some s') : s'.Coherent env.build := by
  cases a with
  | configure call =>
    obtain ⟨-, h⟩ := Option.ite_none_left_eq_some.mp h
    obtain rfl := Option.some.inj h
    exact hs.write (call.run env.pg)
  | execute =>
    obtain ⟨-, h⟩ := Option.ite_none_left_eq_some.mp h
    obtain rfl := Option.some.inj h
    exact hs.read
  | error =>
    obtain rfl := Option.some.inj h
    exact hs.fail
  | commit =>
    obtain rfl := Option.some.inj h
    -- COMMIT of a transaction that failed is a rollback
    exact hs.commit hsafe
  | rollback =>
    obtain rfl := Option.some.inj h
    exact hs.rollback hsafe

theorem runActs_coherent {acts : List BackendAct} (hsafe : Along env.step RollbackSafe s acts)
    (hs : s.Coherent env.build) (h : runActs env.step s acts = some s') :
    s'.Coherent env.build :=
  runActs_invariant (fun _ _ _ hG hInv hstep => step_coherent hG hInv hstep) hsafe hs h

/-- **Coherence**: in every sequence of transactions whose rollbacks are safe, an `execute` that comes
next runs on the kernel that would be built from the configuration it sees. -/
theorem execute_kernel_coherent (env : BackendEnv σ ε) (cfg : Config) (acts : List BackendAct)
    (s : TxnCache Config (Runtime σ ε)) (hrun : runActs env.step (.init cfg) acts = some s)
    (hsafe : Along env.step RollbackSafe (.init cfg) acts) :
    env.kernelHandle s = env.build s.visible := by
  have hcoherent : s.Coherent env.build :=
    runActs_coherent hsafe (TxnCache.coherent_init cfg) hrun
  exact hcoherent.handle_eq

end BackendEnv

/-! ### An agent that is rolled back -/

namespace RolledBack

/-- A backend without plugins. -/
def env : BackendEnv Unit Unit where
  registry := ⟨.empty, fun _ => none, fun _ => none, fun _ => none⟩
  retry := id
  pg := {
    gucs := ⟨none, none, none, none, 0, 0, 0, none, none, none⟩
    crypto := ⟨fun value _ _ => value, fun text _ => .ok text⟩
    collate := fun a b => a ≤ b
    parseF64 := fun _ => none }

/-- The creation of an agent. -/
def create : BackendAct :=
  .configure (.agentCreate "scout" "Look around." "conversation" none [] 10 60000)

/-- The agent is dropped, which is rolled back; the slot is empty then. -/
theorem dropped_agent_back :
    ∃ s kernel, runActs env.step (.init .empty)
        [create, .execute, .commit, .configure (.agentDrop "scout"), .rollback] = some s ∧
      env.kernelHandle s = .ok kernel ∧ env.build s.visible = .ok kernel ∧
      (kernel.agents "scout").isSome := by
  refine ⟨_, _, rfl, rfl, ?_, rfl⟩
  rw [← BackendEnv.execute_kernel_coherent env .empty
    [create, .execute, .commit, .configure (.agentDrop "scout"), .rollback] _ rfl]
  · rfl
  · -- the COMMIT is not one of a failed transaction, and the DROP has cleared the slot
    refine .cons trivial rfl (.cons trivial rfl (.cons ?_ rfl
      (.cons trivial rfl (.cons (.inl rfl) rfl trivial))))
    intro haborted
    cases haborted

/-- The creation of an agent is rolled back after a run, and the kernel still has the agent. -/
theorem rolled_back_agent_stays :
    ∃ s kernel kernel', runActs env.step (.init .empty) [create, .execute, .rollback] = some s ∧
      env.kernelHandle s = .ok kernel ∧ env.build s.visible = .ok kernel' ∧
      (kernel.agents "scout").isSome ∧ kernel'.agents "scout" = none ∧
      env.kernelHandle s ≠ env.build s.visible := by
  obtain ⟨s, kernel, kernel', hrun, hhandle, hbuild, hsome, hnone⟩ : ∃ s kernel kernel',
      runActs env.step (.init .empty) [create, .execute, .rollback] = some s ∧
        env.kernelHandle s = .ok kernel ∧ env.build s.visible = .ok kernel' ∧
        (kernel.agents "scout").isSome ∧ kernel'.agents "scout" = none :=
    ⟨_, _, _, rfl, rfl, rfl, rfl, rfl⟩
  refine ⟨s, kernel, kernel', hrun, hhandle, hbuild, hsome, hnone, fun hsame => ?_⟩
  rw [hhandle, hbuild, Except.ok.injEq] at hsame
  rw [hsame, hnone] at hsome
  cases hsome

end RolledBack

end PgSynapse
