import PgSynapse.Sidecar.RebuildRuntime

/-!
# Admin writes and the installed runtime

A build that no commit has overtaken reads the tables as they are, so what it comes to is the runtime
of the current tables (`BuildPhase.From`).  A runtime whose build was overtaken may be swapped in over
a newer one, and then a write is lost.  Where every such swap is followed by another, the runtime that
is installed in the end is that of the final tables (`no_admin_write_lost`).
-/

namespace PgSynapse

namespace Sidecar

variable {σ ε : Type} {registry : Registry σ ε}

/-! ### A build that is not overtaken -/

/-- All that the build has read is from one source. -/
def BuildPhase.From (registry : Registry σ ε) (source : ProfileSource) : BuildPhase σ ε → Prop
  | .started => True
  | .llmProfiles llm => source.llmProfiles = .ok llm
  | .embeddingProfiles llm emb => source.llmProfiles = .ok llm ∧ source.embeddingProfiles = .ok emb
  | .agents llm emb rows => source.llmProfiles = .ok llm ∧ source.embeddingProfiles = .ok emb ∧
      source.agents = .ok rows
  | .built result => result = Runtime.build registry id source

/-- A query that succeeds is one more thing read; one that fails is how the whole build fails. -/
theorem BuildPhase.from_next {α : Type} {source : ProfileSource} {answer : Except RuntimeError α}
    {k : α → BuildPhase σ ε} (hok : ∀ a, answer = .ok a → (k a).From registry source)
    (herror : ∀ e, answer = .error e → Runtime.build registry id source = .error e) :
    (next answer k).From registry source := by
  cases answer with
  | ok a => exact hok a rfl
  | error e => exact (herror e rfl).symm

theorem BuildPhase.From.read {source : ProfileSource} {phase : BuildPhase σ ε}
    (h : phase.From registry source) : (phase.read registry source).From registry source := by
  cases phase with
  | started =>
    refine from_next (fun llm hllm => hllm) fun e hllm => ?_
    rw [Runtime.build, hllm]
    rfl
  | llmProfiles llm =>
    have hllm : source.llmProfiles = .ok llm := h
    refine from_next (fun emb hemb => ⟨hllm, hemb⟩) fun e hemb => ?_
    rw [Runtime.build, hllm, hemb]
    rfl
  | embeddingProfiles llm emb =>
    obtain ⟨hllm, hemb⟩ := h
    refine from_next (fun rows hrows => ⟨hllm, hemb, hrows⟩) fun e hrows => ?_
    rw [Runtime.build, hllm, hemb, hrows]
    rfl
  | agents llm emb rows =>
    obtain ⟨hllm, hemb, hrows⟩ := h
    -- all rows are read, so the build is at its secrets
    have hbuild : Runtime.build registry id source =
        Runtime.fetchSecrets source llm emb >>= Runtime.assemble registry id llm emb rows := by
      rw [Runtime.build, hllm, hemb, hrows]
      rfl
    refine from_next (fun secrets hsecrets => ?_) fun e hsecrets => ?_
    · show _ = _
      rw [hbuild, hsecrets]
      rfl
    · rw [hbuild, hsecrets]
      rfl
  | built result => exact h

/-! ### The installed runtime -/

/-- A rebuild after the last commit is still to come from the request, or has failed. -/
def AdminPhase.Outstanding : AdminPhase σ ε → Prop
  | .committed => True
  | .building false _ => True
  | .failed => True
  | _ => False

namespace AppState

variable {s s' : AppState σ ε} {i : Nat}

/-- A rebuild is outstanding from a request. -/
def Outstanding (s : AppState σ ε) (i : Nat) : Prop :=
  ∃ task, s.requests i = some task ∧ task.phase.Outstanding

/-- **The order of swaps**: a runtime whose build was overtaken by a commit is swapped in only while a
rebuild is outstanding from another request. -/
def InOrder (s : AppState σ ε) : AdminAct → Prop
  | .swap i => ∀ request phase, s.requests i = some ⟨request, .building true phase⟩ →
      ∃ j, j ≠ i ∧ s.Outstanding j
  | _ => True

/-- What every step keeps. -/
structure Inv (registry : Registry σ ε) (s : AppState σ ε) : Prop where
  /-- A build that is not overtaken has read the tables as they are. -/
  reads : ∀ i request phase, s.requests i = some ⟨request, .building false phase⟩ →
    phase.From registry (sqlxProfileSource s.tables)
  /-- The installed runtime is that of the tables, unless a rebuild is outstanding. -/
  installed : buildRuntime registry s.tables = .ok s.runtime ∨ ∃ i, s.Outstanding i

theorem goto_requests_self (s : AppState σ ε) (i : Nat) (request : AdminRequest)
    (phase : AdminPhase σ ε) :
    (s.goto i request phase).requests i = some ⟨request, phase⟩ := Function.update_self ..

theorem goto_requests_of_ne (s : AppState σ ε) {i j : Nat} (request : AdminRequest)
    (phase : AdminPhase σ ε) (hne : j ≠ i) :
    (s.goto i request phase).requests j = s.requests j := Function.update_of_ne hne ..

theorem Outstanding.goto {j : Nat} (h : s.Outstanding j) (hne : j ≠ i) (request : AdminRequest)
    (phase : AdminPhase σ ε) : (s.goto i request phase).Outstanding j := by
  obtain ⟨task, htask, hphase⟩ := h
  exact ⟨task, (goto_requests_of_ne s request phase hne).trans htask, hphase⟩

/-- The builds of the other requests are where they were. -/
theorem reads_goto {request : AdminRequest} {phase : AdminPhase σ ε}
    (hs : ∀ j request' p, s.requests j = some ⟨request', .building false p⟩ →
      p.From registry (sqlxProfileSource s.tables))
    (hphase : ∀ p, phase = .building false p → p.From registry (sqlxProfileSource s.tables)) :
    ∀ j request' p, (s.goto i request phase).requests j = some ⟨request', .building false p⟩ →
      p.From registry (sqlxProfileSource s.tables) := by
  intro j request' p hj
  by_cases hne : j = i
  · subst hne
    rw [goto_requests_self, Option.some.injEq, AdminTask.mk.injEq] at hj
    exact hphase p hj.2
  · exact hs j request' p ((goto_requests_of_ne s request phase hne).symm.trans hj)

/-- A request moves on, and what was outstanding from it still is. -/
theorem Inv.goto (hs : Inv registry s) {request : AdminRequest} {phase : AdminPhase σ ε}
    (hreads : ∀ p, phase = .building false p → p.From registry (sqlxProfileSource s.tables))
    (hout : s.Outstanding i → phase.Outstanding) : Inv registry (s.goto i request phase) where
  reads := reads_goto hs.reads hreads
  installed := by
    rcases hs.installed with hfresh | ⟨j, hj⟩
    · exact .inl hfresh
    · right
      by_cases hne : j = i
      · subst hne
        exact ⟨j, _, goto_requests_self s j request phase, hout hj⟩
      · exact ⟨j, hj.goto hne request phase⟩

/-- A request moves on from a phase it is known to be in. -/
theorem Inv.move (hs : Inv registry s) {request : AdminRequest} {old phase : AdminPhase σ ε}
    (hi : s.requests i = some ⟨request, old⟩)
    (hreads : ∀ p, phase = .building false p → p.From registry (sqlxProfileSource s.tables))
    (hout : old.Outstanding → phase.Outstanding) : Inv registry (s.goto i request phase) := by
  refine hs.goto hreads ?_
  rintro ⟨task, htask, h⟩
  obtain rfl := Option.some.inj (hi.symm.trans htask)
  exact hout h

/-- A commit overtakes every build. -/
theorem write_requests_ne_building (s : AppState σ ε) (request request' : AdminRequest) (j : Nat)
    (phase : BuildPhase σ ε) :
    (s.write request).requests j ≠ some ⟨request', .building false phase⟩ := by
  intro h
  obtain ⟨task, htask, hover⟩ := Option.map_eq_some_iff.mp h
  unfold AdminTask.overtake at hover
  split at hover
  · cases hover
  · next hphase => exact hphase _ _ (congrArg AdminTask.phase hover)

theorem Inv.commit (s : AppState σ ε) (i : Nat) (request : AdminRequest) :
    Inv registry ((s.write request).goto i request .committed) where
  reads := reads_goto (s := s.write request)
    (fun j request' p hj => absurd hj (write_requests_ne_building s request request' j p))
    (fun p hp => by cases hp)
  installed := .inr ⟨i, _, goto_requests_self _ i request .committed, trivial⟩

theorem Inv.swap (hs : Inv registry s) {request : AdminRequest} {overtaken : Bool}
    {rebuilt : Runtime σ ε}
    (hi : s.requests i = some ⟨request, .building overtaken (.built (.ok rebuilt))⟩)
    (horder : InOrder s (.swap i)) :
    Inv registry { (s.goto i request .rebuilt) with runtime := rebuilt } where
  reads := reads_goto hs.reads fun p hp => by cases hp
  installed := by
    cases overtaken with
    | false =>
      left
      exact (hs.reads i request _ hi).symm
    | true =>
      obtain ⟨j, hne, hj⟩ := horder request _ hi
      exact .inr ⟨j, hj.goto hne request .rebuilt⟩

/-! ### Runs -/

theorem step_inv {a : AdminAct} (horder : InOrder s a) (hs : Inv registry s)
    (h : s.step registry a = some s') : Inv registry s' := by
  cases a with
  | arrive i request =>
    simp only [step] at h
    split at h
    · next hi =>
      obtain rfl := Option.some.inj h
      -- a new request is no task yet, so it owes no runtime to a commit
      refine hs.goto (fun p hp => by cases hp) ?_
      rintro ⟨task, htask, -⟩
      rw [hi] at htask
      cases htask
    · cases h
  | commit i =>
    simp only [step] at h
    split at h
    · next request hi =>
      obtain rfl := Option.some.inj h
      exact Inv.commit s i request
    · cases h
  | refuse i =>
    simp only [step] at h
    split at h
    · next request hi =>
      obtain rfl := Option.some.inj h
      exact hs.move hi (fun p hp => by cases hp) fun hout => hout
    · cases h
  | begin i =>
    simp only [step] at h
    split at h
    · next request hi =>
      obtain rfl := Option.some.inj h
      -- a build that begins has read nothing that could be old
      refine hs.move hi ?_ fun _ => trivial
      intro p hp
      obtain ⟨-, rfl⟩ := AdminPhase.building.inj hp
      trivial
    · cases h
  | read i =>
    simp only [step] at h
    split at h
    · next request overtaken phase hi =>
      obtain rfl := Option.some.inj h
      refine hs.move hi ?_ ?_
      · intro p hp
        obtain ⟨rfl, rfl⟩ := AdminPhase.building.inj hp
        exact (hs.reads i request phase hi).read
      · intro hout
        cases overtaken with
        | false => trivial
        | true => exact hout
    · cases h
  | swap i =>
    simp only [step] at h
    split at h
    · next request overtaken rebuilt hi =>
      obtain rfl := Option.some.inj h
      exact hs.swap hi horder
    · cases h
  | fail i =>
    simp only [step] at h
    split at h
    · next request overtaken phase hi =>
      obtain rfl := Option.some.inj h
      exact hs.move hi (fun p hp => by cases hp) fun _ => trivial
    · cases h

/-- The invariant at the start: the sidecar has built its runtime. -/
theorem inv_init {tables : Config} {runtime : Runtime σ ε}
    (h : buildRuntime registry tables = .ok runtime) : Inv registry (init tables runtime) where
  reads := by
    intro i request phase hi
    cases hi
  installed := .inl h

/-- **No write is lost**: in every interleaving of admin requests whose swaps are in order, once all
requests have returned with a successful rebuild, the installed runtime is the one built from the
final tables. -/
theorem no_admin_write_lost (registry : Registry σ ε) (tables : Config) (runtime : Runtime σ ε)
    (hstart : buildRuntime registry tables = .ok runtime) (acts : List AdminAct)
    (s : AppState σ ε) (hrun : runActs (step registry) (init tables runtime) acts = some s)
    (horder : Along (step registry) InOrder (init tables runtime) acts)
    (hreturned : ∀ i task, s.requests i = some task → task.phase = .rebuilt) :
    buildRuntime registry s.tables = .ok s.runtime := by
  have hs : Inv registry s := runActs_invariant
    (fun _ _ _ hG hInv hstep => step_inv hG hInv hstep) horder (inv_init hstart) hrun
  refine hs.installed.resolve_right ?_
  rintro ⟨i, task, htask, hout⟩
  rw [hreturned i task htask] at hout
  exact hout

end AppState

/-! ### Two requests -/

namespace TwoAdmins

/-- A registry without plugins. -/
def noPlugins : Registry Unit Unit := ⟨.empty, fun _ => none, fun _ => none, fun _ => none⟩

/-- The runtime of an empty database. -/
def runtime : Runtime Unit Unit :=
  ⟨noPlugins, fun _ => none, fun _ => none, indexAgents [], indexAgents_keyed []⟩

/-- A request for an agent. -/
def agent (name : String) : AdminRequest :=
  .agent ⟨name, "Look around.", none, none, none, none, none, none, none, none, none, none⟩

/-- The first request builds its runtime, and then the second commits and builds its own. -/
def overtaken (swaps : List AdminAct) : List AdminAct :=
  .arrive 0 (agent "a") :: .arrive 1 (agent "b") ::
    .commit 0 :: .begin 0 :: .read 0 :: .read 0 :: .read 0 :: .read 0 ::
    .commit 1 :: .begin 1 :: .read 1 :: .read 1 :: .read 1 :: .read 1 :: swaps

/-- Both requests have returned, and there is no other. -/
theorem all_rebuilt {s : AppState Unit Unit} {r₀ r₁ : AdminRequest}
    (h₀ : s.requests 0 = some ⟨r₀, .rebuilt⟩) (h₁ : s.requests 1 = some ⟨r₁, .rebuilt⟩)
    (hrest : ∀ i, s.requests (i + 2) = none) :
    ∀ i task, s.requests i = some task → task.phase = .rebuilt := by
  intro i task htask
  rcases i with _ | _ | i
  · rw [h₀] at htask
    obtain rfl := Option.some.inj htask
    rfl
  · rw [h₁] at htask
    obtain rfl := Option.some.inj htask
    rfl
  · rw [hrest i] at htask
    cases htask

theorem swaps_inOrder : Along (AppState.step noPlugins) AppState.InOrder (.init .empty runtime)
    (overtaken [.swap 0, .swap 1]) := by
  refine .cons trivial rfl (.cons trivial rfl (.cons trivial rfl (.cons trivial rfl
    (.cons trivial rfl (.cons trivial rfl (.cons trivial rfl (.cons trivial rfl
    (.cons trivial rfl (.cons trivial rfl (.cons trivial rfl (.cons trivial rfl
    (.cons trivial rfl (.cons trivial rfl (.cons ?_ rfl (.cons ?_ rfl trivial)))))))))))))))
  · -- the second request has still to swap
    intro request phase _
    exact ⟨1, by decide, _, rfl, trivial⟩
  · intro request phase h
    cases h

/-- The runtimes are swapped in the order of the commits, and both agents are there. -/
theorem swaps_in_order_keep_writes :
    ∃ s, runActs (AppState.step noPlugins) (.init .empty runtime) (overtaken [.swap 0, .swap 1]) =
        some s ∧
      buildRuntime noPlugins s.tables = .ok s.runtime ∧
      (s.runtime.agents "a").isSome ∧ (s.runtime.agents "b").isSome := by
  refine ⟨_, rfl, ?_, rfl, rfl⟩
  refine AppState.no_admin_write_lost noPlugins .empty runtime rfl (overtaken [.swap 0, .swap 1])
    _ rfl swaps_inOrder ?_
  exact all_rebuilt rfl rfl fun _ => rfl

/-- The first runtime is swapped in after the second, and the agent of the second request is lost. -/
theorem overtaken_swap_loses_write :
    ∃ s rebuilt, runActs (AppState.step noPlugins) (.init .empty runtime)
        (overtaken [.swap 1, .swap 0]) = some s ∧
      (∀ i task, s.requests i = some task → task.phase = .rebuilt) ∧
      buildRuntime noPlugins s.tables = .ok rebuilt ∧ (rebuilt.agents "b").isSome ∧
      s.runtime.agents "b" = none ∧ buildRuntime noPlugins s.tables ≠ .ok s.runtime := by
  obtain ⟨s, rebuilt, hrun, hreturned, hbuild, hsome, hnone⟩ : ∃ s rebuilt,
      runActs (AppState.step noPlugins) (.init .empty runtime) (overtaken [.swap 1, .swap 0]) =
        some s ∧ (∀ i task, s.requests i = some task → task.phase = .rebuilt) ∧
      buildRuntime noPlugins s.tables = .ok rebuilt ∧ (rebuilt.agents "b").isSome ∧
      s.runtime.agents "b" = none :=
    ⟨_, _, rfl, all_rebuilt rfl rfl fun _ => rfl, rfl, rfl, rfl⟩
  refine ⟨s, rebuilt, hrun, hreturned, hbuild, hsome, hnone, fun hsame => ?_⟩
  rw [hbuild, Except.ok.injEq] at hsame
  rw [hsame, hnone] at hsome
  cases hsome

end TwoAdmins

end Sidecar

end PgSynapse
