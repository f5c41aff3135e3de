import Mathlib.Algebra.Ring.Nat
import PgSynapse.Compaction.DefaultCompressor
import PgSynapse.Compaction.Equiv.Transcript
import PgSynapse.Llm.Equiv.RecoveryLayer

/-!
# What a compaction keeps

`DefaultCompressor` keeps the system row, the newest row, and the rows before it as long as the
running total stays within the target (`mem_keptRecent`).  The rebuilt list is the rows that are not
collapsed, with at most one digest between them (`rebuildMessages_eq`).  The cut takes no notice of
calls and answers, so a tool conversation stays whole exactly when no pair straddles it
(`keepsWhole_iff`).
-/

namespace PgSynapse

namespace DefaultCompressor

/-- The token cost of a row. -/
def cost (m : Message) : Nat := (estimateTokens (messageText m)).toNat

/-- The running total of the walk once it has taken every row from `i` on. -/
def load (messages : List Message) (i : Nat) : Nat :=
  min (2 ^ 32 - 1) ((systemCost messages).toNat + ((messages.drop i).map cost).sum)

/-- A kept row: the system row, the newest row, or one with which the total is still within the
target and before which the target was not reached. -/
def Kept (messages : List Message) (target : UInt32) (i : Nat) : Prop :=
  some i = systemIdx messages ∨ i + 1 = messages.length ∨
    load messages i ≤ target.toNat ∧ load messages (i + 1) < target.toNat

/-! ### The walk -/

theorem saturatingAdd_toNat (a b : UInt32) :
    (saturatingAdd a b).toNat = min (2 ^ 32 - 1) (a.toNat + b.toNat) := by
  unfold saturatingAdd
  split
  · rw [UInt32.toNat_add]
    omega
  · have hmax : (UInt32.ofNat (2 ^ 32 - 1)).toNat = 2 ^ 32 - 1 := by decide
    rw [hmax]
    omega

theorem systemIdx_eq_zero {messages : List Message} {i : Nat}
    (h : systemIdx messages = some i) : i = 0 := by
  unfold systemIdx at h
  split at h
  · split at h
    · exact (Option.some.inj h).symm
    · cases h
  · cases h

theorem perMsg_getD {messages : List Message} {i : Nat} (hi : i < messages.length) :
    ((perMsg messages).getD i 0).toNat = cost messages[i] := by
  unfold perMsg cost
  rw [List.getD_eq_getElem?_getD, List.getElem?_map, List.getElem?_eq_getElem hi]
  rfl

theorem load_eq {messages : List Message} {i : Nat} (hi : i < messages.length) :
    load messages i = min (2 ^ 32 - 1) (load messages (i + 1) + cost messages[i]) := by
  unfold load
  rw [List.drop_eq_getElem_cons hi, List.map_cons, List.sum_cons]
  omega

theorem load_length (messages : List Message) :
    load messages messages.length = (systemCost messages).toNat := by
  unfold load
  rw [List.drop_length, List.map_nil, List.sum_nil]
  have := (systemCost messages).toNat_lt
  omega

theorem load_succ_le (messages : List Message) (i : Nat) :
    load messages (i + 1) ≤ load messages i := by
  by_cases hi : i < messages.length
  · have hlt : load messages (i + 1) ≤ 2 ^ 32 - 1 := min_le_left _ _
    rw [load_eq hi]
    omega
  · unfold load
    rw [List.drop_eq_nil_of_le (by omega), List.drop_eq_nil_of_le (by omega)]

theorem load_anti (messages : List Message) {i j : Nat} (h : i ≤ j) :
    load messages j ≤ load messages i :=
  antitone_nat_of_succ_le (load_succ_le messages) h

/-- **The walk**: what it adds, with `i` rows to go and the total and the kept rows it has by
then. -/
theorem mem_keepFrom (messages : List Message) (target : UInt32) {i : Nat}
    (hi : i ≤ messages.length) {running : UInt32} {kept : List Nat}
    (hrunning : running.toNat = load messages i) (hkept : kept = [] ↔ i = messages.length)
    (hbelow : i ≠ messages.length → running < target) (j : Nat) :
    j ∈ keepFrom (perMsg messages) (systemIdx messages) target i running kept ↔
      j ∈ kept ∨ j < i ∧ some j ≠ systemIdx messages ∧ Kept messages target j := by
  induction i generalizing running kept with
  | zero => simp [keepFrom]
  | succ i ih =>
    rw [keepFrom]
    split
    case isTrue hsys =>
      -- the system row is the last one the walk comes to
      obtain rfl : i = 0 := systemIdx_eq_zero hsys.symm
      have hnone : ∀ j < 0 + 1, some j = systemIdx messages := by
        intro j hj
        obtain rfl : j = 0 := by omega
        exact hsys
      rw [keepFrom]
      constructor
      · exact .inl
      · rintro (h | ⟨hj, hne, -⟩)
        · exact h
        · exact absurd (hnone j hj) hne
    case isFalse hsys =>
      have hlt : i < messages.length := hi
      have htotal : (saturatingAdd running ((perMsg messages).getD i 0)).toNat =
          load messages i := by
        rw [saturatingAdd_toNat, hrunning, perMsg_getD hlt, load_eq hlt]
      have hbelow' : i + 1 ≠ messages.length → load messages (i + 1) < target.toNat := by
        intro hne
        rw [← hrunning]
        exact UInt32.lt_iff_toNat_lt.mp (hbelow hne)
      simp only [gt_iff_lt, ge_iff_le, UInt32.lt_iff_toNat_lt, UInt32.le_iff_toNat_le, htotal]
      split
      case isTrue hover =>
        -- the row does not fit, and so does none before it
        have hnone : ∀ j < i + 1, some j ≠ systemIdx messages → ¬ Kept messages target j := by
          rintro j hj hne (hs | hnew | ⟨hfit, -⟩)
          · exact hne hs
          · exact hover.2 (hkept.mpr (by omega))
          · have := load_anti messages (Nat.le_of_lt_succ hj)
            omega
        constructor
        · exact .inl
        · rintro (h | ⟨hj, hne, hk⟩)
          · exact h
          · exact absurd hk (hnone j hj hne)
      case isFalse hfits =>
        have hself : Kept messages target i := by
          by_cases hnew : i + 1 = messages.length
          · exact .inr (.inl hnew)
          · have hne : kept ≠ [] := fun h => hnew (hkept.mp h)
            exact .inr (.inr ⟨by by_contra hc; exact hfits ⟨by omega, hne⟩, hbelow' hnew⟩)
        split
        case isTrue hreached =>
          have hnone : ∀ j < i, some j ≠ systemIdx messages → ¬ Kept messages target j := by
            rintro j hj hne (hs | hnew | ⟨-, hfit⟩)
            · exact hne hs
            · omega
            · have := load_anti messages (show j + 1 ≤ i by omega)
              omega
          rw [List.mem_append, List.mem_singleton]
          constructor
          · rintro (h | rfl)
            · exact .inl h
            · exact .inr ⟨by omega, hsys, hself⟩
          · rintro (h | ⟨hj, hne, hk⟩)
            · exact .inl h
            · rcases Nat.lt_succ_iff_lt_or_eq.mp hj with hj' | rfl
              · exact absurd hk (hnone j hj' hne)
              · exact .inr rfl
        case isFalse hgoes =>
          rw [ih hlt.le htotal (by simp; omega)
            (fun _ => UInt32.lt_iff_toNat_lt.mpr (by omega)), List.mem_append, List.mem_singleton]
          constructor
          · rintro ((h | rfl) | ⟨hj, hne, hk⟩)
            · exact .inl h
            · exact .inr ⟨by omega, hsys, hself⟩
            · exact .inr ⟨by omega, hne, hk⟩
          · rintro (h | ⟨hj, hne, hk⟩)
            · exact .inl (.inl h)
            · rcases Nat.lt_succ_iff_lt_or_eq.mp hj with hj' | rfl
              · exact .inr ⟨hj', hne, hk⟩
              · exact .inl (.inr rfl)

theorem mem_keptRecent (messages : List Message) (target : UInt32) (j : Nat) :
    j ∈ keptRecent messages target ↔
      j < messages.length ∧ some j ≠ systemIdx messages ∧ Kept messages target j := by
  unfold keptRecent
  rw [(List.perm_insertionSort _ _).mem_iff,
    mem_keepFrom messages target le_rfl (load_length messages).symm (by simp) (by simp)]
  simp

/-- **The collapsed rows** are those that are not kept, cast to `u32`. -/
theorem mem_collapsedIndices (messages : List Message) (target : UInt32) (c : UInt32) :
    c ∈ collapsedIndices messages target ↔
      ∃ k < messages.length, ¬ Kept messages target k ∧ UInt32.ofNat k = c := by
  unfold collapsedIndices
  simp only [List.mem_map, List.mem_filter, List.mem_range, List.mem_append, Option.mem_toList,
    mem_keptRecent, decide_eq_true_eq]
  constructor
  · rintro ⟨k, ⟨hk, hnot⟩, rfl⟩
    refine ⟨k, hk, ?_, rfl⟩
    intro hkept
    by_cases hsys : systemIdx messages = some k
    · exact hnot (.inr hsys)
    · exact hnot (.inl ⟨hk, fun h => hsys h.symm, hkept⟩)
  · rintro ⟨k, hk, hnot, rfl⟩
    refine ⟨k, ⟨hk, ?_⟩, rfl⟩
    rintro (⟨-, -, hkept⟩ | hsys)
    · exact hnot hkept
    · exact hnot (.inl hsys.symm)

theorem compress_collapsedIndices {messages : List Message} {budget : CompressionBudget}
    {c : Compressed} (h : compress messages budget = .ok c) :
    c.collapsedIndices = collapsedIndices messages budget.targetTokens := by
  unfold compress at h
  split at h
  case isTrue hempty =>
    obtain rfl := List.isEmpty_iff.mp hempty
    obtain rfl := Except.ok.inj h
    rfl
  case isFalse =>
    simp only at h
    split at h
    case isTrue hnone =>
      obtain rfl := Except.ok.inj h
      exact (List.isEmpty_iff.mp hnone).symm
    case isFalse =>
      split at h
      · cases h
      · obtain rfl := Except.ok.inj h
        rfl

/-! ### Tool conversations -/

/-- **A tool conversation kept whole**: the rebuilt list is the rows that stay with at most a
system digest between them, and of a call and its answer both stay or neither does. -/
def KeepsWhole (messages : List Message) (pairing : Pairing messages) (c : Compressed) : Prop :=
  ∃ before digest after,
    rebuildMessages messages c.summary c.collapsedIndices = some (before ++ digest ++ after) ∧
    before ++ after = rowsAt messages (staying messages c.collapsedIndices) ∧
    (∀ m ∈ digest, m.role = .system) ∧
    ∀ p ∈ pairing.pairs,
      p.1 ∈ staying messages c.collapsedIndices ↔ p.2 ∈ staying messages c.collapsedIndices

/-- A row that survives a compaction: it is kept, and so is every row whose position is the same as
a `u32`. -/
def Survives (messages : List Message) (target : UInt32) (i : Nat) : Prop :=
  ∀ k < messages.length, UInt32.ofNat k = UInt32.ofNat i → Kept messages target k

theorem mem_staying_iff {messages : List Message} {budget : CompressionBudget} {c : Compressed}
    (h : compress messages budget = .ok c) {i : Nat} (hi : i < messages.length) :
    i ∈ staying messages c.collapsedIndices ↔ Survives messages budget.targetTokens i := by
  rw [mem_staying, compress_collapsedIndices h, mem_collapsedIndices]
  constructor
  · rintro ⟨-, hnot⟩ k hk heq
    by_contra hc
    exact hnot ⟨k, hk, hc, heq⟩
  · intro hs
    refine ⟨hi, ?_⟩
    rintro ⟨k, hk, hc, heq⟩
    exact hc (hs k hk heq)

/-- With at most 2^32 rows the cast is faithful. -/
theorem survives_iff_kept {messages : List Message} (hlen : messages.length ≤ 2 ^ 32)
    (target : UInt32) {i : Nat} (hi : i < messages.length) :
    Survives messages target i ↔ Kept messages target i := by
  constructor
  · intro hs
    exact hs i hi rfl
  · intro hk k hklt heq
    have hmod := congrArg UInt32.toNat heq
    rw [UInt32.toNat_ofNat', UInt32.toNat_ofNat', Nat.mod_eq_of_lt (by omega),
      Nat.mod_eq_of_lt (by omega)] at hmod
    rwa [hmod]

/-- A pair stays together when its answer goes, or when everything from the call on fits the
target. -/
theorem survives_pair_iff {messages : List Message} (pairing : Pairing messages)
    (hlen : messages.length ≤ 2 ^ 32) (target : UInt32) {p : Nat × Nat} (hp : p ∈ pairing.pairs) :
    (Survives messages target p.1 ↔ Survives messages target p.2) ↔
      (Kept messages target p.2 →
        load messages p.1 ≤ target.toNat ∧ load messages (p.1 + 1) < target.toNat) := by
  obtain ⟨call, answer, hcall, hanswer, hissues, -⟩ := pairing.rows p hp
  obtain ⟨hlt, hget⟩ := List.getElem?_eq_some_iff.mp hcall
  obtain ⟨hlt', -⟩ := List.getElem?_eq_some_iff.mp hanswer
  have hlater := pairing.later p hp
  rw [survives_iff_kept hlen target hlt, survives_iff_kept hlen target hlt']
  -- a call is neither the system row nor the newest row
  have hnotsys : some p.1 ≠ systemIdx messages := by
    intro hsys
    have hzero : p.1 = 0 := systemIdx_eq_zero hsys.symm
    unfold systemIdx at hsys
    rw [List.head?_eq_getElem?, ← hzero, hcall] at hsys
    simp only [hissues.1] at hsys
    cases hsys
  constructor
  · intro hiff hk
    rcases hiff.mpr hk with hsys | hnew | hfits
    · exact absurd hsys hnotsys
    · omega
    · exact hfits
  · intro hfits
    constructor
    · rintro (hsys | hnew | ⟨hle, hbelow⟩)
      · exact absurd hsys hnotsys
      · omega
      · refine .inr (.inr ⟨?_, ?_⟩)
        · exact (load_anti messages hlater.le).trans hle
        · exact lt_of_le_of_lt (load_anti messages (Nat.succ_le_succ hlater.le)) hbelow
    · intro hk
      exact .inr (.inr (hfits hk))

/-- A collapsed index is in bounds, also where the cast has wrapped. -/
theorem collapsed_in_bounds {messages : List Message} {budget : CompressionBudget} {c : Compressed}
    (h : compress messages budget = .ok c) :
    ∀ i ∈ c.collapsedIndices, i.toNat < messages.length := by
  intro i hi
  rw [compress_collapsedIndices h, mem_collapsedIndices] at hi
  obtain ⟨k, hk, -, rfl⟩ := hi
  rw [UInt32.toNat_ofNat']
  exact lt_of_le_of_lt (Nat.mod_le _ _) hk

/-- **Compaction keeps a tool conversation whole** exactly when the cut separates no call from its
answer. -/
theorem keepsWhole_iff {messages : List Message} (pairing : Pairing messages)
    {budget : CompressionBudget} {c : Compressed} (h : compress messages budget = .ok c) :
    KeepsWhole messages pairing c ↔
      ∀ p ∈ pairing.pairs, Survives messages budget.targetTokens p.1 ↔
        Survives messages budget.targetTokens p.2 := by
  have hstay : ∀ p ∈ pairing.pairs,
      (p.1 ∈ staying messages c.collapsedIndices ↔ Survives messages budget.targetTokens p.1) ∧
        (p.2 ∈ staying messages c.collapsedIndices ↔
          Survives messages budget.targetTokens p.2) := by
    intro p hp
    obtain ⟨call, answer, hcall, hanswer, -⟩ := pairing.rows p hp
    obtain ⟨hlt, -⟩ := List.getElem?_eq_some_iff.mp hcall
    obtain ⟨hlt', -⟩ := List.getElem?_eq_some_iff.mp hanswer
    exact ⟨mem_staying_iff h hlt, mem_staying_iff h hlt'⟩
  constructor
  · rintro ⟨before, digest, after, -, -, -, hwhole⟩ p hp
    rw [← (hstay p hp).1, ← (hstay p hp).2]
    exact hwhole p hp
  · intro hwhole
    obtain ⟨before, digest, after, heq, hrows, hdigest⟩ :=
      rebuildMessages_eq c.summary (collapsed_in_bounds h)
    refine ⟨before, digest, after, heq, hrows, ?_, ?_⟩
    · rintro m hm
      rcases hdigest with ⟨rfl, -⟩ | ⟨t, -, rfl⟩
      · exact absurd hm (List.not_mem_nil)
      · rw [List.mem_singleton.mp hm]
        rfl
    · intro p hp
      rw [(hstay p hp).1, (hstay p hp).2]
      exact hwhole p hp

/-! ### A separated pair -/

/-- A question, a call that no budget for the answer alone has room for, and its answer. -/
def lookup : List Message :=
  let row (role : Role) : Message := ⟨⟨0⟩, 0, role, none, none, none, none, none, "t"⟩
  [{ row .user with content := some "Where?" },
    { row .assistant with toolCallId := some "c", toolName := some "find" },
    { row .tool with toolCallId := some "c", toolName := some "find", content := some "Here." }]

def lookupPairing : Pairing lookup where
  pairs := [(1, 2)]
  later := by simp
  rows := by
    rintro p hp
    rw [List.mem_singleton.mp hp]
    exact ⟨_, _, rfl, rfl, ⟨rfl, by simp⟩, rfl, rfl⟩
  calls := by
    rintro (_ | _ | _ | i) m hm ⟨hrole, -⟩ <;> simp [lookup] at hm <;> subst hm <;> simp_all
  answers := by
    rintro (_ | _ | _ | i) m hm hrole <;> simp [lookup] at hm <;> subst hm <;> simp_all
  callsOnce := by simp
  answersOnce := by simp

/-- The answer is the newest row and stays, and its call goes. -/
theorem compaction_separates_pair :
    ∃ c, compress lookup ⟨4, 100⟩ = .ok c ∧ c.collapsedIndices = [0, 1] ∧
      ¬ KeepsWhole lookup lookupPairing c := by
  have hcollapsed : (compress lookup ⟨4, 100⟩).toOption.map (·.collapsedIndices) =
      some [0, 1] := by
    decide
  cases hc : compress lookup ⟨4, 100⟩ with
  | error e => rw [hc] at hcollapsed; cases hcollapsed
  | ok c =>
    rw [hc] at hcollapsed
    have hindices : c.collapsedIndices = [0, 1] := Option.some.inj hcollapsed
    refine ⟨c, rfl, hindices, ?_⟩
    rintro ⟨before, digest, after, -, -, -, hwhole⟩
    have hpair := hwhole (1, 2) (List.mem_singleton.mpr rfl)
    rw [hindices] at hpair
    exact absurd hpair (by decide)

/-- With room for the call as well, only the question goes. -/
theorem compaction_keeps_pair :
    ∃ c, compress lookup ⟨8, 100⟩ = .ok c ∧ c.collapsedIndices = [0] ∧
      KeepsWhole lookup lookupPairing c := by
  have hcollapsed : (compress lookup ⟨8, 100⟩).toOption.map (·.collapsedIndices) = some [0] := by
    decide
  cases hc : compress lookup ⟨8, 100⟩ with
  | error e => rw [hc] at hcollapsed; cases hcollapsed
  | ok c =>
    rw [hc] at hcollapsed
    refine ⟨c, rfl, Option.some.inj hcollapsed, (keepsWhole_iff lookupPairing hc).mpr ?_⟩
    intro p hp
    rw [survives_pair_iff lookupPairing (by decide) 8 hp, List.mem_singleton.mp hp]
    exact fun _ => by decide

end DefaultCompressor

end PgSynapse
