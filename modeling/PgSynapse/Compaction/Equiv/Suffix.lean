import Mathlib.Algebra.Order.BigOperators.Group.List
import Mathlib.Algebra.Order.Ring.Nat
import Mathlib.Order.Bounds.Defs
import PgSynapse.Compaction.Equiv.DefaultCompressor

/-!
# The longest suffix that fits

Where the estimates of all rows add up to less than 2^32, `DefaultCompressor` keeps the system row
and the longest suffix of the other rows that fits the target with it, or the newest row alone; the
rows between are collapsed (`compress_eq`).
-/

namespace PgSynapse

namespace DefaultCompressor

/-! ### The abstract rule -/

/-- The estimate of a row before it is cast to `u32`. -/
def estimate (m : Message) : Nat := max (((messageText m).length + 3) / 4) 1

/-- The rows in front that are kept verbatim: one, if it is a system row. -/
def front (messages : List Message) : Nat := (systemIdx messages).toList.length

/-- The suffix from row `k` on fits the target together with the rows in front. -/
def FitsFrom (messages : List Message) (target : Nat) (k : Nat) : Prop :=
  ((messages.take (front messages)).map estimate).sum + ((messages.drop k).map estimate).sum ≤ target

instance (messages : List Message) (target k : Nat) : Decidable (FitsFrom messages target k) :=
  inferInstanceAs (Decidable (_ ≤ _))

/-- **Which suffix is kept**: from row `k` on, the longest of the other rows that fits, or the newest
row if that does not fit. -/
def KeptFrom (messages : List Message) (target : Nat) (k : Nat) : Prop :=
  if front messages = messages.length then k = messages.length
  else if FitsFrom messages target (messages.length - 1) then
    IsLeast {j | front messages ≤ j ∧ FitsFrom messages target j} k
  else k = messages.length - 1

/-- The estimates of all rows add up to a `u32`. -/
def Bounded (messages : List Message) : Prop := (messages.map estimate).sum < 2 ^ 32

/-! ### Costs -/

theorem estimate_pos (m : Message) : 0 < estimate m := Nat.lt_of_lt_of_le Nat.one_pos (le_max_right _ _)

theorem estimate_le_sum {messages : List Message} {m : Message} (hm : m ∈ messages) :
    estimate m ≤ (messages.map estimate).sum :=
  List.single_le_sum (fun _ _ => Nat.zero_le _) _ (List.mem_map_of_mem hm)

theorem cost_eq_estimate {messages : List Message} (h : Bounded messages) {m : Message}
    (hm : m ∈ messages) : cost m = estimate m := by
  have hlt : estimate m < 2 ^ 32 := (estimate_le_sum hm).trans_lt h
  unfold cost estimateTokens
  rw [UInt32.toNat_ofNat']
  exact Nat.mod_eq_of_lt hlt

theorem map_cost_eq {messages : List Message} (h : Bounded messages) {part : List Message}
    (hpart : ∀ m ∈ part, m ∈ messages) : part.map cost = part.map estimate :=
  List.map_congr_left fun m hm => cost_eq_estimate h (hpart m hm)

theorem front_le (messages : List Message) : front messages ≤ messages.length := by
  unfold front systemIdx
  cases messages with
  | nil => exact le_rfl
  | cons m rest =>
    simp only [List.head?_cons]
    split
    · exact Nat.succ_le_succ (Nat.zero_le _)
    · exact Nat.zero_le _

theorem lt_front_iff {messages : List Message} {i : Nat} :
    i < front messages ↔ some i = systemIdx messages := by
  unfold front
  cases hsys : systemIdx messages with
  | none => simp
  | some j =>
    obtain rfl : j = 0 := systemIdx_eq_zero hsys
    simp

/-- The system row's cost is that of the rows in front. -/
theorem systemCost_eq {messages : List Message} (h : Bounded messages) :
    (systemCost messages).toNat = ((messages.take (front messages)).map estimate).sum := by
  unfold systemCost front
  cases hsys : systemIdx messages with
  | none => rfl
  | some j =>
    obtain rfl : j = 0 := systemIdx_eq_zero hsys
    cases messages with
    | nil => cases hsys
    | cons m rest =>
      have hpos : 0 < (m :: rest).length := Nat.zero_lt_succ _
      have hcost := perMsg_getD hpos
      simp only [hcost, Option.toList_some, List.length_singleton, List.take_succ_cons,
        List.take_zero, List.map_cons, List.map_nil, List.sum_cons, List.sum_nil, Nat.add_zero]
      exact cost_eq_estimate h List.mem_cons_self

/-- Behind the rows in front the running total is exact. -/
theorem load_exact {messages : List Message} (h : Bounded messages) {k : Nat}
    (hk : front messages ≤ k) :
    load messages k = ((messages.take (front messages)).map estimate).sum +
      ((messages.drop k).map estimate).sum := by
  have hdrop : (messages.drop k).map cost = (messages.drop k).map estimate :=
    map_cost_eq h fun m hm => List.mem_of_mem_drop hm
  have hsplit : ((messages.take (front messages)).map estimate).sum +
      ((messages.drop (front messages)).map estimate).sum = (messages.map estimate).sum := by
    rw [← List.sum_append, ← List.map_append, List.take_append_drop]
  have hsuffix : ((messages.drop k).map estimate).sum ≤
      ((messages.drop (front messages)).map estimate).sum := by
    have hsub : (messages.drop k).Sublist (messages.drop (front messages)) := by
      rw [show k = front messages + (k - front messages) by omega, ← List.drop_drop]
      exact List.drop_sublist _ _
    exact (hsub.map estimate).sum_le_sum fun _ _ => Nat.zero_le _
  unfold Bounded at h
  unfold load
  rw [hdrop, systemCost_eq h]
  omega

/-! ### The kept rows -/

/-- One row further on, the suffix costs less. -/
theorem FitsFrom.succ {messages : List Message} {target k : Nat} (h : FitsFrom messages target k) :
    FitsFrom messages target (k + 1) := by
  have hsub : (messages.drop (k + 1)).Sublist (messages.drop k) := by
    rw [← List.drop_drop]
    exact List.drop_sublist _ _
  have hle := (hsub.map estimate).sum_le_sum fun _ _ => Nat.zero_le _
  unfold FitsFrom at h ⊢
  omega

theorem FitsFrom.mono {messages : List Message} {target j k : Nat} (hjk : j ≤ k)
    (h : FitsFrom messages target j) : FitsFrom messages target k := by
  induction hjk with
  | refl => exact h
  | step _ ih => exact ih.succ

/-- Behind the rows in front, the rows the walk keeps are the newest one and those that fit. -/
theorem kept_iff {messages : List Message} (h : Bounded messages) {target : UInt32} {i : Nat}
    (hfront : front messages ≤ i) (hi : i < messages.length) :
    Kept messages target i ↔ i + 1 = messages.length ∨ FitsFrom messages target.toNat i := by
  have hsys : some i ≠ systemIdx messages := fun heq => by
    have := lt_front_iff.mpr heq
    omega
  -- a row costs at least a token, so the total before a fitting row is below the target
  have hpos := estimate_pos messages[i]
  have hdrop : ((messages.drop i).map estimate).sum =
      estimate messages[i] + ((messages.drop (i + 1)).map estimate).sum := by
    rw [List.drop_eq_getElem_cons hi, List.map_cons, List.sum_cons]
  unfold Kept FitsFrom
  rw [load_exact h hfront, load_exact h (hfront.trans (Nat.le_add_right i 1))]
  constructor
  · rintro (heq | hnew | ⟨hfits, -⟩)
    · exact absurd heq hsys
    · exact .inl hnew
    · exact .inr hfits
  · rintro (hnew | hfits)
    · exact .inr (.inl hnew)
    · exact .inr (.inr ⟨hfits, by omega⟩)

/-- There is such a suffix, and the walk keeps its rows. -/
theorem exists_keptFrom {messages : List Message} (h : Bounded messages) (target : UInt32) :
    ∃ k, KeptFrom messages target.toNat k ∧ front messages ≤ k ∧ k ≤ messages.length ∧
      ∀ i, front messages ≤ i → i < messages.length → (Kept messages target i ↔ k ≤ i) := by
  have hle := front_le messages
  by_cases hall : front messages = messages.length
  · refine ⟨messages.length, ?_, by omega, le_rfl, fun i hi hlt => absurd hlt (by omega)⟩
    unfold KeptFrom
    rw [if_pos hall]
  by_cases hnewest : FitsFrom messages target.toNat (messages.length - 1)
  · -- the first row from which everything fits
    have hsome : ∃ j, front messages ≤ j ∧ FitsFrom messages target.toNat j :=
      ⟨messages.length - 1, by omega, hnewest⟩
    have hspec := Nat.find_spec hsome
    have hmin : Nat.find hsome ≤ messages.length - 1 := Nat.find_min' hsome ⟨by omega, hnewest⟩
    refine ⟨Nat.find hsome, ?_, hspec.1, by omega, ?_⟩
    · unfold KeptFrom
      rw [if_neg hall, if_pos hnewest]
      exact ⟨hspec, fun j hj => Nat.find_min' hsome hj⟩
    · intro i hfront hi
      rw [kept_iff h hfront hi]
      constructor
      · rintro (hnew | hfits)
        · omega
        · exact Nat.find_min' hsome ⟨hfront, hfits⟩
      · intro hki
        exact .inr (hspec.2.mono hki)
  · refine ⟨messages.length - 1, ?_, by omega, by omega, ?_⟩
    · unfold KeptFrom
      rw [if_neg hall, if_neg hnewest]
    · intro i hfront hi
      rw [kept_iff h hfront hi]
      constructor
      · rintro (hnew | hfits)
        · omega
        · exact absurd (hfits.mono (by omega)) hnewest
      · intro hki
        exact .inl (by omega)

/-- The walk takes each row once. -/
theorem keepFrom_nodup (costs : List UInt32) (sys : Option Nat) (target : UInt32) {i : Nat}
    (running : UInt32) {kept : List Nat} (hkept : ∀ j ∈ kept, i ≤ j) (hnodup : kept.Nodup) :
    (keepFrom costs sys target i running kept).Nodup := by
  induction i generalizing running kept with
  | zero => exact hnodup
  | succ i ih =>
    have hnext : (kept ++ [i]).Nodup := by
      refine List.nodup_append.mpr ⟨hnodup, List.nodup_singleton i, ?_⟩
      intro a ha b hb heq
      have := hkept a ha
      rw [List.mem_singleton.mp hb] at heq
      omega
    have hlower : ∀ j ∈ kept ++ [i], i ≤ j := by
      intro j hj
      rcases List.mem_append.mp hj with hj | hj
      · exact (Nat.le_succ i).trans (hkept j hj)
      · exact (List.mem_singleton.mp hj).ge
    rw [keepFrom]
    split
    · exact ih running (fun j hj => (Nat.le_succ i).trans (hkept j hj)) hnodup
    · simp only
      split
      · exact hnodup
      · split
        · exact hnext
        · exact ih _ hlower hnext

/-- `kept_recent` is the suffix, in order. -/
theorem keptRecent_eq {messages : List Message} (target : UInt32) {k : Nat}
    (hk : front messages ≤ k)
    (hkept : ∀ i, front messages ≤ i → i < messages.length → (Kept messages target i ↔ k ≤ i)) :
    keptRecent messages target = List.range' k (messages.length - k) := by
  have hnodup : (keptRecent messages target).Nodup :=
    (List.perm_insertionSort _ _).nodup_iff.mpr
      (keepFrom_nodup _ _ _ _ (fun j hj => absurd hj List.not_mem_nil) List.nodup_nil)
  have hmem : ∀ j, j ∈ keptRecent messages target ↔ j ∈ List.range' k (messages.length - k) := by
    intro j
    rw [mem_keptRecent, List.mem_range'_1]
    constructor
    · rintro ⟨hlt, hsys, hj⟩
      have hfront : front messages ≤ j := Nat.le_of_not_lt fun h => hsys (lt_front_iff.mp h)
      have := (hkept j hfront hlt).mp hj
      omega
    · rintro ⟨hkj, hlt⟩
      have hlt' : j < messages.length := by omega
      refine ⟨hlt', fun h => ?_, (hkept j (hk.trans hkj) hlt').mpr hkj⟩
      have := lt_front_iff.mpr h
      omega
  have hperm := (List.perm_ext_iff_of_nodup hnodup (List.nodup_range' )).mpr hmem
  exact hperm.eq_of_pairwise (fun _ _ _ _ hab hba => le_antisymm hab hba)
    (List.pairwise_insertionSort (· ≤ ·) _) (List.pairwise_le_range')

/-! ### The collapsed rows and the sum -/

/-- The rows between those in front and the suffix from row `k` on, as the code holds them. -/
def collapsedRun (messages : List Message) (k : Nat) : List UInt32 :=
  (List.range' (front messages) (k - front messages)).map UInt32.ofNat

theorem filter_between {a b n : Nat} (hab : a ≤ b) (hbn : b ≤ n) (p : Nat → Bool)
    (hp : ∀ i < n, p i = true ↔ a ≤ i ∧ i < b) :
    (List.range n).filter p = List.range' a (b - a) := by
  have hsplit : List.range n = List.range' 0 a ++ List.range' a (b - a) ++ List.range' b (n - b) := by
    have hfirst := @List.range'_append_1 0 a (b - a)
    have hsecond := @List.range'_append_1 0 b (n - b)
    rw [Nat.zero_add, show a + (b - a) = b by omega] at hfirst
    rw [Nat.zero_add, show b + (n - b) = n by omega] at hsecond
    rw [hfirst, hsecond, List.range_eq_range']
  have hbefore : (List.range' 0 a).filter p = [] := by
    rw [List.filter_eq_nil_iff]
    intro i hi hpi
    have hlt := (List.mem_range'_1.mp hi).2
    have := (hp i (by omega)).mp hpi
    omega
  have hwithin : (List.range' a (b - a)).filter p = List.range' a (b - a) := by
    rw [List.filter_eq_self]
    intro i hi
    have hbounds := List.mem_range'_1.mp hi
    exact (hp i (by omega)).mpr ⟨hbounds.1, by omega⟩
  have hbehind : (List.range' b (n - b)).filter p = [] := by
    rw [List.filter_eq_nil_iff]
    intro i hi hpi
    have hbounds := List.mem_range'_1.mp hi
    have := (hp i (by omega)).mp hpi
    omega
  rw [hsplit, List.filter_append, List.filter_append, hbefore, hwithin, hbehind, List.nil_append,
    List.append_nil]

theorem collapsedIndices_eq {messages : List Message} {target : UInt32} {k : Nat}
    (hfront : front messages ≤ k) (hk : k ≤ messages.length)
    (hrecent : keptRecent messages target = List.range' k (messages.length - k)) :
    collapsedIndices messages target = collapsedRun messages k := by
  unfold collapsedIndices collapsedRun
  simp only
  rw [filter_between hfront hk]
  intro i hi
  rw [decide_eq_true_eq, List.mem_append, hrecent, List.mem_range'_1, Option.mem_toList,
    eq_comm (a := systemIdx messages), ← lt_front_iff]
  omega

/-- A plain sum of `u32` values that overflows on the way. -/
def Overflows (xs : List UInt32) : Prop := ∃ i, 2 ^ 32 ≤ ((xs.take i).map UInt32.toNat).sum

theorem foldl_add_toNat (xs : List UInt32) (acc : UInt32)
    (h : acc.toNat + (xs.map UInt32.toNat).sum < 2 ^ 32) :
    (xs.foldl (· + ·) acc).toNat = acc.toNat + (xs.map UInt32.toNat).sum := by
  induction xs generalizing acc with
  | nil => rfl
  | cons x xs ih =>
    rw [List.map_cons, List.sum_cons] at h ⊢
    have hadd : (acc + x).toNat = acc.toNat + x.toNat := by
      rw [UInt32.toNat_add]
      exact Nat.mod_eq_of_lt (by omega)
    rw [List.foldl_cons, ih (acc + x) (by omega), hadd]
    omega

/-- The costs `compress` sums without saturation. -/
def keptCosts (messages : List Message) (target : UInt32) : List UInt32 :=
  (keptRecent messages target).map ((perMsg messages).getD · 0)

/-- The costs of a suffix. -/
theorem costs_of_range {messages : List Message} (h : Bounded messages) (k : Nat) :
    ((List.range' k (messages.length - k)).map ((perMsg messages).getD · 0)).map UInt32.toNat =
      (messages.drop k).map estimate := by
  apply List.ext_getElem
  · simp
  · intro i hi hi'
    have hlt : k + i < messages.length := by
      rw [List.length_map, List.length_drop] at hi'
      omega
    simp only [List.getElem_map, List.getElem_range', List.getElem_drop, Nat.one_mul]
    rw [perMsg_getD hlt]
    exact cost_eq_estimate h (List.getElem_mem hlt)

/-- What the kept rows cost, those in front included. -/
def keptCost (messages : List Message) (k : Nat) : Nat :=
  ((messages.take (front messages)).map estimate).sum + ((messages.drop k).map estimate).sum

theorem keptCost_lt {messages : List Message} (h : Bounded messages) {k : Nat}
    (hk : front messages ≤ k) : keptCost messages k < 2 ^ 32 := by
  have hsub : (messages.take (front messages) ++ messages.drop k).Sublist messages := by
    have hdrop : (messages.drop k).Sublist (messages.drop (front messages)) := by
      rw [show k = front messages + (k - front messages) by omega, ← List.drop_drop]
      exact List.drop_sublist _ _
    have happ := (List.Sublist.refl (messages.take (front messages))).append hdrop
    rwa [List.take_append_drop] at happ
  have hle := (hsub.map estimate).sum_le_sum fun _ _ => Nat.zero_le _
  rw [List.map_append, List.sum_append] at hle
  exact hle.trans_lt h

theorem not_overflows {xs : List UInt32} (h : (xs.map UInt32.toNat).sum < 2 ^ 32) :
    ¬ Overflows xs := by
  rintro ⟨i, hi⟩
  have hle := ((List.take_sublist i xs).map UInt32.toNat).sum_le_sum fun _ _ => Nat.zero_le _
  omega

/-- The saturating sum of what is kept and of the digest. -/
def needed (messages : List Message) (k : Nat) : UInt32 :=
  saturatingAdd (UInt32.ofNat (keptCost messages k))
    (estimateTokens (digest messages (collapsedRun messages k)))

theorem retainedTokens_eq {messages : List Message} (h : Bounded messages) {target : UInt32}
    {k : Nat} (hfront : front messages ≤ k)
    (hrecent : keptRecent messages target = List.range' k (messages.length - k)) :
    retainedTokens messages target (digest messages (collapsedRun messages k)) =
      needed messages k := by
  have hlt := keptCost_lt h hfront
  have hcosts := costs_of_range h k
  have hsum : ((keptCosts messages target).foldl (· + ·) 0).toNat =
      ((messages.drop k).map estimate).sum := by
    unfold keptCosts
    unfold keptCost at hlt
    rw [hrecent, foldl_add_toNat, hcosts]
    · exact Nat.zero_add _
    · rw [hcosts, UInt32.toNat_zero]
      omega
  have hkept : saturatingAdd (systemCost messages) ((keptCosts messages target).foldl (· + ·) 0) =
      UInt32.ofNat (keptCost messages k) := by
    rw [← UInt32.toNat_inj, saturatingAdd_toNat, UInt32.toNat_ofNat', Nat.mod_eq_of_lt hlt, hsum,
      systemCost_eq h]
    unfold keptCost at hlt ⊢
    omega
  unfold retainedTokens needed
  rw [← hkept]
  rfl

/-- **What a compaction keeps**: the rows in front and the suffix from row `k` on.  The rows between
are collapsed, in order; it succeeds when what is kept and the digest stay within the hard limit, and
no plain sum overflows. -/
structure Keeps (messages : List Message) (budget : CompressionBudget) (k : Nat) : Prop where
  suffix : KeptFrom messages budget.targetTokens.toNat k
  recent : keptRecent messages budget.targetTokens = List.range' k (messages.length - k)
  collapsed : collapsedIndices messages budget.targetTokens = collapsedRun messages k
  noOverflow : ¬ Overflows (keptCosts messages budget.targetTokens)
  nothing : collapsedRun messages k = [] → compress messages budget = .ok .default
  succeeds : collapsedRun messages k ≠ [] → needed messages k ≤ budget.hardLimitTokens →
    compress messages budget =
      .ok ⟨digest messages (collapsedRun messages k), collapsedRun messages k⟩
  fails : collapsedRun messages k ≠ [] → budget.hardLimitTokens < needed messages k →
    compress messages budget = .error (.budgetTooSmall (needed messages k) budget.hardLimitTokens)

/-- **The longest suffix is kept**, for every list whose estimates add up to a `u32` and every
budget. -/
theorem keeps_longest_suffix (messages : List Message) (budget : CompressionBudget)
    (h : Bounded messages) : ∃ k, Keeps messages budget k := by
  obtain ⟨k, hkept, hfront, hk, hiff⟩ := exists_keptFrom h budget.targetTokens
  have hrecent := keptRecent_eq budget.targetTokens hfront hiff
  have hcollapsed := collapsedIndices_eq hfront hk hrecent
  have hnonempty : collapsedRun messages k ≠ [] → messages.isEmpty = false := by
    intro hrun
    cases messages with
    | nil =>
      have hlength : k ≤ 0 := hk
      obtain rfl : k = 0 := by omega
      exact absurd rfl hrun
    | cons _ _ => rfl
  refine ⟨k, hkept, hrecent, hcollapsed, ?_, ?_, ?_, ?_⟩
  · apply not_overflows
    unfold keptCosts
    rw [hrecent, costs_of_range h]
    have hlt := keptCost_lt h hfront
    unfold keptCost at hlt
    omega
  · intro hrun
    unfold compress
    rw [hcollapsed, hrun]
    split <;> rfl
  · intro hrun hle
    have hlimit : ¬ needed messages k > budget.hardLimitTokens := UInt32.not_lt.mpr hle
    unfold compress
    rw [hcollapsed]
    simp only [hnonempty hrun, List.isEmpty_eq_false_iff.mpr hrun, retainedTokens_eq h hfront hrecent,
      hlimit, Bool.false_eq_true, if_false]
  · intro hrun hlt
    have hlimit : needed messages k > budget.hardLimitTokens := hlt
    unfold compress
    rw [hcollapsed]
    simp only [hnonempty hrun, List.isEmpty_eq_false_iff.mpr hrun, retainedTokens_eq h hfront hrecent,
      hlimit, Bool.false_eq_true, if_false, if_true]

/-- The answer alone fits, and the question and the call are collapsed. -/
theorem lookup_keeps_answer : ∃ k, Keeps lookup ⟨4, 100⟩ k :=
  keeps_longest_suffix lookup ⟨4, 100⟩ (by unfold Bounded; decide)

example : KeptFrom lookup 8 1 := by
  refine ⟨⟨by decide, by decide⟩, ?_⟩
  rintro j ⟨-, hfits⟩
  by_contra hlt
  obtain rfl : j = 0 := by omega
  exact absurd hfits (by decide)

end DefaultCompressor

end PgSynapse
