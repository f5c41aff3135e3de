import PgSynapse.Pgrx.AuditCapability
import Mathlib.Data.List.Forall2
import Mathlib.Tactic.ByContra

/-!
# Which texts the audit writers accept

Over every history of a backend's grants the live list holds the tokens minted and not dropped
(`mem_liveTokens_iff`), a text stands for the number its digits make (`fromStrRadix16_eq_some_iff`),
and so a text is accepted just if it stands for such a token (`accepts_live_tokens`).
-/

namespace PgSynapse

/-! ### Histories of grants -/

/-- The events a backend can show: a token is drawn once, and a grant is dropped once, by whoever
holds it. -/
inductive GrantHistory : List GrantEvent → Prop where
  | start : GrantHistory []
  | mint {events : List GrantEvent} {token : Token} (h : GrantHistory events)
      (hfresh : .mint token ∉ events) : GrantHistory (events ++ [.mint token])
  | drop {events : List GrantEvent} {token : Token} (h : GrantHistory events)
      (hminted : .mint token ∈ events) (hheld : .drop token ∉ events) :
      GrantHistory (events ++ [.drop token])

theorem liveTokens_append (events : List GrantEvent) (e : GrantEvent) :
    liveTokens (events ++ [e]) = e.apply (liveTokens events) := by
  rw [liveTokens, List.foldl_append]
  rfl

/-- Only what was minted is dropped. -/
theorem GrantHistory.minted {events : List GrantEvent} (h : GrantHistory events) {token : Token}
    (hdrop : .drop token ∈ events) : .mint token ∈ events := by
  induction h with
  | start => cases hdrop
  | mint h hfresh ih =>
    have hold := (List.mem_append.mp hdrop).resolve_right (by simp)
    exact List.mem_append_left _ (ih hold)
  | drop h hminted hheld ih =>
    rcases List.mem_append.mp hdrop with hold | hnew
    · exact List.mem_append_left _ (ih hold)
    · obtain rfl := GrantEvent.drop.inj (List.mem_singleton.mp hnew)
      exact List.mem_append_left _ hminted

/-- **The live list** holds the tokens that were minted and not dropped, in whatever order. -/
theorem mem_liveTokens_iff {events : List GrantEvent} (h : GrantHistory events) (token : Token) :
    token ∈ liveTokens events ↔ .mint token ∈ events ∧ .drop token ∉ events := by
  induction h with
  | start => simp [liveTokens]
  | @mint events u h hfresh ih =>
    rw [liveTokens_append, GrantEvent.apply, List.mem_append, List.mem_singleton, ih]
    simp only [List.mem_append, List.mem_singleton, GrantEvent.mint.injEq, reduceCtorEq, or_false]
    constructor
    · rintro (⟨hminted, hheld⟩ | rfl)
      · exact ⟨.inl hminted, hheld⟩
      · exact ⟨.inr rfl, fun hdrop => hfresh (h.minted hdrop)⟩
    · rintro ⟨hminted | rfl, hheld⟩
      · exact .inl ⟨hminted, hheld⟩
      · exact .inr rfl
  | @drop events u h hminted hheld ih =>
    rw [liveTokens_append, GrantEvent.apply, List.mem_filter, ih, bne_iff_ne]
    simp only [List.mem_append, List.mem_singleton, GrantEvent.drop.injEq, reduceCtorEq, or_false,
      not_or, and_assoc, ne_eq]

/-! ### Numbers in base 16 -/

/-- The number that digits make. -/
def base16 (ds : List Nat) : Nat := ds.foldl (fun n d => n * 16 + d) 0

/-- A text in base 16: digits of either case, with a plus sign in front or not. -/
def ParsesBase16 (s : String) (n : Nat) : Prop :=
  ∃ cs ds, (s.toList = cs ∨ s.toList = '+' :: cs) ∧ cs ≠ [] ∧
    List.Forall₂ (fun c d => toDigit16 c = some d) cs ds ∧ n = base16 ds

theorem checkedU128_eq_some_iff {n m : Nat} : checkedU128 n = some m ↔ n < 2 ^ 128 ∧ n = m := by
  unfold checkedU128
  rw [Option.ite_none_right_eq_some, Option.some_inj]

/-- More digits make no smaller number. -/
theorem le_foldl_base16 (ds : List Nat) (n : Nat) : n ≤ ds.foldl (fun n d => n * 16 + d) n := by
  induction ds generalizing n with
  | nil => exact Nat.le_refl n
  | cons d ds ih =>
    have h := ih (n * 16 + d)
    rw [List.foldl_cons]
    omega

/-- The loop checks every intermediate result, which is no more than the number itself. -/
theorem digitLoop_eq_some_iff (cs : List Char) {n m : Nat} (hn : n < 2 ^ 128) :
    digitLoop cs n = some m ↔ ∃ ds, List.Forall₂ (fun c d => toDigit16 c = some d) cs ds ∧
      m = ds.foldl (fun n d => n * 16 + d) n ∧ m < 2 ^ 128 := by
  induction cs generalizing n with
  | nil =>
    constructor
    · intro h
      obtain rfl := Option.some.inj h
      exact ⟨[], .nil, rfl, hn⟩
    · rintro ⟨ds, hds, rfl, -⟩
      cases hds
      rfl
  | cons c cs ih =>
    constructor
    · intro h
      obtain ⟨x, hx, h⟩ := Option.bind_eq_some_iff.mp h
      obtain ⟨n₁, hmul, h⟩ := Option.bind_eq_some_iff.mp h
      obtain ⟨-, rfl⟩ := checkedU128_eq_some_iff.mp hmul
      obtain ⟨n₂, hadd, h⟩ := Option.bind_eq_some_iff.mp h
      obtain ⟨hlt, rfl⟩ := checkedU128_eq_some_iff.mp hadd
      obtain ⟨ds, hds, hm, hlt⟩ := (ih hlt).mp h
      exact ⟨x :: ds, .cons hx hds, hm, hlt⟩
    · rintro ⟨_, hall, hm, hlt⟩
      obtain ⟨x, ds, hx, hds, rfl⟩ := List.forall₂_cons_left_iff.mp hall
      rw [List.foldl_cons] at hm
      have hle := le_foldl_base16 ds (n * 16 + x)
      have hnext : n * 16 + x < 2 ^ 128 := by omega
      have hrest := (ih hnext).mpr ⟨ds, hds, hm, hlt⟩
      refine Option.bind_eq_some_iff.mpr ⟨x, hx, Option.bind_eq_some_iff.mpr ⟨n * 16, ?_,
        Option.bind_eq_some_iff.mpr ⟨n * 16 + x, ?_, hrest⟩⟩⟩
      · exact checkedU128_eq_some_iff.mpr ⟨by omega, rfl⟩
      · exact checkedU128_eq_some_iff.mpr ⟨hnext, rfl⟩

/-- **What a text stands for**: the number its digits make, if that is a `u128`. -/
theorem fromStrRadix16_eq_some_iff (s : String) (token : Token) :
    fromStrRadix16 s = some token ↔ ParsesBase16 s token.toNat := by
  -- what follows the sign, if there is one
  have hdigits (cs : List Char) : (if cs.isEmpty then none
      else (digitLoop cs 0).map (BitVec.ofNat 128)) = some token ↔
      cs ≠ [] ∧ ∃ ds, List.Forall₂ (fun c d => toDigit16 c = some d) cs ds ∧
        token.toNat = base16 ds := by
    by_cases hcs : cs = []
    · simp [hcs]
    · rw [if_neg (by simpa using hcs), Option.map_eq_some_iff]
      constructor
      · rintro ⟨m, hm, rfl⟩
        obtain ⟨ds, hds, hm, hlt⟩ := (digitLoop_eq_some_iff cs (by decide)).mp hm
        exact ⟨hcs, ds, hds, by rw [BitVec.toNat_ofNat, Nat.mod_eq_of_lt hlt, hm]; rfl⟩
      · rintro ⟨-, ds, hds, hm⟩
        refine ⟨token.toNat, (digitLoop_eq_some_iff cs (by decide)).mpr ⟨ds, hds, hm, token.isLt⟩,
          ?_⟩
        rw [BitVec.ofNat_toNat, BitVec.setWidth_eq]
  unfold fromStrRadix16 ParsesBase16
  split
  · rename_i rest hs
    rw [hdigits]
    constructor
    · rintro ⟨hne, ds, hds, hn⟩
      exact ⟨rest, ds, .inr hs, hne, hds, hn⟩
    · rintro ⟨cs, ds, hcs | hcs, hne, hds, hn⟩
      · -- a plus sign is no digit
        rw [hs] at hcs
        rw [← hcs] at hds
        obtain ⟨x, ds', hx, -⟩ := List.forall₂_cons_left_iff.mp hds
        have hplus : toDigit16 '+' = none := by decide
        rw [hplus] at hx
        cases hx
      · obtain rfl := (List.cons.inj (hs.symm.trans hcs)).2
        exact ⟨hne, ds, hds, hn⟩
  · rename_i hplus
    rw [hdigits]
    constructor
    · rintro ⟨hne, ds, hds, hn⟩
      exact ⟨s.toList, ds, .inl rfl, hne, hds, hn⟩
    · rintro ⟨cs, ds, hcs | hcs, hne, hds, hn⟩
      · obtain rfl := hcs
        exact ⟨hne, ds, hds, hn⟩
      · exact absurd hcs (hplus cs)

/-! ### The text of a token -/

theorem toDigit16_digitChar {d : Nat} (h : d < 16) : toDigit16 d.digitChar = some d := by
  have hall : ∀ d < 16, toDigit16 d.digitChar = some d := by decide
  exact hall d h

theorem base16_append (ds : List Nat) (d : Nat) : base16 (ds ++ [d]) = base16 ds * 16 + d := by
  rw [base16, List.foldl_append]
  rfl

/-- The digits of a number make the number. -/
theorem exists_digits (n : Nat) : ∃ ds,
    List.Forall₂ (fun c d => toDigit16 c = some d) (Nat.toDigits 16 n) ds ∧ base16 ds = n := by
  induction n using Nat.strongRecOn with
  | ind n ih =>
    by_cases hlt : n < 16
    · rw [Nat.toDigits_of_lt_base hlt]
      exact ⟨[n], .cons (toDigit16_digitChar hlt) .nil, by simp [base16]⟩
    · obtain ⟨ds, hds, hn⟩ := ih (n / 16) (by omega)
      have hlast := toDigit16_digitChar (Nat.mod_lt n (by decide : 0 < 16))
      rw [Nat.toDigits_of_base_le (by decide) (by omega)]
      refine ⟨ds ++ [n % 16], ?_, by rw [base16_append, hn]; omega⟩
      exact List.rel_append hds (.cons hlast .nil)

/-- Zeros in front change nothing. -/
theorem base16_zeros (k : Nat) (ds : List Nat) : base16 (List.replicate k 0 ++ ds) = base16 ds := by
  induction k with
  | zero => rfl
  | succ k ih => rwa [List.replicate_succ, List.cons_append, base16, List.foldl_cons]

/-- **A token's text** stands for the token. -/
theorem parsesBase16_tokenText (token : Token) : ParsesBase16 (tokenText token) token.toNat := by
  obtain ⟨ds, hds, hn⟩ := exists_digits token.toNat
  refine ⟨_, List.replicate (32 - (Nat.toDigits 16 token.toNat).length) 0 ++ ds, .inl rfl, ?_, ?_, ?_⟩
  · rw [tokenText, String.toList_ofList]
    exact List.append_ne_nil_of_right_ne_nil _ Nat.toDigits_ne_nil
  · rw [tokenText, String.toList_ofList]
    refine List.rel_append ?_ hds
    induction 32 - (Nat.toDigits 16 token.toNat).length with
    | zero => exact .nil
    | succ k ih => exact .cons (by decide) ih
  · rw [base16_zeros, hn]

/-! ### The check -/

theorem checkAuditToken_ok_iff (live : List Token) (s : String) :
    checkAuditToken live s = .ok () ↔ ∃ token, ParsesBase16 s token.toNat ∧ token ∈ live := by
  have hok : checkAuditToken live s = .ok () ↔ (fromStrRadix16 s).any (isLive live) = true := by
    unfold checkAuditToken
    split <;> simp_all
  rw [hok, Option.any_eq_true]
  refine exists_congr fun token => ?_
  rw [fromStrRadix16_eq_some_iff, isLive, List.contains_iff_mem]

/-- A writer whose text is accepted runs its statement. -/
theorem auditWriter_of_accepted {σ : Type} {name : String} {record : σ → Except String σ}
    {live : List Token} {token : String} (h : checkAuditToken live token = .ok ()) (s : σ) :
    auditWriter name record live token s = (record s).mapError fun e => name ++ ": " ++ e := by
  rw [auditWriter, h]
  rfl

/-- A writer whose text is refused runs nothing. -/
theorem auditWriter_of_refused {σ : Type} {name : String} {record : σ → Except String σ}
    {live : List Token} {token : String} (h : checkAuditToken live token ≠ .ok ()) (s : σ) :
    ∃ e, auditWriter name record live token s = .error e := by
  rcases hcheck : checkAuditToken live token with e | ⟨⟩
  · exact ⟨e, by rw [auditWriter, hcheck]; rfl⟩
  · exact absurd hcheck h

/-- **The audit capability**: at any point of any history a text is accepted just if it stands for a
token that was minted and not dropped.  The text of a live grant is accepted; no text for a token
whose grant was dropped is. -/
theorem accepts_live_tokens {events : List GrantEvent} (h : GrantHistory events) :
    (∀ s, checkAuditToken (liveTokens events) s = .ok () ↔
      ∃ token : Token, ParsesBase16 s token.toNat ∧ .mint token ∈ events ∧ .drop token ∉ events) ∧
    (∀ token, .mint token ∈ events → .drop token ∉ events →
      checkAuditToken (liveTokens events) (tokenText token) = .ok ()) ∧
    ∀ token, .drop token ∈ events → ∀ s, ParsesBase16 s token.toNat →
      checkAuditToken (liveTokens events) s ≠ .ok () := by
  have haccepts (s : String) : checkAuditToken (liveTokens events) s = .ok () ↔
      ∃ token : Token, ParsesBase16 s token.toNat ∧ .mint token ∈ events ∧ .drop token ∉ events := by
    rw [checkAuditToken_ok_iff]
    exact exists_congr fun token => and_congr_right fun _ => mem_liveTokens_iff h token
  refine ⟨haccepts, fun token hminted hheld => ?_, fun token hdrop s hs hok => ?_⟩
  · exact (haccepts _).mpr ⟨token, parsesBase16_tokenText token, hminted, hheld⟩
  · obtain ⟨other, hother, -, hheld⟩ := (haccepts s).mp hok
    have hsame : some token = some other := by
      rw [← (fromStrRadix16_eq_some_iff s token).mpr hs,
        (fromStrRadix16_eq_some_iff s other).mpr hother]
    obtain rfl := Option.some.inj hsame
    exact hheld hdrop

/-- Two runs, the outer one dropped first. -/
theorem outer_dropped_first :
    let events : List GrantEvent := [.mint 10, .mint 11, .drop 10]
    checkAuditToken (liveTokens events) (tokenText 11) = .ok () ∧
      checkAuditToken (liveTokens events) (tokenText 10) ≠ .ok () := by
  intro events
  have houter : GrantHistory [.mint 10] := .mint .start (by decide)
  have hboth : GrantHistory [.mint 10, .mint 11] := .mint houter (by decide)
  have h : GrantHistory events := .drop hboth (by decide) (by decide)
  obtain ⟨-, hlive, hdropped⟩ := accepts_live_tokens h
  exact ⟨hlive 11 (by decide) (by decide),
    hdropped 10 (by decide) _ (parsesBase16_tokenText 10)⟩

end PgSynapse
