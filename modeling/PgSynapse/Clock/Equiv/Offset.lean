import PgSynapse.Clock.Offset

/-!
# What `parse_fixed_offset` accepts

The parser is exact on a text in the documented format.  Elsewhere it is exact but for two kinds of
texts (`parse_fixed_offset_iff`): those of six bytes or more that start with a character of several
bytes, and those of two `i32` numerals around a colon whose seconds overflow or make less than a day.
-/

namespace PgSynapse

namespace Clock

/-! ### The documented format -/

/-- The value of a digit. -/
def digitVal (c : Char) : Nat := c.toNat - 48

/-- A character that stands for a sign. -/
def IsSign (c : Char) (sign : Int) : Prop := c = '+' ∧ sign = 1 ∨ c = '-' ∧ sign = -1

/-- "+HH:MM" or "-HH:MM", with the seconds it stands for. -/
def OffsetText (t : List Char) (secs : Int) : Prop :=
  ∃ c sign h₁ h₂ m₁ m₂, IsSign c sign ∧ (∀ d ∈ [h₁, h₂, m₁, m₂], d.isDigit = true) ∧
    t = [c, h₁, h₂, ':', m₁, m₂] ∧
    10 * digitVal h₁ + digitVal h₂ < 24 ∧ 10 * digitVal m₁ + digitVal m₂ < 60 ∧
    secs = sign * (((10 * digitVal h₁ + digitVal h₂ : Nat) : Int) * 3600 +
      ((10 * digitVal m₁ + digitVal m₂ : Nat) : Int) * 60)

/-- The parser neither panics nor overflows, and gives the offset of the format or none. -/
def Exact (s : String) : Prop :=
  ∃ r, parseFixedOffset s = .ok r ∧
    ∀ secs, r.map FixedOffset.secs = some secs ↔ OffsetText (Text.trim s).toList secs

/-! ### What the parser reads -/

/-- A text of six bytes or more whose first character takes more than one. -/
def MultiByteHead (t : List Char) : Prop := 6 ≤ byteLen t ∧ ∃ c cs, t = c :: cs ∧ c.utf8Size ≠ 1

/-- A sign and two numerals of `i32` around a colon, six bytes or more. -/
def Loose (t : List Char) (sign hours minutes : Int) : Prop :=
  ∃ c hs ms, IsSign c sign ∧ ':' ∉ hs ∧ t = c :: (hs ++ ':' :: ms) ∧ 6 ≤ byteLen t ∧
    parseI32 hs = some hours ∧ parseI32 ms = some minutes

theorem IsSign.size {c : Char} {sign : Int} (h : IsSign c sign) : c.utf8Size = 1 := by
  rcases h with ⟨rfl, -⟩ | ⟨rfl, -⟩ <;> rfl

theorem IsSign.sign {c : Char} {sign : Int} (h : IsSign c sign) : sign = 1 ∨ sign = -1 :=
  h.imp And.right And.right

theorem signOf_singleton_iff (c : Char) (sign : Int) : signOf [c] = some sign ↔ IsSign c sign := by
  unfold signOf IsSign
  by_cases hplus : c = '+'
  · subst hplus
    simp [eq_comm]
  · by_cases hminus : c = '-'
    · subst hminus
      simp [eq_comm]
    · simp [hplus, hminus]

theorem IsSign.unique {c : Char} {sign sign' : Int} (h : IsSign c sign) (h' : IsSign c sign') :
    sign = sign' :=
  Option.some.inj (((signOf_singleton_iff c sign).mpr h).symm.trans
    ((signOf_singleton_iff c sign').mpr h'))

theorem splitAt_one (c : Char) (cs : List Char) :
    splitAt (c :: cs) 1 = if c.utf8Size = 1 then .ok ([c], cs) else .error .charBoundary := by
  have hpos := c.utf8Size_pos
  unfold splitAt
  by_cases hc : c.utf8Size = 1
  · simp [sliceTo, sliceFrom, hc]
  · have hlt : ¬ c.utf8Size ≤ 1 := by omega
    simp [sliceTo, hc, hlt]

/-- What follows the sign, cut at the colon. -/
theorem splitn2_of_not_mem {hs : List Char} (h : ':' ∉ hs) (ms : List Char) :
    splitn2 ':' (hs ++ ':' :: ms) = [hs, ms] := by
  rw [splitn2, splitOnce_singleton h]

/-- A loose offset is read in one way. -/
theorem Loose.unique {t : List Char} {sign sign' h h' m m' : Int} (hl : Loose t sign h m)
    (hl' : Loose t sign' h' m') : sign = sign' ∧ h = h' ∧ m = m' := by
  obtain ⟨c, hs, ms, hc, hcolon, rfl, -, hh, hm⟩ := hl
  obtain ⟨c', hs', ms', hc', hcolon', heq, -, hh', hm'⟩ := hl'
  obtain ⟨rfl, hrest⟩ := List.cons.inj heq
  have hparts := splitn2_of_not_mem hcolon ms
  rw [hrest, splitn2_of_not_mem hcolon'] at hparts
  obtain ⟨rfl, hms⟩ := List.cons.inj hparts
  obtain ⟨rfl, -⟩ := List.cons.inj hms
  exact ⟨hc.unique hc', Option.some.inj (hh.symm.trans hh'), Option.some.inj (hm.symm.trans hm')⟩

/-! ### The seconds -/

/-- The three values that are checked. -/
def SecondsFit (hours minutes : Int) : Prop :=
  InI32 (hours * 3600) ∧ InI32 (minutes * 60) ∧ InI32 (hours * 3600 + minutes * 60)

theorem checkI32_of (i : Int) (h : InI32 i) : checkI32 i = .ok i := if_pos h

theorem checkI32_of_not (i : Int) (h : ¬ InI32 i) : checkI32 i = .error .overflow := if_neg h

theorem totalSeconds_of_fit {sign h m : Int} (hsign : sign = 1 ∨ sign = -1) (hfit : SecondsFit h m) :
    totalSeconds sign h m = .ok (sign * (h * 3600 + m * 60)) := by
  obtain ⟨hh, hm, ht⟩ := hfit
  -- the sum is a multiple of 60, so it is not the one value without a negative
  have hs : InI32 (sign * (h * 3600 + m * 60)) := by
    unfold InI32 at ht ⊢
    rcases hsign with rfl | rfl <;> omega
  simp only [totalSeconds, checkI32_of _ hh, checkI32_of _ hm, checkI32_of _ ht, checkI32_of _ hs,
    bind, Except.bind]

theorem totalSeconds_of_not_fit {sign h m : Int} (hfit : ¬ SecondsFit h m) :
    totalSeconds sign h m = .error .overflow := by
  unfold totalSeconds
  by_cases hh : InI32 (h * 3600)
  · by_cases hm : InI32 (m * 60)
    · have ht : ¬ InI32 (h * 3600 + m * 60) := fun ht => hfit ⟨hh, hm, ht⟩
      simp only [checkI32_of _ hh, checkI32_of _ hm, checkI32_of_not _ ht, bind, Except.bind]
    · simp only [checkI32_of _ hh, checkI32_of_not _ hm, bind, Except.bind]
  · simp only [checkI32_of_not _ hh, bind, Except.bind]

theorem eastOpt_eq_none_iff (secs : Int) : eastOpt secs = none ↔ secs ≤ -86400 ∨ 86400 ≤ secs := by
  unfold eastOpt
  split <;> simp only [reduceCtorEq, false_iff, true_iff] <;> omega

theorem map_secs_eastOpt {secs : Int} (h : -86400 < secs ∧ secs < 86400) :
    (eastOpt secs).map FixedOffset.secs = some secs := by
  rw [eastOpt, dif_pos h]
  rfl

/-! ### The parser by cases -/

theorem parseFixedOffset_cases (s : String) :
    (MultiByteHead (Text.trim s).toList ∧ parseFixedOffset s = .error .charBoundary) ∨
    (∃ sign h m, Loose (Text.trim s).toList sign h m ∧
      parseFixedOffset s = (totalSeconds sign h m).map eastOpt) ∨
    (¬ MultiByteHead (Text.trim s).toList ∧ (∀ sign h m, ¬ Loose (Text.trim s).toList sign h m) ∧
      parseFixedOffset s = .ok none) := by
  unfold parseFixedOffset
  generalize (Text.trim s).toList = t
  simp only
  by_cases hlen : byteLen t < 6
  · refine .inr (.inr ⟨fun h => ?_, fun sign h m hl => ?_, ?_⟩)
    · exact absurd h.1 (by omega)
    -- what has the format is long enough to get past this check
    · obtain ⟨-, -, -, -, -, -, h6, -⟩ := hl
      omega
    · rw [if_pos hlen]
      rfl
  rw [if_neg hlen]
  obtain ⟨c, rest, rfl⟩ : ∃ c rest, t = c :: rest := by
    refine List.exists_cons_of_ne_nil ?_
    rintro rfl
    exact hlen (by decide)
  rw [splitAt_one]
  by_cases hc : c.utf8Size = 1
  swap
  · rw [if_neg hc]
    -- `split_at(1)` cuts a char of more than one byte in two
    exact .inl ⟨⟨by omega, c, rest, rfl, hc⟩, rfl⟩
  have hhead : ¬ MultiByteHead (c :: rest) := by
    rintro ⟨-, c', cs, heq, hne⟩
    rw [← (List.cons.inj heq).1] at hne
    exact hne hc
  rw [if_pos hc]
  cases hsign : signOf [c] with
  | none =>
    refine .inr (.inr ⟨hhead, fun sign h m hl => ?_, ?_⟩)
    · obtain ⟨c', hs, ms, hc', -, heq, -⟩ := hl
      rw [← (List.cons.inj heq).1, ← signOf_singleton_iff, hsign] at hc'
      cases hc'
    · simp only [bind, Except.bind, hsign]
      rfl
  | some sign =>
    -- the two parts of the split are the only hours and minutes a text in the format can have
    have hloose : ∀ sign' h m, Loose (c :: rest) sign' h m →
        (splitn2 ':' rest)[0]?.bind parseI32 = some h ∧
          (splitn2 ':' rest)[1]?.bind parseI32 = some m := by
      rintro sign' h m ⟨c', hs, ms, -, hcolon, heq, -, hh, hm⟩
      rw [(List.cons.inj heq).2, splitn2_of_not_mem hcolon]
      exact ⟨hh, hm⟩
    cases hh : (splitn2 ':' rest)[0]?.bind parseI32 with
    | none =>
      refine .inr (.inr ⟨hhead, fun sign' h m hl => ?_, ?_⟩)
      · cases hh.symm.trans (hloose _ _ _ hl).1
      · simp only [bind, Except.bind, hsign, hh]
        rfl
    | some h =>
      cases hm : (splitn2 ':' rest)[1]?.bind parseI32 with
      | none =>
        refine .inr (.inr ⟨hhead, fun sign' h m hl => ?_, ?_⟩)
        · cases hm.symm.trans (hloose _ _ _ hl).2
        · simp only [bind, Except.bind, hsign, hh, hm]
          rfl
      | some m =>
        refine .inr (.inl ⟨sign, h, m, ?_, ?_⟩)
        · -- a second part means that there was a colon
          cases hsplit : splitOnce [':'] rest with
          | none =>
            rw [splitn2, hsplit] at hm
            cases hm
          | some p =>
            rw [splitn2, hsplit] at hh hm
            exact ⟨c, p.1, p.2, (signOf_singleton_iff c sign).mp hsign, not_mem_of_splitOnce hsplit,
              by rw [splitOnce_eq hsplit]; rfl, by omega, hh, hm⟩
        · simp only [bind, Except.bind, hsign, hh, hm]
          cases totalSeconds sign h m <;> rfl

/-! ### Texts in the format -/

/-- Two digits are a numeral of an `i32`. -/
theorem parseI32_two {a b : Char} (ha : a.isDigit = true) (hb : b.isDigit = true) :
    parseI32 [a, b] = some ((10 * digitVal a + digitVal b : Nat) : Int) := by
  have hne : a ≠ '-' ∧ a ≠ '+' := by
    constructor <;> rintro rfl <;> cases ha
  have hdigits : parseDigits [a, b] = some (10 * digitVal a + digitVal b) := by
    simp [parseDigits, ha, hb, Nat.ofDigitChars_cons, digitVal]
  have hsigned : parseSigned [a, b] = some ((10 * digitVal a + digitVal b : Nat) : Int) := by
    unfold parseSigned
    split
    · rename_i heq
      exact absurd (List.cons.inj heq).1 hne.1
    · rename_i heq
      exact absurd (List.cons.inj heq).1 hne.2
    · rw [hdigits]
      rfl
  have ha' : 48 ≤ a.toNat ∧ a.toNat ≤ 57 := Char.isDigit_iff_toNat.mp ha
  have hb' : 48 ≤ b.toNat ∧ b.toNat ≤ 57 := Char.isDigit_iff_toNat.mp hb
  have hfit : InI32 ((10 * digitVal a + digitVal b : Nat) : Int) := by
    unfold InI32 digitVal
    omega
  rw [parseI32, hsigned, Option.bind_some, if_pos hfit]

/-- A text in the format is read as its hours and minutes. -/
theorem OffsetText.loose {t : List Char} {secs : Int} (h : OffsetText t secs) :
    ∃ sign h m, Loose t sign h m ∧ 0 ≤ h ∧ h < 24 ∧ 0 ≤ m ∧ m < 60 ∧
      secs = sign * (h * 3600 + m * 60) := by
  obtain ⟨c, sign, h₁, h₂, m₁, m₂, hc, hdigits, rfl, hh, hm, rfl⟩ := h
  simp only [List.forall_mem_cons] at hdigits
  obtain ⟨hh₁, hh₂, hm₁, hm₂, -⟩ := hdigits
  refine ⟨sign, _, _, ⟨c, [h₁, h₂], [m₁, m₂], hc, ?_, rfl, ?_, parseI32_two hh₁ hh₂,
    parseI32_two hm₁ hm₂⟩, by omega, by omega, by omega, by omega, rfl⟩
  · simp only [List.mem_cons, List.not_mem_nil, or_false, not_or]
    constructor <;> rintro rfl
    · cases hh₁
    · cases hh₂
  · exact length_le_byteLen [c, h₁, h₂, ':', m₁, m₂]

/-- The numerals' seconds are checked and are no offset. -/
def NoOffset (hours minutes : Int) : Prop :=
  SecondsFit hours minutes ∧
    (hours * 3600 + minutes * 60 ≤ -86400 ∨ 86400 ≤ hours * 3600 + minutes * 60)

/-- A text in the format, or one of a kind that the parser turns down as it should. -/
def TurnedDown (t : List Char) : Prop :=
  (∃ secs, OffsetText t secs) ∨
    (¬ MultiByteHead t ∧ ∀ sign h m, Loose t sign h m → NoOffset h m)

theorem exact_of_offsetText {s : String} {secs : Int}
    (h : OffsetText (Text.trim s).toList secs) : Exact s := by
  obtain ⟨sign, hours, minutes, hl, hh, hh', hm, hm', rfl⟩ := h.loose
  have hsign : sign = 1 ∨ sign = -1 := by
    obtain ⟨c, -, -, hc, -⟩ := hl
    exact hc.sign
  have hfit : SecondsFit hours minutes := by
    refine ⟨?_, ?_, ?_⟩ <;> unfold InI32 <;> omega
  have hday : -86400 < sign * (hours * 3600 + minutes * 60) ∧
      sign * (hours * 3600 + minutes * 60) < 86400 := by
    rcases hsign with rfl | rfl <;> omega
  rcases parseFixedOffset_cases s with ⟨⟨-, c, cs, heq, hne⟩, -⟩ | ⟨sign', h', m', hl', hrun⟩ | ⟨-, hno, -⟩
  · obtain ⟨c', hs, ms, hc, -, heq', -⟩ := hl
    rw [heq] at heq'
    exact absurd ((List.cons.inj heq').1 ▸ hc.size) hne
  · obtain ⟨rfl, rfl, rfl⟩ := hl.unique hl'
    rw [totalSeconds_of_fit hsign hfit] at hrun
    refine ⟨_, hrun, fun secs => ?_⟩
    rw [map_secs_eastOpt hday, Option.some.injEq]
    constructor
    · rintro rfl
      exact h
    · intro hsecs
      obtain ⟨sign', h', m', hl', -, -, -, -, rfl⟩ := hsecs.loose
      obtain ⟨rfl, rfl, rfl⟩ := hl.unique hl'
      rfl
  · exact absurd hl (hno _ _ _)

/-- Outside of the format the parser is exact just if it gives none. -/
theorem exact_iff_of_not_offsetText {s : String}
    (h : ¬ ∃ secs, OffsetText (Text.trim s).toList secs) :
    Exact s ↔ parseFixedOffset s = .ok none := by
  constructor
  · rintro ⟨r, hrun, hr⟩
    cases r with
    | none => exact hrun
    | some o => exact absurd ⟨o.secs, (hr o.secs).mp rfl⟩ h
  · intro hrun
    refine ⟨none, hrun, fun secs => iff_of_false ?_ fun hsecs => h ⟨secs, hsecs⟩⟩
    intro hnone
    cases hnone

/-- Two numerals are turned down just if their seconds are. -/
theorem map_eastOpt_eq_none_iff {sign h m : Int} (hsign : sign = 1 ∨ sign = -1) :
    (totalSeconds sign h m).map eastOpt = .ok none ↔ NoOffset h m := by
  unfold NoOffset
  by_cases hfit : SecondsFit h m
  · rw [totalSeconds_of_fit hsign hfit, Except.map, Except.ok.injEq, eastOpt_eq_none_iff]
    rw [and_iff_right hfit]
    rcases hsign with rfl | rfl <;> omega
  · rw [totalSeconds_of_not_fit hfit]
    refine iff_of_false ?_ fun hno => hfit hno.1
    intro herr
    cases herr

/-- **The offset parser** is exact just on the texts it accepts or turns down as it should. -/
theorem parse_fixed_offset_iff (s : String) : Exact s ↔ TurnedDown (Text.trim s).toList := by
  by_cases hformat : ∃ secs, OffsetText (Text.trim s).toList secs
  · obtain ⟨secs, hsecs⟩ := hformat
    exact iff_of_true (exact_of_offsetText hsecs) (.inl ⟨secs, hsecs⟩)
  rw [exact_iff_of_not_offsetText hformat, TurnedDown, or_iff_right hformat]
  rcases parseFixedOffset_cases s with ⟨hhead, hrun⟩ | ⟨sign, h, m, hl, hrun⟩ | ⟨hhead, hno, hrun⟩
  · rw [hrun]
    refine iff_of_false ?_ fun hdown => hdown.1 hhead
    intro herr
    cases herr
  · have hsign : sign = 1 ∨ sign = -1 := by
      obtain ⟨c, -, -, hc, -⟩ := hl
      exact hc.sign
    have hhead : ¬ MultiByteHead (Text.trim s).toList := by
      rintro ⟨-, c, cs, heq, hne⟩
      obtain ⟨c', hs, ms, hc, -, heq', -⟩ := hl
      rw [heq] at heq'
      exact hne ((List.cons.inj heq').1 ▸ hc.size)
    rw [hrun, map_eastOpt_eq_none_iff hsign, and_iff_right hhead]
    constructor
    · intro hno sign' h' m' hl'
      obtain ⟨rfl, rfl, rfl⟩ := hl.unique hl'
      exact hno
    · exact fun hall => hall sign h m hl
  · exact iff_of_true hrun ⟨hhead, fun sign h m hl => absurd hl (hno sign h m)⟩

/-- A first character of two bytes panics, a long run of digits overflows, and one digit of hours
with four of minutes is taken. -/
theorem loose_offsets_not_exact :
    ¬ Exact "é12:30" ∧ ¬ Exact "+2000000000:00" ∧ ¬ Exact "+5:0000" ∧
      parseFixedOffset "é12:30" = .error .charBoundary ∧
      parseFixedOffset "+2000000000:00" = .error .overflow ∧
      parseFixedOffset "+5:0000" = .ok (eastOpt 18000) := by
  have hpanic : parseFixedOffset "é12:30" = .error .charBoundary := by decide +kernel
  have hover : parseFixedOffset "+2000000000:00" = .error .overflow := by decide +kernel
  have htaken : parseFixedOffset "+5:0000" = .ok (eastOpt 18000) := by decide +kernel
  refine ⟨?_, ?_, ?_, hpanic, hover, htaken⟩
  · rintro ⟨r, hr, -⟩
    cases hpanic.symm.trans hr
  · rintro ⟨r, hr, -⟩
    cases hover.symm.trans hr
  · rintro ⟨r, hr, hsecs⟩
    rw [htaken, Except.ok.injEq] at hr
    obtain ⟨c, sign, h₁, h₂, m₁, m₂, -, -, htext, -⟩ :=
      (hsecs 18000).mp (by rw [← hr, map_secs_eastOpt (by decide)])
    have htrim : (Text.trim "+5:0000").toList = ['+', '5', ':', '0', '0', '0', '0'] := by
      decide +kernel
    rw [htrim] at htext
    cases htext

end Clock

end PgSynapse
