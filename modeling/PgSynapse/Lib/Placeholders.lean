import Mathlib.Data.List.Basic

/-!
# Placeholders of a SQL text

`Sql.placeholders` reads the numbers of `$1`, `$2`, ... in a statement; what stands in a quoted
identifier does not count.  `Sql.Shows` is a stretch of text with the numbers it contributes, and is
closed under joining.
-/

namespace PgSynapse

namespace Sql

/-- The numbers of the placeholders from here on, inside a quoted identifier or outside. -/
def placeholders : Bool → List Char → List Nat
  | _, [] => []
  | true, c :: cs => placeholders (c != '"') cs
  | false, c :: cs =>
    if c = '"' then placeholders true cs
    else if c = '$' then
      Nat.ofDigitChars 10 (cs.takeWhile Char.isDigit) 0 :: placeholders false cs
    else placeholders false cs

/-- The numbers of the placeholders of a statement, in order. -/
def numbers (s : String) : List Nat := placeholders false s.toList

/-- A text that does not continue a number. -/
def Starts (s : List Char) : Prop := ∀ c, s.head? = some c → c.isDigit = false

/-- A stretch of text with these placeholders, whatever comes behind it. -/
structure Shows (s : List Char) (ns : List Nat) : Prop where
  starts : Starts s
  reads : ∀ t, Starts t → placeholders false (s ++ t) = ns ++ placeholders false t

theorem Starts.append {s t : List Char} (hs : Starts s) (ht : Starts t) : Starts (s ++ t) := by
  cases s with
  | nil => exact ht
  | cons c s => exact fun d hd => hs d hd

theorem Starts.nil : Starts [] := fun _ h => (Option.some_ne_none _ h.symm).elim

theorem Shows.nil : Shows [] [] := ⟨.nil, fun _ _ => rfl⟩

theorem Shows.append {s t : List Char} {ns ms : List Nat} (hs : Shows s ns) (ht : Shows t ms) :
    Shows (s ++ t) (ns ++ ms) := by
  refine ⟨hs.starts.append ht.starts, fun u hu => ?_⟩
  rw [List.append_assoc, hs.reads _ (ht.starts.append hu), ht.reads u hu, List.append_assoc]

theorem Shows.numbers {s : String} {ns : List Nat} (h : Shows s.toList ns) : numbers s = ns := by
  have hread := h.reads [] .nil
  rw [List.append_nil, placeholders, List.append_nil] at hread
  exact hread

/-- Text without quotes and dollar signs. -/
theorem Shows.plain {s : List Char} (hs : Starts s) (h : ∀ c ∈ s, c ≠ '"' ∧ c ≠ '$') :
    Shows s [] := by
  refine ⟨hs, fun t _ => ?_⟩
  rw [List.nil_append]
  clear hs
  induction s with
  | nil => rfl
  | cons c s ih =>
    obtain ⟨hquote, hdollar⟩ := h c List.mem_cons_self
    rw [List.cons_append, placeholders, if_neg hquote, if_neg hdollar]
    exact ih fun d hd => h d (List.mem_cons_of_mem _ hd)

/-- A quoted identifier: its quotes are doubled, so it ends where it should. -/
theorem Shows.quoted (name : List Char) :
    Shows ('"' :: name.flatMap (fun c => if c = '"' then ['"', '"'] else [c]) ++ ['"']) [] := by
  refine ⟨?_, fun t _ => ?_⟩
  · intro c hc
    rw [← Option.some.inj hc]
    decide
  · rw [List.cons_append, List.cons_append, placeholders, if_pos rfl, List.nil_append]
    induction name with
    | nil => rfl
    | cons c name ih =>
      by_cases hc : c = '"'
      · rw [List.flatMap_cons, if_pos hc]
        exact ih
      · rw [List.flatMap_cons, if_neg hc, List.singleton_append, List.cons_append, List.cons_append,
          placeholders, bne_iff_ne.mpr hc]
        exact ih

/-- A placeholder. -/
theorem Shows.placeholder (n : Nat) : Shows ('$' :: Nat.toDigits 10 n) [n] := by
  have hdigit : ∀ c ∈ Nat.toDigits 10 n, c.isDigit = true := fun c hc =>
    Nat.isDigit_of_mem_toDigits (by decide) (by decide) hc
  refine ⟨?_, fun t ht => ?_⟩
  · intro c hc
    rw [← Option.some.inj hc]
    decide
  · have htake : (Nat.toDigits 10 n ++ t).takeWhile Char.isDigit = Nat.toDigits 10 n := by
      rw [List.takeWhile_append_of_pos hdigit]
      cases t with
      | nil => exact List.append_nil _
      | cons c t =>
        rw [List.takeWhile_cons_of_neg (by rw [ht c rfl]; decide), List.append_nil]
    have hrest : placeholders false (Nat.toDigits 10 n ++ t) = placeholders false t := by
      generalize Nat.toDigits 10 n = digits at hdigit
      induction digits with
      | nil => rfl
      | cons c digits ih =>
        have hc := hdigit c List.mem_cons_self
        have hquote : c ≠ '"' := by
          rintro rfl
          exact absurd hc (by decide)
        have hdollar : c ≠ '$' := by
          rintro rfl
          exact absurd hc (by decide)
        rw [List.cons_append, placeholders, if_neg hquote, if_neg hdollar]
        exact ih fun d hd => hdigit d (List.mem_cons_of_mem _ hd)
    rw [List.cons_append, placeholders, if_neg (by decide), if_pos rfl, htake,
      Nat.ofDigitChars_ten_toDigits, hrest]
    rfl

/-- Stretches joined at a separator without placeholders. -/
theorem Shows.intercalate {α : Type} {sep : List Char} (hsep : Shows sep []) {f : α → List Char}
    {g : α → List Nat} {xs : List α} (h : ∀ x ∈ xs, Shows (f x) (g x)) :
    Shows (sep.intercalate (xs.map f)) (xs.flatMap g) := by
  induction xs with
  | nil => exact .nil
  | cons x xs ih =>
    obtain ⟨hx, hxs⟩ := List.forall_mem_cons.mp h
    cases xs with
    | nil =>
      rw [List.map_cons, List.map_nil, List.intercalate_singleton, List.flatMap_cons,
        List.flatMap_nil, List.append_nil]
      exact hx
    | cons y xs =>
      rw [List.map_cons, List.map_cons, List.intercalate_cons_cons, List.flatMap_cons]
      have hjoined := (hx.append hsep).append (ih hxs)
      rwa [List.append_nil] at hjoined

end Sql

end PgSynapse
