import PgSynapse.Lib.Matched

/-!
# Computations that may fail

How a computation in `Except` that succeeded comes apart: a bind into its two steps, and a traversal
of a list into one success for each element.
-/

namespace PgSynapse

variable {ε α β : Type}

/-- A bind succeeds when both of its steps do. -/
theorem bind_eq_ok {x : Except ε α} {f : α → Except ε β} {b : β} :
    x >>= f = .ok b ↔ ∃ a, x = .ok a ∧ f a = .ok b := by
  cases x with
  | error e => simp [bind, Except.bind]
  | ok a => simp [bind, Except.bind]

/-- A mapped computation succeeds when the computation does. -/
theorem map_eq_ok {x : Except ε α} {f : α → β} {b : β} :
    x.map f = .ok b ↔ ∃ a, x = .ok a ∧ f a = b := by
  cases x with
  | error e => simp [Except.map]
  | ok a => simp [Except.map]

/-- Changing the error does not change a success. -/
theorem mapError_eq_ok {ε' : Type} {x : Except ε α} {f : ε → ε'} {a : α} :
    x.mapError f = .ok a ↔ x = .ok a := by
  cases x with
  | error e => simp [Except.mapError]
  | ok b => simp [Except.mapError]

/-- A success is what `toOption` keeps. -/
theorem toOption_eq_some {x : Except ε α} {a : α} : x.toOption = some a ↔ x = .ok a := by
  cases x with
  | error e => simp [Except.toOption]
  | ok b => simp [Except.toOption]

/-- A traversal that succeeds gives one result for each element, in order. -/
theorem forall₂_of_mapM_eq_ok {f : α → Except ε β} {as : List α} {bs : List β}
    (h : as.mapM f = .ok bs) : List.Forall₂ (fun a b => f a = .ok b) as bs := by
  induction as generalizing bs with
  | nil =>
    have hnil : bs = [] := by simpa [pure, Except.pure] using h.symm
    rw [hnil]
    exact .nil
  | cons a rest ih =>
    rw [List.mapM_cons] at h
    obtain ⟨b, hb, h₁⟩ := bind_eq_ok.mp h
    obtain ⟨bs', hbs, h₂⟩ := bind_eq_ok.mp h₁
    have hcons : bs = b :: bs' := (Except.ok.inj h₂).symm
    rw [hcons]
    exact .cons hb (ih hbs)

/-- Every element of a traversal that succeeds has a result. -/
theorem exists_of_mapM_eq_ok {f : α → Except ε β} {as : List α} {bs : List β}
    (h : as.mapM f = .ok bs) {a : α} (ha : a ∈ as) : ∃ b ∈ bs, f a = .ok b :=
  exists_of_forall₂ (forall₂_of_mapM_eq_ok h) ha

/-- **Two traversals, element by element**: they succeed with results that meet `R` pairwise when every
element has two results that do. -/
theorem mapM_forall₂_iff {ε' γ : Type} {f : α → Except ε β} {g : α → Except ε' γ} {R : β → γ → Prop}
    {as : List α} :
    (∃ bs cs, as.mapM f = .ok bs ∧ as.mapM g = .ok cs ∧ List.Forall₂ R bs cs) ↔
      ∀ a ∈ as, ∃ b c, f a = .ok b ∧ g a = .ok c ∧ R b c := by
  induction as with
  | nil => simp [pure, Except.pure]
  | cons a rest ih =>
    rw [List.forall_mem_cons, ← ih]
    constructor
    · rintro ⟨bs, cs, hf, hg, hR⟩
      rw [List.mapM_cons] at hf hg
      obtain ⟨b, hb, hf⟩ := bind_eq_ok.mp hf
      obtain ⟨bs', hbs, hf⟩ := bind_eq_ok.mp hf
      obtain rfl := Except.ok.inj hf
      obtain ⟨c, hc, hg⟩ := bind_eq_ok.mp hg
      obtain ⟨cs', hcs, hg⟩ := bind_eq_ok.mp hg
      obtain rfl := Except.ok.inj hg
      obtain ⟨hRb, hRbs⟩ := List.forall₂_cons.mp hR
      exact ⟨⟨b, c, hb, hc, hRb⟩, bs', cs', hbs, hcs, hRbs⟩
    · rintro ⟨⟨b, c, hb, hc, hRb⟩, bs, cs, hbs, hcs, hRbs⟩
      refine ⟨b :: bs, c :: cs, ?_, ?_, .cons hRb hRbs⟩
      · rw [List.mapM_cons, hb]
        exact bind_eq_ok.mpr ⟨b, rfl, bind_eq_ok.mpr ⟨bs, hbs, rfl⟩⟩
      · rw [List.mapM_cons, hc]
        exact bind_eq_ok.mpr ⟨c, rfl, bind_eq_ok.mpr ⟨cs, hcs, rfl⟩⟩

/-- What every step of a traversal keeps, the whole traversal keeps. -/
theorem map_of_mapM_eq_ok {γ : Type} {f : α → Except ε β} {as : List α} {bs : List β}
    (h : as.mapM f = .ok bs) {g : β → γ} {k : α → γ} (hg : ∀ a b, f a = .ok b → g b = k a) :
    bs.map g = as.map k := by
  have hall := forall₂_of_mapM_eq_ok h
  clear h
  induction hall with
  | nil => rfl
  | cons hb _ ih => rw [List.map_cons, List.map_cons, ih, hg _ _ hb]

/-- **A traversal in `Option`** gives the results of the elements, in order. -/
theorem mapM_eq_some_iff {f : α → Option β} {as : List α} {bs : List β} :
    as.mapM f = some bs ↔ List.Forall₂ (fun a b => f a = some b) as bs := by
  induction as generalizing bs with
  | nil =>
    rw [List.mapM_nil, List.forall₂_nil_left_iff]
    exact ⟨fun h => (Option.some.inj h).symm, fun h => congrArg some h.symm⟩
  | cons a rest ih =>
    rw [List.mapM_cons, List.forall₂_cons_left_iff]
    constructor
    · intro h
      obtain ⟨b, hb, h⟩ := Option.bind_eq_some_iff.mp h
      obtain ⟨bs', hbs, h⟩ := Option.bind_eq_some_iff.mp h
      exact ⟨b, bs', hb, ih.mp hbs, (Option.some.inj h).symm⟩
    · rintro ⟨b, bs', hb, hbs, rfl⟩
      exact Option.bind_eq_some_iff.mpr ⟨b, hb,
        Option.bind_eq_some_iff.mpr ⟨bs', ih.mpr hbs, rfl⟩⟩

end PgSynapse
