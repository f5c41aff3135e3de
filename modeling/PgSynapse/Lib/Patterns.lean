import Mathlib.Data.List.Forall2
import Mathlib.Data.List.Infix

/-!
# Patterns

A pattern is a sequence of classes of characters, each for one character or for any number of them.
`search` finds what it matches in a text: at the leftmost place where it matches at all, the longest
match there (`search_eq_some_iff`).
-/

namespace PgSynapse

/-- A class of characters, for one of them or, starred, for any number of them. -/
structure Piece (α : Type) where
  accepts : α → Bool
  starred : Bool

namespace Piece

variable {α : Type}

/-- One character of a class. -/
def one (accepts : α → Bool) : Piece α := ⟨accepts, false⟩

/-- Any number of characters of a class. -/
def star (accepts : α → Bool) : Piece α := ⟨accepts, true⟩

end Piece

namespace Pattern

variable {α : Type}

/-- A pattern matches all of a text. -/
inductive Matches : List (Piece α) → List α → Prop
  | nil : Matches [] []
  | one {p : Piece α} {ps : List (Piece α)} {c : α} {s : List α} (hp : p.starred = false)
    (hc : p.accepts c = true) (h : Matches ps s) : Matches (p :: ps) (c :: s)
  | skip {p : Piece α} {ps : List (Piece α)} {s : List α} (hp : p.starred = true)
    (h : Matches ps s) : Matches (p :: ps) s
  | more {p : Piece α} {ps : List (Piece α)} {c : α} {s : List α} (hp : p.starred = true)
    (hc : p.accepts c = true) (h : Matches (p :: ps) s) : Matches (p :: ps) (c :: s)

/-- The longer of two matches. -/
def longer (a b : Option (List α)) : Option (List α) :=
  match a, b with
  | none, b => b
  | some x, none => some x
  | some x, some y => if y.length ≤ x.length then some x else some y

/-- The longest match at the start of a text, of a starred class and what comes after it. -/
def longestStar (accepts : α → Bool) (rest : List α → Option (List α)) :
    List α → Option (List α)
  | [] => rest []
  | c :: s =>
    if accepts c then longer ((longestStar accepts rest s).map (c :: ·)) (rest (c :: s))
    else rest (c :: s)

/-- The longest match at the start of a text. -/
def longest : List (Piece α) → List α → Option (List α)
  | [], _ => some []
  | p :: ps, s =>
    if p.starred then longestStar p.accepts (longest ps) s
    else match s with
      | [] => none
      | c :: s => if p.accepts c then (longest ps s).map (c :: ·) else none

/-- The first match in a text. -/
def search (ps : List (Piece α)) : List α → Option (List α)
  | [] => longest ps []
  | c :: s => (longest ps (c :: s)).or (search ps s)

/-! ### What a pattern matches -/

theorem matches_append {ps qs : List (Piece α)} {s : List α} :
    Matches (ps ++ qs) s ↔ ∃ a b, s = a ++ b ∧ Matches ps a ∧ Matches qs b := by
  constructor
  -- on the match of the whole: it is in the first part as long as that has pieces
  · generalize hrs : ps ++ qs = rs
    intro h
    induction h generalizing ps with
    | nil =>
      obtain ⟨rfl, rfl⟩ := List.append_eq_nil_iff.mp hrs
      exact ⟨[], [], rfl, .nil, .nil⟩
    | @one p rs c s hp hc h ih =>
      cases ps with
      | nil =>
        obtain rfl : qs = p :: rs := hrs
        exact ⟨[], _, rfl, .nil, .one hp hc h⟩
      | cons q ps =>
        obtain ⟨rfl, htail⟩ := List.cons.inj hrs
        obtain ⟨a, b, rfl, ha, hb⟩ := ih htail
        exact ⟨c :: a, b, rfl, .one hp hc ha, hb⟩
    | @skip p rs s hp h ih =>
      cases ps with
      | nil =>
        obtain rfl : qs = p :: rs := hrs
        exact ⟨[], _, rfl, .nil, .skip hp h⟩
      | cons q ps =>
        obtain ⟨rfl, htail⟩ := List.cons.inj hrs
        obtain ⟨a, b, rfl, ha, hb⟩ := ih htail
        exact ⟨a, b, rfl, .skip hp ha, hb⟩
    | @more p rs c s hp hc h ih =>
      cases ps with
      | nil =>
        obtain rfl : qs = p :: rs := hrs
        exact ⟨[], _, rfl, .nil, .more hp hc h⟩
      | cons q ps =>
        obtain ⟨a, b, rfl, ha, hb⟩ := ih hrs
        obtain ⟨rfl, -⟩ := List.cons.inj hrs
        exact ⟨c :: a, b, rfl, .more hp hc ha, hb⟩
  · rintro ⟨a, b, rfl, ha, hb⟩
    induction ha with
    | nil => exact hb
    | one hp hc _ ih => exact .one hp hc ih
    | skip hp _ ih => exact .skip hp ih
    | more hp hc _ ih => exact .more hp hc ih

theorem matches_star_iff {accepts : α → Bool} {s : List α} :
    Matches [.star accepts] s ↔ ∀ c ∈ s, accepts c = true := by
  constructor
  · generalize hps : [Piece.star accepts] = ps
    intro h
    induction h with
    | nil => cases hps
    | one hp =>
      obtain ⟨rfl, -⟩ := List.cons.inj hps
      cases hp
    | skip _ h =>
      obtain ⟨-, rfl⟩ := List.cons.inj hps
      cases h
      exact fun c hc => absurd hc List.not_mem_nil
    | more _ hc _ ih =>
      have hrest := ih hps
      obtain ⟨rfl, -⟩ := List.cons.inj hps
      exact List.forall_mem_cons.mpr ⟨hc, hrest⟩
  · intro h
    induction s with
    | nil => exact .skip rfl .nil
    | cons c s ih =>
      rw [List.forall_mem_cons] at h
      exact .more rfl h.1 (ih h.2)

/-- A word, letter by letter. -/
def word (accepts : α → α → Bool) (w : List α) : List (Piece α) :=
  w.map fun x => .one (accepts x)

theorem matches_word_iff {accepts : α → α → Bool} {w s : List α} :
    Matches (word accepts w) s ↔ List.Forall₂ (fun x c => accepts x c = true) w s := by
  induction w generalizing s with
  | nil =>
    constructor
    · intro h
      cases h
      exact .nil
    · intro h
      cases h
      exact .nil
  | cons x w ih =>
    constructor
    · intro h
      cases h with
      | one _ hc h => exact .cons hc (ih.mp h)
      | skip hp => cases hp
      | more hp => cases hp
    · intro h
      cases h with
      | cons hc h => exact .one rfl hc (ih.mpr h)

/-! ### The longest match at the start -/

/-- What is found at the start of a text: a match there, and the longest. -/
structure Longest (ps : List (Piece α)) (s : List α) (found : Option (List α)) : Prop where
  sound : ∀ m, found = some m → m <+: s ∧ Matches ps m
  longest : ∀ m, m <+: s → Matches ps m → ∃ m', found = some m' ∧ m.length ≤ m'.length

variable {p : Piece α} {ps : List (Piece α)} {c : α} {s m : List α} {a b : Option (List α)}

theorem longer_eq (a b : Option (List α)) : longer a b = a ∨ longer a b = b := by
  unfold longer
  split
  · exact .inr rfl
  · exact .inl rfl
  · split
    · exact .inl rfl
    · exact .inr rfl

theorem le_longer_left {x : List α} (h : a = some x) :
    ∃ m, longer a b = some m ∧ x.length ≤ m.length := by
  subst h
  cases b with
  | none => exact ⟨x, rfl, Nat.le_refl _⟩
  | some y =>
    show ∃ m, (if y.length ≤ x.length then some x else some y) = some m ∧ _
    split
    · exact ⟨x, rfl, Nat.le_refl _⟩
    · exact ⟨y, rfl, by omega⟩

theorem le_longer_right {y : List α} (h : b = some y) :
    ∃ m, longer a b = some m ∧ y.length ≤ m.length := by
  subst h
  cases a with
  | none => exact ⟨y, rfl, Nat.le_refl _⟩
  | some x =>
    show ∃ m, (if y.length ≤ x.length then some x else some y) = some m ∧ _
    split
    · exact ⟨x, rfl, by assumption⟩
    · exact ⟨y, rfl, Nat.le_refl _⟩

/-- A match of a class and what comes after it begins with a character of the class. -/
theorem matches_one (hp : p.starred = false) (h : Matches (p :: ps) m) :
    ∃ c t, m = c :: t ∧ p.accepts c = true ∧ Matches ps t := by
  cases h with
  | one _ hc h => exact ⟨_, _, rfl, hc, h⟩
  | skip hstar => simp [hp] at hstar
  | more hstar => simp [hp] at hstar

/-- A match of a starred class and what comes after it begins with a character of the class, or is
one of what comes after. -/
theorem matches_star (hp : p.starred = true) (h : Matches (p :: ps) m) :
    Matches ps m ∨ ∃ c t, m = c :: t ∧ p.accepts c = true ∧ Matches (p :: ps) t := by
  cases h with
  | one hone => simp [hp] at hone
  | skip _ h => exact .inl h
  | more _ hc h => exact .inr ⟨_, _, rfl, hc, h⟩

theorem longestStar_spec (hp : p.starred = true) {rest : List α → Option (List α)}
    (hrest : ∀ s, Longest ps s (rest s)) (s : List α) :
    Longest (p :: ps) s (longestStar p.accepts rest s) := by
  induction s with
  | nil =>
    refine ⟨fun m hm => ?_, fun m hm h => ?_⟩
    · exact ((hrest []).sound m hm).imp_right (.skip hp)
    · obtain rfl := List.prefix_nil.mp hm
      rcases matches_star hp h with h | ⟨c, t, hnil, -⟩
      · exact (hrest []).longest [] hm h
      · cases hnil
  | cons c s ih =>
    unfold longestStar
    split
    · rename_i hc
      refine ⟨fun m hm => ?_, fun m hm h => ?_⟩
      · rcases longer_eq ((longestStar p.accepts rest s).map (c :: ·)) (rest (c :: s)) with
          heq | heq
        · rw [heq, Option.map_eq_some_iff] at hm
          obtain ⟨t, ht, rfl⟩ := hm
          obtain ⟨hpre, hmatch⟩ := ih.sound t ht
          exact ⟨(List.prefix_cons_inj c).mpr hpre, .more hp hc hmatch⟩
        · rw [heq] at hm
          exact ((hrest (c :: s)).sound m hm).imp_right (.skip hp)
      · rcases matches_star hp h with h | ⟨d, t, rfl, hd, h⟩
        · obtain ⟨m', hm', hle⟩ := (hrest (c :: s)).longest m hm h
          obtain ⟨m'', hm'', hle'⟩ := le_longer_right hm'
          exact ⟨m'', hm'', hle.trans hle'⟩
        · obtain ⟨rfl, hpre⟩ := List.cons_prefix_cons.mp hm
          obtain ⟨t', ht', hle⟩ := ih.longest t hpre h
          obtain ⟨m'', hm'', hle'⟩ := le_longer_left (congrArg (Option.map (d :: ·)) ht')
          refine ⟨m'', hm'', Nat.le_trans ?_ hle'⟩
          simpa using hle
    · rename_i hc
      refine ⟨fun m hm => ?_, fun m hm h => ?_⟩
      · exact ((hrest (c :: s)).sound m hm).imp_right (.skip hp)
      · rcases matches_star hp h with h | ⟨d, t, rfl, hd, h⟩
        · exact (hrest (c :: s)).longest m hm h
        · obtain ⟨rfl, -⟩ := List.cons_prefix_cons.mp hm
          exact absurd hd hc

theorem longest_spec (ps : List (Piece α)) (s : List α) : Longest ps s (longest ps s) := by
  induction ps generalizing s with
  | nil =>
    refine ⟨fun m hm => ?_, fun m hm h => ?_⟩
    · obtain rfl := Option.some.inj hm
      exact ⟨List.nil_prefix, .nil⟩
    · cases h
      exact ⟨[], rfl, Nat.le_refl _⟩
  | cons p ps ih =>
    unfold longest
    split
    · rename_i hp
      exact longestStar_spec hp ih s
    · rename_i hp
      have hone : p.starred = false := Bool.eq_false_iff.mpr hp
      cases s with
      | nil =>
        refine ⟨fun m hm => (Option.some_ne_none m hm.symm).elim, fun m hm h => ?_⟩
        obtain ⟨c, t, rfl, -⟩ := matches_one hone h
        cases List.prefix_nil.mp hm
      | cons c s =>
        refine ⟨fun m hm => ?_, fun m hm h => ?_⟩
        · obtain ⟨hc, hm⟩ := Option.ite_none_right_eq_some.mp hm
          obtain ⟨t, ht, rfl⟩ := Option.map_eq_some_iff.mp hm
          obtain ⟨hpre, hmatch⟩ := (ih s).sound t ht
          exact ⟨(List.prefix_cons_inj c).mpr hpre, .one hone hc hmatch⟩
        · obtain ⟨d, t, rfl, hd, h⟩ := matches_one hone h
          obtain ⟨rfl, hpre⟩ := List.cons_prefix_cons.mp hm
          obtain ⟨t', ht', hle⟩ := (ih s).longest t hpre h
          refine ⟨d :: t', ?_, by simpa using hle⟩
          show (if p.accepts d then (longest ps s).map (d :: ·) else none) = _
          rw [if_pos hd, ht', Option.map_some]

/-! ### The first match in a text -/

/-- **The first match**: a match in a text at the leftmost place where there is one, and the longest
there. -/
structure First (ps : List (Piece α)) (s pre m post : List α) : Prop where
  split : s = pre ++ m ++ post
  isMatch : Matches ps m
  leftmost : ∀ pre' m' post', s = pre' ++ m' ++ post' → Matches ps m' → pre.length ≤ pre'.length
  longest : ∀ m', m' <+: m ++ post → Matches ps m' → m'.length ≤ m.length

theorem search_eq_some (h : search ps s = some m) : ∃ pre post, First ps s pre m post := by
  have hfirst : ∀ s, longest ps s = some m → First ps s [] m (s.drop m.length) := by
    intro s h
    obtain ⟨⟨post, rfl⟩, hmatch⟩ := (longest_spec ps s).sound m h
    rw [List.drop_left]
    refine ⟨rfl, hmatch, fun _ _ _ _ _ => Nat.zero_le _, fun m' hm' hmatch' => ?_⟩
    obtain ⟨m'', hm'', hle⟩ := (longest_spec ps (m ++ post)).longest m' hm' hmatch'
    rw [h] at hm''
    rwa [Option.some.inj hm'']
  induction s with
  | nil => exact ⟨[], _, hfirst [] h⟩
  | cons c s ih =>
    rw [search] at h
    rcases hlong : longest ps (c :: s) with _ | m₀
    · rw [hlong, Option.none_or] at h
      obtain ⟨pre, post, hsplit, hmatch, hleft, hmax⟩ := ih h
      refine ⟨c :: pre, post, by rw [hsplit]; rfl, hmatch, fun pre' m' post' heq hm' => ?_, hmax⟩
      cases pre' with
      | nil =>
        -- a match at the start would have been found
        obtain ⟨m'', hm'', -⟩ := (longest_spec ps (c :: s)).longest m' ⟨post', heq.symm⟩ hm'
        rw [hlong] at hm''
        cases hm''
      | cons d pre' =>
        obtain ⟨-, heq⟩ := List.cons.inj heq
        simpa using hleft pre' m' post' heq hm'
    · rw [hlong, Option.some_or] at h
      exact ⟨[], _, hfirst _ (hlong.trans h)⟩

/-- Something is found exactly where there is a match. -/
theorem search_isSome_iff : (search ps s).isSome = true ↔ ∃ m, m <:+: s ∧ Matches ps m := by
  constructor
  · intro h
    obtain ⟨m, hm⟩ := Option.isSome_iff_exists.mp h
    obtain ⟨pre, post, hfirst⟩ := search_eq_some hm
    exact ⟨m, ⟨pre, post, hfirst.split.symm⟩, hfirst.isMatch⟩
  · rintro ⟨m, ⟨pre, post, rfl⟩, hmatch⟩
    induction pre with
    | nil =>
      obtain ⟨m', hm', -⟩ := (longest_spec ps (m ++ post)).longest m (List.prefix_append _ _) hmatch
      rw [List.nil_append]
      cases hs : m ++ post with
      | nil =>
        rw [hs] at hm'
        exact Option.isSome_iff_exists.mpr ⟨m', hm'⟩
      | cons c s =>
        rw [hs] at hm'
        rw [search, hm']
        rfl
    | cons c pre ih =>
      show (search ps (c :: (pre ++ m ++ post))).isSome = true
      rw [search, Option.isSome_or, ih, Bool.or_true]

/-- **The search** finds the first match. -/
theorem search_eq_some_iff : search ps s = some m ↔ ∃ pre post, First ps s pre m post := by
  refine ⟨search_eq_some, ?_⟩
  rintro ⟨pre, post, h⟩
  have hsome : (search ps s).isSome = true :=
    search_isSome_iff.mpr ⟨m, ⟨pre, post, h.split.symm⟩, h.isMatch⟩
  obtain ⟨m', hm'⟩ := Option.isSome_iff_exists.mp hsome
  obtain ⟨pre', post', h'⟩ := search_eq_some hm'
  have hlen : pre.length = pre'.length :=
    Nat.le_antisymm (h.leftmost pre' m' post' h'.split h'.isMatch)
      (h'.leftmost pre m post h.split h.isMatch)
  have heq : pre ++ (m ++ post) = pre' ++ (m' ++ post') := by
    rw [← List.append_assoc, ← List.append_assoc, ← h.split, ← h'.split]
  obtain ⟨rfl, hrest⟩ := List.append_inj heq hlen
  have hle : m'.length ≤ m.length := h.longest m' ⟨post', hrest.symm⟩ h'.isMatch
  have hle' : m.length ≤ m'.length := h'.longest m ⟨post, hrest⟩ h.isMatch
  rw [hm', (List.append_inj hrest (Nat.le_antisymm hle' hle)).1]

/-! ### Blocks -/

section Block

variable [DecidableEq α]

/-- Everything from an opening to a closing mark. -/
def block (a b : α) : List (Piece α) :=
  [.one (· = a), .star fun _ => true, .one (· = b)]

theorem matches_block_iff {a b : α} : Matches (block a b) m ↔ ∃ mid, m = a :: mid ++ [b] := by
  have hone : ∀ x : α, ∀ s, Matches [.one (· = x)] s ↔ s = [x] := by
    intro x s
    constructor
    · intro h
      cases h with
      | one _ hc h =>
        cases h
        rw [of_decide_eq_true hc]
      | skip hp => cases hp
      | more hp => cases hp
    · rintro rfl
      exact .one rfl (decide_eq_true rfl) .nil
  have hblock : block a b = [.one (· = a)] ++ ([.star fun _ => true] ++ [.one (· = b)]) := rfl
  rw [hblock, matches_append]
  constructor
  · rintro ⟨x, y, rfl, hx, hy⟩
    obtain ⟨mid, z, rfl, -, hz⟩ := matches_append.mp hy
    rw [(hone a x).mp hx, (hone b z).mp hz]
    exact ⟨mid, rfl⟩
  · rintro ⟨mid, rfl⟩
    exact ⟨[a], mid ++ [b], rfl, (hone a _).mpr rfl,
      matches_append.mpr ⟨mid, [b], rfl, matches_star_iff.mpr fun _ _ => rfl, (hone b _).mpr rfl⟩⟩

/-- The block from the first opening mark to the last closing mark is found. -/
theorem search_block {a b : α} {pre mid post : List α} (ha : a ∉ pre) (hb : b ∉ post) :
    search (block a b) (pre ++ (a :: mid ++ [b]) ++ post) = some (a :: mid ++ [b]) := by
  refine search_eq_some_iff.mpr ⟨pre, post, rfl, matches_block_iff.mpr ⟨mid, rfl⟩, ?_, ?_⟩
  · intro pre' m' post' heq hm'
    obtain ⟨mid', rfl⟩ := matches_block_iff.mp hm'
    -- an opening mark further left would stand in what comes before the first one
    by_contra hlt
    have hleft : pre' ++ [a] <+: pre ++ (a :: mid ++ [b]) ++ post :=
      ⟨mid' ++ [b] ++ post', by rw [heq]; simp⟩
    have hpre : pre <+: pre ++ (a :: mid ++ [b]) ++ post :=
      ⟨(a :: mid ++ [b]) ++ post, by simp⟩
    have hmem : pre' ++ [a] <+: pre := by
      apply List.prefix_of_prefix_length_le hleft hpre
      rw [List.length_append, List.length_singleton]
      omega
    exact ha (hmem.subset (by simp))
  · intro m' hm' hmatch
    obtain ⟨mid', rfl⟩ := matches_block_iff.mp hmatch
    -- a longer block would end in what comes after the last closing mark
    by_contra hlt
    obtain ⟨rest, hrest⟩ := hm'
    have hright : a :: mid' <+: (a :: mid ++ [b]) ++ post :=
      ⟨[b] ++ rest, by rw [← hrest]; simp⟩
    have hlong : a :: mid ++ [b] <+: a :: mid' := by
      apply List.prefix_of_prefix_length_le (List.prefix_append _ _) hright
      simp only [List.length_append, List.length_cons, List.length_nil] at hlt ⊢
      omega
    obtain ⟨more, hmore⟩ := hlong
    have hpost : (a :: mid ++ [b]) ++ (more ++ [b] ++ rest) = (a :: mid ++ [b]) ++ post := by
      rw [← hrest, ← hmore]
      simp
    rw [← List.append_cancel_left hpost] at hb
    simp at hb

/-- **The block of a text** is what stands from the first opening to the last closing mark. -/
theorem search_block_eq_some_iff {a b : α} : search (block a b) s = some m ↔
    ∃ pre mid post, s = pre ++ (a :: mid ++ [b]) ++ post ∧ a ∉ pre ∧ b ∉ post ∧
      m = a :: mid ++ [b] := by
  constructor
  · intro h
    obtain ⟨pre, post, hfirst⟩ := search_eq_some h
    obtain ⟨mid, rfl⟩ := matches_block_iff.mp hfirst.isMatch
    refine ⟨pre, mid, post, hfirst.split, fun ha => ?_, fun hb => ?_, rfl⟩
    · obtain ⟨p, q, rfl⟩ := List.append_of_mem ha
      have hle := hfirst.leftmost p (a :: (q ++ a :: mid) ++ [b]) post (by simp [hfirst.split])
        (matches_block_iff.mpr ⟨_, rfl⟩)
      rw [List.length_append, List.length_cons] at hle
      omega
    · obtain ⟨p, q, rfl⟩ := List.append_of_mem hb
      have hle := hfirst.longest (a :: (mid ++ b :: p) ++ [b]) ⟨q, by simp⟩
        (matches_block_iff.mpr ⟨_, rfl⟩)
      simp at hle
  · rintro ⟨pre, mid, post, rfl, ha, hb, rfl⟩
    exact search_block ha hb

end Block

end Pattern

end PgSynapse
