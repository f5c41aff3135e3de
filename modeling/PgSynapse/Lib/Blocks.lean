import Mathlib.Data.List.TakeWhile
import PgSynapse.Lib.Matched

/-!
# Logs made of blocks, and groups within a log

A log that grows by whole blocks, one for each item of a second list, is described by `Blocked`.
`AtEvery` is a property of every entry of a log together with what came before it; `GroupedBy` a
property of every entry together with the group that directly follows it.
-/

namespace PgSynapse

variable {α β ε : Type}

/-! ### Blocks -/

/-- `ms` is a seed that meets `S`, followed by one block for each item of `xs`, in order, the block
of `x` meeting `B x`. -/
def Blocked (S : List β → Prop) (B : α → List β → Prop) (xs : List α) (ms : List β) : Prop :=
  ∃ seed blocks, ms = seed ++ List.flatten blocks ∧ S seed ∧ List.Forall₂ B xs blocks

namespace Blocked

variable {S : List β → Prop} {B : α → List β → Prop} {xs : List α} {ms : List β}

theorem of_seed (h : S ms) : Blocked S B [] ms :=
  ⟨ms, [], by simp, h, .nil⟩

/-- One more item, one more block. -/
theorem snoc (h : Blocked S B xs ms) {x : α} {block : List β} (hb : B x block) :
    Blocked S B (xs ++ [x]) (ms ++ block) := by
  obtain ⟨seed, blocks, rfl, hs, hf⟩ := h
  refine ⟨seed, blocks ++ [block], ?_, hs, ?_⟩
  · simp
  · exact List.rel_append hf (.cons hb .nil)

end Blocked

/-- Where an element of joined blocks stands: in one of the blocks. -/
theorem split_of_flatMap {f : α → List β} {xs : List α} {before after : List β} {y : β}
    (heq : xs.flatMap f = before ++ y :: after) :
    ∃ pre x post d e, xs = pre ++ x :: post ∧ f x = d ++ y :: e ∧ before = pre.flatMap f ++ d ∧
      after = e ++ post.flatMap f := by
  induction xs generalizing before with
  | nil => simp at heq
  | cons x xs ih =>
    rw [List.flatMap_cons] at heq
    have later : ∀ rest, before = f x ++ rest → xs.flatMap f = rest ++ y :: after →
        ∃ pre x' post d e, x :: xs = pre ++ x' :: post ∧ f x' = d ++ y :: e ∧
          before = pre.flatMap f ++ d ∧ after = e ++ post.flatMap f := by
      intro rest hbefore hrest
      obtain ⟨pre, x', post, d, e, rfl, hblock, rfl, hafter⟩ := ih hrest
      exact ⟨x :: pre, x', post, d, e, rfl, hblock, by simp [hbefore], hafter⟩
    rcases List.append_eq_append_iff.mp heq with ⟨rest, hbefore, hrest⟩ | ⟨l, hblock, hl⟩
    · exact later rest hbefore hrest
    · cases l with
      | nil => exact later [] (by simpa using hblock.symm) (by simpa using hl.symm)
      | cons z l =>
        obtain ⟨rfl, hafter⟩ := List.cons.inj hl
        exact ⟨[], x, xs, before, l, rfl, hblock, rfl, hafter⟩

/-! ### Every entry with its past -/

/-- `P` holds of every entry of the log and the entries before it. -/
def AtEvery (P : List ε → ε → Prop) (log : List ε) : Prop :=
  ∀ pre e post, log = pre ++ e :: post → P pre e

namespace AtEvery

variable {P : List ε → ε → Prop} {log : List ε}

theorem nil : AtEvery P [] := by
  intro pre e post h
  simp at h

theorem concat (h : AtEvery P log) {e : ε} (he : P log e) : AtEvery P (log ++ [e]) := by
  intro pre x post hx
  -- either the entry is the new one, or it is in the old log
  rcases List.eq_nil_or_concat post with rfl | ⟨post', y, rfl⟩
  · obtain ⟨rfl, hex⟩ := List.append_inj' hx rfl
    obtain rfl := List.head_eq_of_cons_eq hex
    exact he
  · rw [List.concat_eq_append] at hx
    have hx' : log ++ [e] = (pre ++ x :: post') ++ [y] := by rw [hx]; simp
    exact h pre x post' (List.append_inj' hx' rfl).1

/-- The first entry, and the others with one more entry before them. -/
theorem cons_iff {e : ε} :
    AtEvery P (e :: log) ↔ P [] e ∧ AtEvery (fun pre => P (e :: pre)) log := by
  constructor
  · intro h
    refine ⟨h [] e log rfl, fun pre x post heq => ?_⟩
    exact h (e :: pre) x post (by rw [heq, List.cons_append])
  · rintro ⟨hfirst, hrest⟩ pre x post heq
    cases pre with
    | nil =>
      obtain ⟨rfl, -⟩ := List.cons.inj heq
      exact hfirst
    | cons y pre =>
      obtain ⟨rfl, hlog⟩ := List.cons.inj heq
      exact hrest pre x post hlog

theorem of_append {more : List ε} (h : AtEvery P (log ++ more)) : AtEvery P log := by
  intro pre e post heq
  exact h pre e (post ++ more) (by rw [heq, List.append_assoc, List.cons_append])

/-- What came before an entry is a log of the same kind. -/
theorem before (h : AtEvery P log) : AtEvery (fun pre e => P pre e ∧ AtEvery P pre) log := by
  rintro pre e post rfl
  exact ⟨h pre e post rfl, h.of_append⟩

theorem exists_of_mem (h : AtEvery P log) {e : ε} (he : e ∈ log) : ∃ pre, P pre e := by
  obtain ⟨pre, post, heq⟩ := List.append_of_mem he
  exact ⟨pre, h pre e post heq⟩

theorem imp {Q : List ε → ε → Prop} (h : AtEvery P log) (hPQ : ∀ pre e, P pre e → Q pre e) :
    AtEvery Q log :=
  fun pre e post heq => hPQ pre e (h pre e post heq)

/-- Entries of which `P` holds whatever came before them may be added freely. -/
theorem append (h : AtEvery P log) {more : List ε} (hm : ∀ e ∈ more, ∀ pre, P pre e) :
    AtEvery P (log ++ more) := by
  induction more generalizing log with
  | nil => simpa using h
  | cons e more ih =>
    have hstep := ih (h.concat (hm e List.mem_cons_self log))
      (fun x hx => hm x (List.mem_cons_of_mem e hx))
    simpa using hstep

end AtEvery

/-! ### Every entry with the group after it -/

/-- `ok` holds of every entry of the list and the maximal run of `p`-entries directly after it. -/
def GroupedBy (p : β → Bool) (ok : β → List β → Prop) : List β → Prop
  | [] => True
  | m :: rest => ok m (rest.takeWhile p) ∧ GroupedBy p ok rest

section GroupedBy

variable {p : β → Bool} {ok : β → List β → Prop}

theorem groupedBy_cons {m : β} {rest : List β} :
    GroupedBy p ok (m :: rest) ↔ ok m (rest.takeWhile p) ∧ GroupedBy p ok rest :=
  Iff.rfl

theorem takeWhile_append_of_head {xs ys : List β} (hys : ∀ y ∈ ys.head?, p y = false) :
    (xs ++ ys).takeWhile p = xs.takeWhile p := by
  induction xs with
  | nil =>
    cases ys with
    | nil => rfl
    | cons y ys => simp [hys y (by simp)]
  | cons x xs ih =>
    by_cases hx : p x
    · simp [hx, ih]
    · simp [hx]

/-- A list that does not begin with a `p`-entry adds nothing to the groups before it. -/
theorem groupedBy_append {xs ys : List β} (hys : ∀ y ∈ ys.head?, p y = false) :
    GroupedBy p ok (xs ++ ys) ↔ GroupedBy p ok xs ∧ GroupedBy p ok ys := by
  induction xs with
  | nil => simp [GroupedBy]
  | cons x xs ih =>
    rw [List.cons_append, groupedBy_cons, groupedBy_cons, takeWhile_append_of_head hys, ih,
      and_assoc]

theorem groupedBy_map {γ : Type} (f : γ → β) (xs : List γ) :
    GroupedBy p ok (xs.map f) ↔
      GroupedBy (fun x => p (f x)) (fun x group => ok (f x) (group.map f)) xs := by
  induction xs with
  | nil => simp [GroupedBy]
  | cons x xs ih =>
    rw [List.map_cons, groupedBy_cons, groupedBy_cons, ih, List.takeWhile_map]
    rfl

/-- Entries that ask nothing of the group after them. -/
theorem groupedBy_of_forall {xs : List β} (h : ∀ x ∈ xs, ∀ group, ok x group) :
    GroupedBy p ok xs := by
  induction xs with
  | nil => trivial
  | cons x xs ih =>
    exact ⟨h x List.mem_cons_self _, ih fun y hy => h y (List.mem_cons_of_mem x hy)⟩

section Blocks

variable {S : List β → Prop} {B : α → List β → Prop} {C : α → Prop} {xs : List α}

/-- Groups do not cross block borders when no block begins with a `p`-entry. -/
theorem groupedBy_flatten {blocks : List (List β)} (hf : List.Forall₂ B xs blocks)
    (hne : ∀ x b, B x b → ∃ y ys, b = y :: ys ∧ p y = false)
    (hB : ∀ x b, B x b → (GroupedBy p ok b ↔ C x)) :
    (∀ y ∈ blocks.flatten.head?, p y = false) ∧
      (GroupedBy p ok blocks.flatten ↔ ∀ x ∈ xs, C x) := by
  induction hf with
  | nil => simp [GroupedBy]
  | cons hxb _ ih =>
    obtain ⟨hhead, hiff⟩ := ih
    rw [List.flatten_cons, groupedBy_append hhead, hiff, hB _ _ hxb, List.forall_mem_cons]
    obtain ⟨y, ys, rfl, hy⟩ := hne _ _ hxb
    exact ⟨by simpa using hy, Iff.rfl⟩

/-- **A log of blocks**: its groups are right exactly when `C` holds of every item, if that is so
for each item's block taken alone and no block begins with a `p`-entry. -/
theorem Blocked.groupedBy_iff {ms : List β} (h : Blocked S B xs ms)
    (hS : ∀ seed, S seed → GroupedBy p ok seed)
    (hne : ∀ x b, B x b → ∃ y ys, b = y :: ys ∧ p y = false)
    (hB : ∀ x b, B x b → (GroupedBy p ok b ↔ C x)) :
    GroupedBy p ok ms ↔ ∀ x ∈ xs, C x := by
  obtain ⟨seed, blocks, rfl, hs, hf⟩ := h
  obtain ⟨hhead, hiff⟩ := groupedBy_flatten hf hne hB
  rw [groupedBy_append hhead, hiff]
  exact and_iff_right (hS seed hs)

end Blocks

end GroupedBy

end PgSynapse
