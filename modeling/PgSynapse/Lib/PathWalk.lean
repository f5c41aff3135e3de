import Mathlib.Data.List.Basic
import Mathlib.Data.List.Infix
import Mathlib.Logic.Function.Basic

/-!
# File trees and path resolution

A file tree gives the node at each location, a location being the names from the root down to it, with
no symbolic link on the way.  `Tree.walk` resolves a path the way a kernel does: name by name,
following at most a given number of links, also in the last place.

`walk_append` splits a walk in two, `walk_ends` says what one ends at, and `walk_reaches` carries one
over to a tree that keeps what the first one holds, up to the contents of its files.
-/

namespace PgSynapse

/-- A component of a path. -/
inductive Comp (N : Type) where
  | self
  | parent
  | name (n : N)
  deriving DecidableEq, Repr

/-- What a location holds.  The target of a link is a path, from the root or from the directory the
link stands in. -/
inductive Node (N C : Type) where
  | file (content : C)
  | dir
  | symlink (absolute : Bool) (target : List (Comp N))
  deriving DecidableEq, Repr

/-- A node without its content. -/
def Node.shape {N C : Type} : Node N C → Node N Unit
  | .file _ => .file ()
  | .dir => .dir
  | .symlink absolute target => .symlink absolute target

/-- A file tree: the nodes, and the names in each directory in some order. -/
structure Tree (N C : Type) where
  node : List N → Option (Node N C)
  names : List N → List N
  node_nil : node [] = some .dir
  node_parent : ∀ p n, node (p ++ [n]) ≠ none → node p = some .dir
  mem_names : ∀ p n, n ∈ names p ↔ node (p ++ [n]) ≠ none

/-- Why a path does not resolve, or an operation on it fails. -/
inductive Errno where
  | noent
  | notdir
  | loop
  | isdir
  | exist
  deriving DecidableEq, Repr

/-- The end of a walk: a file or directory, with the number of links that may still be followed; the
place of a missing last name in a directory; or neither. -/
inductive Walk (N : Type) where
  | found (loc : List N) (links : Nat)
  | missing (dir : List N) (n : N)
  | failed (e : Errno)
  deriving DecidableEq, Repr

namespace Tree

variable {N C : Type} {t t' : Tree N C}

/-! ### Locations -/

/-- The locations above one that holds something are directories. -/
theorem node_append (t : Tree N C) {p q : List N} (hq : q ≠ []) (h : t.node (p ++ q) ≠ none) :
    t.node p = some .dir := by
  induction q using List.reverseRecOn with
  | nil => exact absurd rfl hq
  | append_singleton q n ih =>
    rw [← List.append_assoc] at h
    have hdir := t.node_parent _ _ h
    cases q with
    | nil => simpa using hdir
    | cons m q => exact ih (by simp) (by simp [hdir])

/-- `p` holds a directory. -/
def isDirAt (t : Tree N C) (p : List N) : Bool :=
  match t.node p with
  | some .dir => true
  | _ => false

theorem isDirAt_iff {p : List N} : t.isDirAt p = true ↔ t.node p = some .dir := by
  unfold isDirAt
  split <;> simp_all

/-- Whatever the first tree holds, the second holds too. -/
def Le (t t' : Tree N C) : Prop := ∀ p x, t.node p = some x → t'.node p = some x

theorem Le.refl (t : Tree N C) : t.Le t := fun _ _ h => h

theorem Le.trans {t'' : Tree N C} (h : t.Le t') (h' : t'.Le t'') : t.Le t'' :=
  fun p x hx => h' p x (h p x hx)

/-- Whatever the first tree holds, the second holds too, up to the contents of files. -/
def Within (t t' : Tree N C) : Prop :=
  ∀ p x, t.node p = some x → ∃ y, t'.node p = some y ∧ y.shape = x.shape

theorem Le.within (h : t.Le t') : t.Within t' := fun p x hx => ⟨x, h p x hx, rfl⟩

theorem Within.refl (t : Tree N C) : t.Within t := (Le.refl t).within

theorem Within.trans {t'' : Tree N C} (h : t.Within t') (h' : t'.Within t'') : t.Within t'' := by
  intro p x hx
  obtain ⟨y, hy, hxy⟩ := h p x hx
  obtain ⟨z, hz, hyz⟩ := h' p y hy
  exact ⟨z, hz, hyz.trans hxy⟩

theorem Within.dir (h : t.Within t') {p : List N} (hp : t.node p = some .dir) :
    t'.node p = some .dir := by
  obtain ⟨y, hy, hshape⟩ := h p _ hp
  cases y with
  | dir => exact hy
  | _ => cases hshape

theorem Within.symlink (h : t.Within t') {p : List N} {a : Bool} {target : List (Comp N)}
    (hp : t.node p = some (.symlink a target)) : t'.node p = some (.symlink a target) := by
  obtain ⟨y, hy, hshape⟩ := h p _ hp
  cases y with
  | symlink a' target' =>
    cases hshape
    exact hy
  | _ => cases hshape

theorem Within.file (h : t.Within t') {p : List N} {c : C} (hp : t.node p = some (.file c)) :
    ∃ c', t'.node p = some (.file c') := by
  obtain ⟨y, hy, hshape⟩ := h p _ hp
  cases y with
  | file c' => exact ⟨c', hy⟩
  | _ => cases hshape

/-! ### Adding a node -/

/-- The tree of an empty root directory. -/
def bare : Tree N C where
  node
    | [] => some .dir
    | _ :: _ => none
  names _ := []
  node_nil := rfl
  node_parent p n h := by cases p <;> exact absurd rfl h
  mem_names p n := by cases p <;> simp

section Add

variable [DecidableEq N]

/-- The tree with a new node in the directory `d`; the same tree where there is no such directory, or
it has the name already. -/
def add (t : Tree N C) (d : List N) (n : N) (x : Node N C) : Tree N C :=
  if h : t.isDirAt d = true ∧ (t.node (d ++ [n])).isNone = true then
    { node := Function.update t.node (d ++ [n]) (some x)
      names := Function.update t.names d (t.names d ++ [n])
      node_nil := by
        rw [Function.update_of_ne (by simp), t.node_nil]
      node_parent := by
        intro p m hm
        have hp : p ≠ d ++ [n] := by
          rintro rfl
          rw [Function.update_of_ne (by simp)] at hm
          exact absurd (t.node_parent _ _ hm) (by simp [Option.isNone_iff_eq_none.mp h.2])
        rw [Function.update_of_ne hp]
        by_cases hpm : p ++ [m] = d ++ [n]
        · -- the new node itself: its parent is `d`
          obtain ⟨rfl, -⟩ := List.append_inj' hpm rfl
          exact isDirAt_iff.mp h.1
        · rw [Function.update_of_ne hpm] at hm
          exact t.node_parent p m hm
      mem_names := by
        intro p m
        by_cases hp : p = d
        · subst hp
          by_cases hm : m = n
          · subst hm
            simp
          · have hne : p ++ [m] ≠ p ++ [n] := by simpa using hm
            rw [Function.update_self, Function.update_of_ne hne]
            simp [hm, t.mem_names]
        · have hne : p ++ [m] ≠ d ++ [n] := fun he => hp (List.append_inj' he rfl).1
          rw [Function.update_of_ne hp, Function.update_of_ne hne]
          exact t.mem_names p m }
  else t

variable {d : List N} {n : N} {x : Node N C}

theorem node_add (hd : t.node d = some .dir) (hn : t.node (d ++ [n]) = none) :
    (t.add d n x).node = Function.update t.node (d ++ [n]) (some x) := by
  rw [add, dif_pos ⟨isDirAt_iff.mpr hd, Option.isNone_iff_eq_none.mpr hn⟩]

theorem le_add (t : Tree N C) : t.Le (t.add d n x) := by
  intro p y hy
  by_cases h : t.isDirAt d = true ∧ (t.node (d ++ [n])).isNone = true
  · have hn := Option.isNone_iff_eq_none.mp h.2
    rw [node_add (isDirAt_iff.mp h.1) hn, Function.update_of_ne]
    · exact hy
    · rintro rfl
      rw [hn] at hy
      cases hy
  · rwa [add, dif_neg h]

end Add

/-- The tree with another content in the file at `p`; the same tree where there is no file. -/
def setContent [DecidableEq N] (t : Tree N C) (p : List N) (c : C) : Tree N C :=
  match h : t.node p with
  | some (.file c₀) =>
    { node := Function.update t.node p (some (.file c))
      names := t.names
      node_nil := by
        rw [Function.update_of_ne, t.node_nil]
        rintro rfl
        rw [t.node_nil] at h
        cases h
      node_parent := by
        intro q n hn
        have hq : t.node q = some .dir := by
          by_cases hqn : q ++ [n] = p
          · subst hqn
            exact t.node_parent q n (by simp [h])
          · rw [Function.update_of_ne hqn] at hn
            exact t.node_parent q n hn
        rw [Function.update_of_ne, hq]
        rintro rfl
        rw [h] at hq
        cases hq
      mem_names := by
        intro q n
        by_cases hqn : q ++ [n] = p
        · subst hqn
          simp [t.mem_names, h]
        · rw [Function.update_of_ne hqn]
          exact t.mem_names q n }
  | _ => t

theorem node_setContent [DecidableEq N] {p : List N} {c₀ : C} (h : t.node p = some (.file c₀))
    (c : C) : (t.setContent p c).node = Function.update t.node p (some (.file c)) := by
  unfold setContent
  split
  · rfl
  · rename_i hother
    exact absurd h (hother c₀)

theorem within_setContent [DecidableEq N] {p : List N} {c₀ : C} (h : t.node p = some (.file c₀))
    (c : C) : t.Within (t.setContent p c) := by
  intro q x hx
  rw [node_setContent h]
  by_cases hq : q = p
  · subst hq
    rw [h] at hx
    obtain rfl := Option.some.inj hx
    exact ⟨.file c, Function.update_self q (some (.file c)) t.node, rfl⟩
  · exact ⟨x, by rw [Function.update_of_ne hq, hx], rfl⟩

/-! ### Walks -/

/-- Resolve the components of a path from the location `cur` on; `jump` goes on behind a link. -/
def walkComps (t : Tree N C) (links : Nat) (jump : List N → List (Comp N) → Walk N) :
    List N → List (Comp N) → Walk N
  | cur, [] => .found cur links
  | cur, c :: rest =>
    if t.isDirAt cur then
      match c with
      | .self => t.walkComps links jump cur rest
      | .parent => t.walkComps links jump cur.dropLast rest
      | .name n =>
        match t.node (cur ++ [n]) with
        | none => if rest.isEmpty then .missing cur n else .failed .noent
        | some (.symlink absolute target) =>
          -- the target takes the place of the link, and the rest of the path follows it
          jump (if absolute then [] else cur) (target ++ rest)
        | some _ => t.walkComps links jump (cur ++ [n]) rest
    else .failed .notdir

/-- Resolve the components of a path from the location `cur` on, through at most `links` links. -/
def walk (t : Tree N C) : Nat → List N → List (Comp N) → Walk N
  | 0 => t.walkComps 0 fun _ _ => .failed .loop
  | links + 1 => t.walkComps (links + 1) (t.walk links)

/-- Go on from the end of a walk. -/
def andThen (t : Tree N C) (w : Walk N) (rest : List (Comp N)) : Walk N :=
  match w with
  | .found p links => t.walk links p rest
  | .missing d n => if rest.isEmpty then .missing d n else .failed .noent
  | .failed e => .failed e

theorem walk_nil (links : Nat) (cur : List N) : t.walk links cur [] = .found cur links := by
  cases links <;> rfl

/-- One step of a walk, whatever the number of links left. -/
theorem walk_cons (links : Nat) (cur : List N) (c : Comp N) (rest : List (Comp N)) :
    t.walk links cur (c :: rest) =
      if t.isDirAt cur then
        match c with
        | .self => t.walk links cur rest
        | .parent => t.walk links cur.dropLast rest
        | .name n =>
          match t.node (cur ++ [n]) with
          | none => if rest.isEmpty then .missing cur n else .failed .noent
          | some (.symlink absolute target) =>
            match links with
            | 0 => .failed .loop
            | links + 1 => t.walk links (if absolute then [] else cur) (target ++ rest)
          | some _ => t.walk links (cur ++ [n]) rest
      else .failed .notdir := by
  cases links <;> rfl

theorem walkComps_append {links : Nat} {jump : List N → List (Comp N) → Walk N} (b : List (Comp N))
    (hnil : ∀ cur, t.walkComps links jump cur b = t.walk links cur b)
    (hjump : ∀ cur cs, jump cur (cs ++ b) = t.andThen (jump cur cs) b) (cur : List N)
    (a : List (Comp N)) :
    t.walkComps links jump cur (a ++ b) = t.andThen (t.walkComps links jump cur a) b := by
  induction a generalizing cur with
  | nil => exact hnil cur
  | cons c a ih =>
    rw [List.cons_append]
    unfold walkComps
    split
    · cases c with
      | self => exact ih cur
      | parent => exact ih cur.dropLast
      | name n =>
        dsimp only
        split
        · -- a missing name: the walk fails unless it was the last one of both parts
          cases a <;> cases b <;> rfl
        · rw [← List.append_assoc]
          exact hjump _ _
        · exact ih (cur ++ [n])
    · rfl

/-- **A walk in two parts**. -/
theorem walk_append (links : Nat) (cur : List N) (a b : List (Comp N)) :
    t.walk links cur (a ++ b) = t.andThen (t.walk links cur a) b := by
  induction links generalizing cur a with
  | zero => exact walkComps_append b (fun _ => rfl) (fun _ _ => rfl) cur a
  | succ links ih => exact walkComps_append b (fun _ => rfl) ih cur a

/-- What a walk ends at: an existing file or directory, or a free name in a directory. -/
def Ends (t : Tree N C) : Walk N → Prop
  | .found p _ => t.node p = some .dir ∨ ∃ c, t.node p = some (.file c)
  | .missing d n => t.node d = some .dir ∧ t.node (d ++ [n]) = none
  | .failed _ => True

theorem walkComps_ends {links : Nat} {jump : List N → List (Comp N) → Walk N}
    (hjump : ∀ cur cs, t.node cur = some .dir → t.Ends (jump cur cs)) (cur : List N)
    (cs : List (Comp N)) (hcur : t.node cur = some .dir ∨ ∃ c, t.node cur = some (.file c)) :
    t.Ends (t.walkComps links jump cur cs) := by
  induction cs generalizing cur with
  | nil => exact hcur
  | cons c rest ih =>
    unfold walkComps
    split
    · rename_i hdir
      rw [isDirAt_iff] at hdir
      cases c with
      | self => exact ih cur hcur
      | parent =>
        refine ih cur.dropLast (.inl ?_)
        -- `..` at the root stays there
        rcases List.eq_nil_or_concat cur with rfl | ⟨p, n, rfl⟩
        · exact t.node_nil
        · rw [List.concat_eq_append, List.dropLast_concat]
          rw [List.concat_eq_append] at hdir
          exact t.node_parent p n (by simp [hdir])
      | name n =>
        dsimp only
        split
        · rename_i hnone
          split
          · exact ⟨hdir, hnone⟩
          · trivial
        · refine hjump _ _ ?_
          split
          · exact t.node_nil
          · exact hdir
        · rename_i x hx hnode
          refine ih (cur ++ [n]) ?_
          cases x with
          | file c => exact .inr ⟨c, hnode⟩
          | dir => exact .inl hnode
          | symlink a s => exact absurd rfl (hx a s)
    · trivial

/-- **The end of a walk** from a directory. -/
theorem walk_ends (links : Nat) (cur : List N) (cs : List (Comp N))
    (hcur : t.node cur = some .dir) : t.Ends (t.walk links cur cs) := by
  induction links generalizing cur cs with
  | zero => exact walkComps_ends (fun _ _ _ => by trivial) cur cs (.inl hcur)
  | succ links ih => exact walkComps_ends (fun cur cs h => ih cur cs h) cur cs (.inl hcur)

/-- How a walk in a tree goes on in a tree that holds more: to the same place, or to the file that is
now under the missing name. -/
def Reaches (t' : Tree N C) : Walk N → Walk N → Prop
  | .found p left, w' => w' = .found p left
  | .missing d n, w' =>
    (∃ c, t'.node (d ++ [n]) = some (.file c)) → ∃ left, w' = .found (d ++ [n]) left
  | .failed _, _ => True

theorem walkComps_reaches (hle : t.Within t') {links : Nat}
    {jump jump' : List N → List (Comp N) → Walk N}
    (hjump : ∀ cur cs, t'.Reaches (jump cur cs) (jump' cur cs)) (cur : List N)
    (cs : List (Comp N)) :
    t'.Reaches (t.walkComps links jump cur cs) (t'.walkComps links jump' cur cs) := by
  induction cs generalizing cur with
  | nil => rfl
  | cons c rest ih =>
    unfold walkComps
    by_cases hcur : t.isDirAt cur = true
    · rw [if_pos hcur, if_pos (isDirAt_iff.mpr (hle.dir (isDirAt_iff.mp hcur)))]
      cases c with
      | self => exact ih cur
      | parent => exact ih cur.dropLast
      | name n =>
        dsimp only
        cases hnode : t.node (cur ++ [n]) with
        | none =>
          dsimp only
          split_ifs with hrest
          · -- the name that is missing in the first tree
            rintro ⟨c, hc⟩
            rw [hc, List.isEmpty_iff.mp hrest]
            exact ⟨links, rfl⟩
          · trivial
        | some x =>
          cases x with
          | symlink a target =>
            rw [hle.symlink hnode]
            exact hjump _ _
          | dir =>
            rw [hle.dir hnode]
            exact ih (cur ++ [n])
          | file c =>
            obtain ⟨c', hc'⟩ := hle.file hnode
            rw [hc']
            exact ih (cur ++ [n])
    · rw [if_neg hcur]
      trivial

/-- **A walk** in a tree that holds more. -/
theorem walk_reaches (hle : t.Within t') (links : Nat) (cur : List N) (cs : List (Comp N)) :
    t'.Reaches (t.walk links cur cs) (t'.walk links cur cs) := by
  induction links generalizing cur cs with
  | zero =>
    apply walkComps_reaches hle _ cur cs
    intro cur cs
    trivial
  | succ links ih => exact walkComps_reaches hle ih cur cs

/-- **A larger tree** resolves a path that resolves to the same place. -/
theorem walk_mono (hle : t.Le t') (links : Nat) (cur : List N) (cs : List (Comp N))
    {p : List N} {left : Nat} (h : t.walk links cur cs = .found p left) :
    t'.walk links cur cs = .found p left := by
  have hreaches := walk_reaches hle.within links cur cs
  rw [h] at hreaches
  exact hreaches

end Tree

end PgSynapse
