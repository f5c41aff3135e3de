import PgSynapse.Fs.Sandbox

/-!
# Which file accesses stay inside the sandbox

`FsSandbox::resolve` checks the canonical form of the longest part of a path that exists.  A path that
resolves to a file is therefore one inside the root.  The check does not cover two cases: a link whose
target is missing, through which `write_file` and `export_csv` create a file, and the links that
`grep` meets on its way down.
-/

namespace PgSynapse

/-! ### Paths -/

/-- Dots and doubled slashes make no difference to a path that resolves. -/
theorem walk_pathNames {t : FileTree} {links : Nat} {cur : List FileName}
    {cs : List (Comp FileName)} (hparent : .parent ∉ cs)
    (hw : ∀ e, t.walk links cur cs ≠ .failed e) :
    t.walk links cur ((pathNames cs).map .name) = t.walk links cur cs := by
  induction cs generalizing links cur with
  | nil => rfl
  | cons c cs ih =>
    have hrest : .parent ∉ cs := fun h => hparent (List.mem_cons_of_mem c h)
    have happ : t.walk links cur (c :: cs) = t.andThen (t.walk links cur [c]) cs :=
      Tree.walk_append links cur [c] cs
    -- the first component is walked the same way on both sides
    have hstep : t.andThen (t.walk links cur [c]) ((pathNames cs).map .name) =
        t.andThen (t.walk links cur [c]) cs := by
      rw [happ] at hw
      cases hc : t.walk links cur [c] with
      | failed e => rfl
      | missing d n =>
        cases cs with
        | nil => rfl
        | cons c' cs => exact absurd (by rw [hc]; rfl) (hw .noent)
      | found p left =>
        rw [hc] at hw
        exact ih hrest hw
    cases c with
    | parent => exact absurd (List.mem_cons_self) hparent
    | name n =>
      rw [happ, ← hstep]
      exact Tree.walk_append links cur [.name n] _
    | self =>
      rw [happ, ← hstep, Tree.walk_cons]
      split
      · rw [Tree.walk_nil]
        rfl
      · rename_i hdir
        rw [happ, Tree.walk_cons, if_neg hdir] at hw
        exact absurd rfl (hw .notdir)

/-- A walk along a longer path goes through the shorter one. -/
theorem lookup_append (t : FileTree) (a b : List (Comp FileName)) :
    lookup t (a ++ b) = t.andThen (lookup t a) b := Tree.walk_append _ _ a b

theorem lookup_ends (t : FileTree) (path : List (Comp FileName)) : t.Ends (lookup t path) :=
  Tree.walk_ends _ _ _ t.node_nil

/-- One more name, behind a directory that has none of it. -/
theorem lookup_free {t : FileTree} {a : List (Comp FileName)} {d : List FileName} {left : Nat}
    {n : FileName} (ha : lookup t a = .found d left) (hd : t.node d = some .dir)
    (hn : t.node (d ++ [n]) = none) : lookup t (a ++ [.name n]) = .missing d n := by
  rw [lookup_append, ha, Tree.andThen, Tree.walk_cons, if_pos (Tree.isDirAt_iff.mpr hd)]
  simp [hn]

/-- One more name, behind a directory that has it as a directory. -/
theorem lookup_dir {t : FileTree} {a : List (Comp FileName)} {d : List FileName} {left : Nat}
    {n : FileName} (ha : lookup t a = .found d left) (hd : t.node d = some .dir)
    (hn : t.node (d ++ [n]) = some .dir) : lookup t (a ++ [.name n]) = .found (d ++ [n]) left := by
  rw [lookup_append, ha, Tree.andThen, Tree.walk_cons, if_pos (Tree.isDirAt_iff.mpr hd)]
  simp [hn, Tree.walk_nil]

/-- What a path with one more name resolves to is found through the shorter path. -/
theorem lookup_concat {t : FileTree} {a : List (Comp FileName)} {n : FileName}
    (h : ∀ e, lookup t (a ++ [.name n]) ≠ .failed e) :
    ∃ d left, lookup t a = .found d left ∧ t.node d = some .dir := by
  rw [lookup_append] at h
  cases ha : lookup t a with
  | failed e => exact absurd (by rw [ha]; rfl) (h e)
  | missing d m => exact absurd (by rw [ha]; rfl) (h .noent)
  | found d left =>
    refine ⟨d, left, rfl, ?_⟩
    by_contra hdir
    rw [ha, Tree.andThen, Tree.walk_cons, if_neg (mt Tree.isDirAt_iff.mp hdir)] at h
    exact h .notdir rfl

/-! ### The check of the sandbox -/

/-- The canonical form of a path that exists. -/
theorem canonicalizeExistingPrefix_found {t : FileTree} {path suffix p : List FileName}
    {left : Nat} (h : lookup t (path.reverse.map .name) = .found p left) :
    canonicalizeExistingPrefix t path suffix = .ok (p ++ suffix) := by
  unfold canonicalizeExistingPrefix
  rw [h]

/-- The last name of a path that does not exist is taken off. -/
theorem canonicalizeExistingPrefix_cons {t : FileTree} {n : FileName} {up suffix : List FileName}
    (h : ∀ p left, lookup t ((n :: up).reverse.map .name) ≠ .found p left) :
    canonicalizeExistingPrefix t (n :: up) suffix = canonicalizeExistingPrefix t up (n :: suffix) := by
  rw [canonicalizeExistingPrefix.eq_def]
  split
  · rename_i p left hp
    exact absurd hp (h p left)
  · rfl

/-- The form the check gives to a path that ends behind a free name. -/
theorem canonicalizeExistingPrefix_free {t : FileTree} {a d : List FileName} {left : Nat}
    {n : FileName} (ha : lookup t (a.map .name) = .found d left) (hd : t.node d = some .dir)
    (hn : t.node (d ++ [n]) = none) (b suffix : List FileName) :
    canonicalizeExistingPrefix t (a ++ n :: b).reverse suffix = .ok (d ++ n :: b ++ suffix) := by
  induction b using List.reverseRecOn generalizing suffix with
  | nil =>
    have hmiss : lookup t (a.map .name ++ [.name n]) = .missing d n := lookup_free ha hd hn
    rw [List.reverse_append, List.reverse_singleton, List.singleton_append,
      canonicalizeExistingPrefix_cons (by simp [hmiss]),
      canonicalizeExistingPrefix_found (by rwa [List.reverse_reverse])]
    simp
  | append_singleton b m ih =>
    have hfail : lookup t ((a ++ n :: (b ++ [m])).map .name) = .failed .noent := by
      have hsplit : (a ++ n :: (b ++ [m])).map (Comp.name (N := FileName)) =
          (a.map .name ++ [.name n]) ++ (b ++ [m]).map .name := by simp
      rw [hsplit, lookup_append, lookup_free ha hd hn, Tree.andThen]
      simp
    have hrev : (a ++ n :: (b ++ [m])).reverse = m :: (a ++ n :: b).reverse := by simp
    rw [hrev, canonicalizeExistingPrefix_cons (by rw [← hrev, List.reverse_reverse, hfail]; simp), ih]
    simp

/-- **What `resolve` returns**: the path joined to the root, without `..`, and with a checked form
under the root. -/
theorem FsSandbox.resolve_ok {t : FileTree} {sandbox : FsSandbox t} {rel tool : String}
    {joined : List (Comp FileName)} (h : sandbox.resolve rel tool = .ok joined) :
    .parent ∉ joined ∧ ∃ canon,
      canonicalizeExistingPrefix t (pathNames joined).reverse [] = .ok canon ∧
        sandbox.root <+: canon := by
  unfold FsSandbox.resolve at h
  dsimp only at h
  split at h
  · cases h
  split at h
  · cases h
  rename_i hparent
  split at h
  · cases h
  rename_i canon hcanon
  split at h
  · rename_i hroot
    cases h
    refine ⟨?_, canon, hcanon, hroot⟩
    rw [List.contains_iff_mem] at hparent
    simp [hparent]
  · cases h

/-- **A path that resolves** is one inside the root. -/
theorem FsSandbox.resolve_found {t : FileTree} {sandbox : FsSandbox t} {rel tool : String}
    {joined : List (Comp FileName)} (h : sandbox.resolve rel tool = .ok joined)
    {p : List FileName} {left : Nat} (hp : lookup t joined = .found p left) :
    sandbox.root <+: p := by
  obtain ⟨hparent, canon, hcanon, hroot⟩ := FsSandbox.resolve_ok h
  have hnames : lookup t ((pathNames joined).map .name) = .found p left := by
    rw [← hp]
    exact walk_pathNames hparent (fun e he => by rw [lookup] at hp; rw [hp] at he; cases he)
  rw [canonicalizeExistingPrefix_found (by rwa [List.reverse_reverse]), List.append_nil] at hcanon
  exact (Except.ok.inj hcanon) ▸ hroot

/-- A path that ends behind a free name of a directory: that directory is inside the root. -/
theorem FsSandbox.resolve_free {t : FileTree} {sandbox : FsSandbox t} {rel tool : String}
    {joined : List (Comp FileName)} (h : sandbox.resolve rel tool = .ok joined)
    {a b d : List FileName} {n : FileName} {left : Nat} (hsplit : pathNames joined = a ++ n :: b)
    (ha : lookup t (a.map .name) = .found d left) (hd : t.node d = some .dir)
    (hn : t.node (d ++ [n]) = none) : sandbox.root <+: d := by
  obtain ⟨-, canon, hcanon, hroot⟩ := FsSandbox.resolve_ok h
  rw [hsplit, canonicalizeExistingPrefix_free ha hd hn, List.append_nil] at hcanon
  obtain rfl := Except.ok.inj hcanon
  rcases List.prefix_or_prefix_of_prefix hroot (List.prefix_append d (n :: b)) with h | ⟨s, hs⟩
  · exact h
  -- otherwise the root is below `d`, on the way the name `n` leads, which is free
  · cases s with
    | nil => exact ⟨[], by rw [← hs]; simp⟩
    | cons m s =>
      exfalso
      rw [← hs, List.prefix_append_right_inj, List.cons_prefix_cons] at hroot
      obtain ⟨rfl, -⟩ := hroot
      have hdir := sandbox.isDir
      rw [← hs] at hdir
      cases s with
      | nil => simp [hn] at hdir
      | cons m' s =>
        have := t.node_append (p := d ++ [m]) (q := m' :: s) (by simp) (by simp [hdir])
        rw [hn] at this
        cases this

/-! ### Accesses -/

/-- Every access is inside the root. -/
def Contained (root : List FileName) (log : List Access) : Prop := ∀ a ∈ log, root <+: a.loc

theorem mem_access {α : Type} {os : Os} {kind : AccessKind} {loc : List FileName} {value : α}
    {a : Access} : a ∈ (access os kind loc value).2 ↔
      a = ⟨kind, loc⟩ ∧ os.refuses ⟨kind, loc⟩ = none := by
  unfold access
  split <;> rename_i h <;> simp [h]

/-- An access is made, or refused. -/
theorem access_cases {α : Type} (os : Os) (kind : AccessKind) (loc : List FileName) (value : α) :
    access os kind loc value = (.ok value, [⟨kind, loc⟩]) ∨
      ∃ e, access os kind loc value = (.error e, []) := by
  unfold access
  split
  · exact .inr ⟨_, rfl⟩
  · exact .inl rfl

theorem mem_change {os : Os} {kind : AccessKind} {loc : List FileName} {before after : FileTree}
    {a : Access} : a ∈ (change os kind loc before after).log ↔
      a = ⟨kind, loc⟩ ∧ os.refuses ⟨kind, loc⟩ = none := by
  unfold change
  split <;> rename_i h <;> simp [h]

theorem fsRead_found {os : Os} {t : FileTree} {path : List (Comp FileName)} {a : Access}
    (ha : a ∈ (fsRead os t path).2) : ∃ left, lookup t path = .found a.loc left := by
  unfold fsRead at ha
  split at ha
  · rename_i p left hp
    split at ha
    · obtain ⟨rfl, -⟩ := mem_access.mp ha
      exact ⟨left, hp⟩
    · cases ha
  · cases ha
  · cases ha

/-- A read that succeeds is one access, and one that fails is none. -/
theorem fsRead_cases (os : Os) (t : FileTree) (path : List (Comp FileName)) :
    (∃ bytes a, fsRead os t path = (.ok bytes, [a])) ∨ ∃ e, fsRead os t path = (.error e, []) := by
  unfold fsRead
  split
  · rename_i p _ _
    split
    · rename_i content _
      rcases access_cases os .read p content with h | ⟨e, h⟩
      · exact .inl ⟨content, _, h⟩
      · exact .inr ⟨e, h⟩
    · exact .inr ⟨_, rfl⟩
  · exact .inr ⟨_, rfl⟩
  · exact .inr ⟨_, rfl⟩

/-- A directory is listed with one access, or not at all. -/
theorem readDir_cases (os : Os) (t : FileTree) (path : List (Comp FileName)) :
    (∃ v a, readDir os t path = (.ok v, [a])) ∨ ∃ e, readDir os t path = (.error e, []) := by
  unfold readDir
  split
  · rename_i p _ _
    split
    · rcases access_cases os .list p (p, t.names p) with h | ⟨e, h⟩
      · exact .inl ⟨_, _, h⟩
      · exact .inr ⟨e, h⟩
    · exact .inr ⟨_, rfl⟩
  · exact .inr ⟨_, rfl⟩
  · exact .inr ⟨_, rfl⟩

theorem readDir_found {os : Os} {t : FileTree} {path : List (Comp FileName)} {a : Access}
    (ha : a ∈ (readDir os t path).2) : ∃ left, lookup t path = .found a.loc left := by
  unfold readDir at ha
  split at ha
  · rename_i p left hp
    split at ha
    · obtain ⟨rfl, -⟩ := mem_access.mp ha
      exact ⟨left, hp⟩
    · cases ha
  · cases ha
  · cases ha

/-- What a write touches: the file its path resolves to, or the missing one it creates. -/
theorem fsWrite_log {os : Os} {t : FileTree} {path : List (Comp FileName)} {bytes : ByteArray}
    {a : Access} (ha : a ∈ (fsWrite os t path bytes).log) :
    (∃ left, lookup t path = .found a.loc left) ∨
      ∃ d n, lookup t path = .missing d n ∧ a = ⟨.create, d ++ [n]⟩ ∧ os.refuses a = none := by
  unfold fsWrite at ha
  split at ha
  · rename_i p left hp
    split at ha
    · cases ha
    · obtain ⟨rfl, -⟩ := mem_change.mp ha
      exact .inl ⟨left, hp⟩
  · rename_i d n hmiss
    obtain ⟨rfl, hrefuse⟩ := mem_change.mp ha
    exact .inr ⟨d, n, hmiss, rfl, hrefuse⟩
  · cases ha

/-- A write to a missing file that is not refused creates it. -/
theorem fsWrite_missing {os : Os} {t : FileTree} {path : List (Comp FileName)} {bytes : ByteArray}
    {d : List FileName} {n : FileName} (hmiss : lookup t path = .missing d n)
    (hrefuse : os.refuses ⟨.create, d ++ [n]⟩ = none) :
    (fsWrite os t path bytes).log = [⟨.create, d ++ [n]⟩] := by
  unfold fsWrite change
  rw [hmiss]
  simp [hrefuse]

/-- A path behind which a write creates a file outside the root. -/
def Leaks (os : Os) (t : FileTree) (root : List FileName) (path : List (Comp FileName)) : Prop :=
  ∃ d n, lookup t path = .missing d n ∧ ¬ root <+: d ++ [n] ∧ os.refuses ⟨.create, d ++ [n]⟩ = none

/-- **A write** through a checked path. -/
theorem fsWrite_contained_iff {os : Os} {t : FileTree} {sandbox : FsSandbox t} {rel tool : String}
    {joined : List (Comp FileName)} (h : sandbox.resolve rel tool = .ok joined)
    (bytes : ByteArray) :
    Contained sandbox.root (fsWrite os t joined bytes).log ↔
      ¬ Leaks os t sandbox.root joined := by
  constructor
  · rintro hc ⟨d, n, hmiss, hout, hrefuse⟩
    exact hout (hc ⟨.create, d ++ [n]⟩ (by rw [fsWrite_missing hmiss hrefuse]; simp))
  · intro hleak a ha
    rcases fsWrite_log ha with ⟨left, hp⟩ | ⟨d, n, hmiss, rfl, hrefuse⟩
    · exact FsSandbox.resolve_found h hp
    · by_contra hout
      exact hleak ⟨d, n, hmiss, hout, hrefuse⟩

/-! ### Creating directories -/

/-- What `mkdir` does: it makes a directory under a free name, or fails and changes nothing. -/
theorem mkdir_cases (os : Os) (t : FileTree) (n : FileName) (up : List FileName) :
    (∃ d left, lookup t (up.reverse.map .name) = .found d left ∧ t.node d = some .dir ∧
      t.node (d ++ [n]) = none ∧
      mkdir os t (n :: up) = ⟨.ok (), [⟨.mkdir, d ++ [n]⟩], t.add d n .dir⟩) ∨
    (∃ e, mkdir os t (n :: up) = ⟨.error e, [], t⟩ ∧
      (e = .errno .noent → ∀ d left, lookup t (up.reverse.map .name) ≠ .found d left)) := by
  cases hup : lookup t (up.reverse.map .name) with
  | missing d m =>
    simp only [mkdir, hup]
    exact .inr ⟨_, rfl, fun _ d left h => by cases h⟩
  | failed e =>
    simp only [mkdir, hup]
    exact .inr ⟨_, rfl, fun _ d left h => by cases h⟩
  | found d left =>
    simp only [mkdir, hup]
    split
    · rename_i hdir
      split
      · exact .inr ⟨_, rfl, by simp⟩
      · rename_i hfree
        unfold change
        cases hrefuse : os.refuses ⟨.mkdir, d ++ [n]⟩ with
        | some reason => exact .inr ⟨_, rfl, by simp⟩
        | none =>
          refine .inl ⟨d, left, rfl, Tree.isDirAt_iff.mp hdir, ?_, rfl⟩
          simpa using hfree
    · exact .inr ⟨_, rfl, by simp⟩

/-- A directory that exists is left as it is. -/
theorem createDirAll_existing {os : Os} {t : FileTree} {path p : List FileName} {left : Nat}
    (h : lookup t (path.reverse.map .name) = .found p left) (hp : t.node p = some .dir) :
    createDirAll os t path = ⟨.ok (), [], t⟩ := by
  have hdir : isDir t (path.reverse.map .name) = true := by
    simp only [isDir, h]
    exact Tree.isDirAt_iff.mpr hp
  have hexist : mkdir os t path = ⟨.error (.errno .exist), [], t⟩ := by
    cases path with
    | nil => rfl
    | cons n up =>
      rw [List.reverse_cons, List.map_append, List.map_singleton] at h
      obtain ⟨d, left', hd, hnode⟩ := lookup_concat (t := t) (n := n)
        (a := up.reverse.map .name) (fun e he => by rw [h] at he; cases he)
      have hsome : (t.node (d ++ [n])).isSome = true := by
        by_contra hnone
        rw [lookup_free hd hnode (by simpa using hnone)] at h
        cases h
      simp only [mkdir, hd, Tree.isDirAt_iff.mpr hnode, hsome, if_true]
  unfold createDirAll
  simp only [hexist, hdir, if_true]

/-- The directories that `create_dir_all` makes: they are new, below `d`, which the first part `a` of
the path leads to; when all are made, the path leads to the last, which is empty. -/
structure Created (t : FileTree) (run : FsRun (Except IoError Unit)) (names a b : List FileName)
    (n : FileName) (d : List FileName) : Prop where
  split : names = a ++ n :: b
  found : ∃ left, lookup t (a.map .name) = .found d left
  isDir : t.node d = some .dir
  free : t.node (d ++ [n]) = none
  below : ∀ x ∈ run.log, d <+: x.loc
  le : t.Le run.tree
  done : run.result = .ok () → (∃ left, lookup run.tree (names.map .name) = .found (d ++ n :: b) left) ∧
    run.tree.node (d ++ n :: b) = some .dir ∧ ∀ m, run.tree.node (d ++ n :: b ++ [m]) = none

/-- A new directory is empty, and the path leads to it. -/
theorem lookup_add_dir {t t' : FileTree} {a d : List FileName} {n : FileName} {left : Nat}
    (ha : lookup t' (a.map .name) = .found d left) (hd : t'.node d = some .dir)
    (hn : t'.node (d ++ [n]) = none) (ht : t = t'.add d n .dir) :
    lookup t ((a ++ [n]).map .name) = .found (d ++ [n]) left ∧ t.node (d ++ [n]) = some .dir ∧
      ∀ m, t.node (d ++ [n] ++ [m]) = none := by
  subst ht
  have hdir : (t'.add d n .dir).node (d ++ [n]) = some .dir := by
    rw [Tree.node_add hd hn, Function.update_self]
  refine ⟨?_, hdir, fun m => ?_⟩
  · rw [List.map_append, List.map_singleton]
    exact lookup_dir (Tree.walk_mono (Tree.le_add t') _ _ _ ha) (Tree.le_add t' _ _ hd) hdir
  · rw [Tree.node_add hd hn, Function.update_of_ne (by simp)]
    by_contra hm
    rw [t'.node_parent _ _ hm] at hn
    cases hn

theorem isDir_found {t : FileTree} {path : List (Comp FileName)} (h : isDir t path = true) :
    ∃ p left, lookup t path = .found p left ∧ t.node p = some .dir := by
  unfold isDir at h
  split at h
  · rename_i p left hp
    exact ⟨p, left, hp, Tree.isDirAt_iff.mp h⟩
  · cases h

/-- One directory, in a parent that exists. -/
theorem Created.one {t : FileTree} {a d : List FileName} {n : FileName} {left : Nat}
    (ha : lookup t (a.map .name) = .found d left) (hd : t.node d = some .dir)
    (hn : t.node (d ++ [n]) = none) :
    Created t ⟨.ok (), [⟨.mkdir, d ++ [n]⟩], t.add d n .dir⟩ (a ++ [n]) a [] n d := by
  obtain ⟨h₁, h₂, h₃⟩ := lookup_add_dir ha hd hn rfl
  exact ⟨rfl, ⟨left, ha⟩, hd, hn, by simp, Tree.le_add t, fun _ => ⟨⟨left, h₁⟩, h₂, h₃⟩⟩

variable {os : Os} {t : FileTree} {run : FsRun (Except IoError Unit)} {names a b d : List FileName}
  {n m : FileName}

/-- A run that made part of the directories and failed at the next name. -/
theorem Created.fails (hc : Created t run names a b m d) (e : IoError) :
    Created t ⟨.error e, run.log, run.tree⟩ (names ++ [n]) a (b ++ [n]) m d :=
  ⟨by rw [hc.split]; simp, hc.found, hc.isDir, hc.free, hc.below, hc.le, by simp⟩

/-- A run that made all the directories, and one more. -/
theorem Created.concat (hc : Created t run names a b m d) (hok : run.result = .ok ()) :
    Created t ⟨.ok (), run.log ++ [⟨.mkdir, d ++ m :: b ++ [n]⟩], run.tree.add (d ++ m :: b) n .dir⟩
      (names ++ [n]) a (b ++ [n]) m d := by
  obtain ⟨⟨left, hleft⟩, hdir, hempty⟩ := hc.done hok
  obtain ⟨h₁, h₂, h₃⟩ := lookup_add_dir hleft hdir (hempty n) rfl
  have hassoc : d ++ m :: (b ++ [n]) = d ++ m :: b ++ [n] := by simp
  refine ⟨by rw [hc.split]; simp, hc.found, hc.isDir, hc.free, ?_, hc.le.trans (Tree.le_add _),
    fun _ => ?_⟩
  · intro x hx
    rcases List.mem_append.mp hx with hx | hx
    · exact hc.below x hx
    · rw [List.mem_singleton] at hx
      subst hx
      exact ⟨m :: b ++ [n], by simp⟩
  · rw [hassoc]
    exact ⟨⟨left, h₁⟩, h₂, h₃⟩

/-- **`create_dir_all`** changes nothing, or makes new directories at the end of its path. -/
theorem createDirAll_cases (os : Os) (t : FileTree) (path : List FileName) :
    ((createDirAll os t path).log = [] ∧ (createDirAll os t path).tree = t ∧
      ((createDirAll os t path).result = .ok () →
        ∃ p left, lookup t (path.reverse.map .name) = .found p left ∧ t.node p = some .dir)) ∨
    ∃ a b n d, Created t (createDirAll os t path) path.reverse a b n d := by
  induction path with
  | nil =>
    have hroot : lookup t (([] : List FileName).reverse.map .name) = .found [] maxSymlinks :=
      Tree.walk_nil _ _
    rw [createDirAll_existing hroot t.node_nil]
    exact .inl ⟨rfl, rfl, fun _ => ⟨[], maxSymlinks, hroot, t.node_nil⟩⟩
  | cons n up ih =>
    rw [List.reverse_cons]
    unfold createDirAll
    rcases mkdir_cases os t n up with ⟨d, left, hd, hdir, hfree, hmk⟩ | ⟨e, hmk, hnoent⟩
    · -- the parent is there, and one directory is made
      rw [hmk]
      exact .inr ⟨up.reverse, [], n, d, Created.one hd hdir hfree⟩
    rw [hmk]
    by_cases he : e = .errno .noent
    -- the parent is missing and made first
    · subst he
      dsimp only
      rcases ih with ⟨hlog, htree, hok⟩ | ⟨a, b, m, d, hc⟩
      · cases habove : (createDirAll os t up).result with
        | error e => exact .inl ⟨hlog, htree, by simp⟩
        | ok _ =>
          obtain ⟨p, left, hp, -⟩ := hok habove
          exact absurd hp (hnoent rfl p left)
      · refine .inr ⟨a, b ++ [n], m, d, ?_⟩
        cases habove : (createDirAll os t up).result with
        | error e => exact hc.fails e
        | ok _ =>
          dsimp only
          obtain ⟨⟨left, hleft⟩, hdir, hempty⟩ := hc.done habove
          rcases mkdir_cases os (createDirAll os t up).tree n up with
            ⟨d', left', hd', -, -, hmk'⟩ | ⟨e, hmk', -⟩
          · rw [hleft] at hd'
            cases hd'
            rw [hmk']
            exact hc.concat habove
          · have hmiss : isDir (createDirAll os t up).tree ((n :: up).reverse.map .name) = false := by
              rw [List.reverse_cons, List.map_append, List.map_singleton, isDir,
                lookup_free hleft hdir (hempty n)]
            rw [hmk', hmiss]
            exact hc.fails e
    · -- any other failure makes nothing; it is forgiven where the path is a directory
      refine .inl ?_
      split
      · rename_i h
        cases h
      · rename_i h
        exact absurd (Except.error.inj h) he
      · split
        · rename_i hdir
          rw [List.reverse_cons] at hdir
          exact ⟨rfl, rfl, fun _ => isDir_found hdir⟩
        · exact ⟨rfl, rfl, by simp⟩

end PgSynapse
