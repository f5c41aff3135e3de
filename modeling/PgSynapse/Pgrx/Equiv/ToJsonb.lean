import Mathlib.Data.List.Induction
import PgSynapse.Lib.Except
import PgSynapse.Pgrx.ToJsonb

/-!
# The rows `to_jsonb` gives

What the members of two objects with the same information have to do with each other, which object
the extension host shows for a row, and when it shows one value for every row.
-/

namespace PgSynapse

/-! ### Named values -/

section Named

variable {α β : Type} {P : α → β → Prop}

/-- What a present value is related to is present. -/
theorem rel_some_left {a : α} {o : Option β} (h : Option.Rel P (some a) o) :
    ∃ b, o = some b ∧ P a b := by
  cases h with
  | some hab => exact ⟨_, rfl, hab⟩

/-- What an absent value is related to is absent. -/
theorem rel_none_left {o : Option β} (h : Option.Rel P none o) : o = none := by
  cases h
  rfl

/-- What a present value is related to on the left is present. -/
theorem rel_some_right {b : β} {o : Option α} (h : Option.Rel P o (some b)) :
    ∃ a, o = some a ∧ P a b := by
  cases h with
  | some hab => exact ⟨_, rfl, hab⟩

/-- Lists of named values that match member by member match at every name. -/
theorem lookup_forall₂ {as : List (String × α)} {bs : List (String × β)}
    (h : List.Forall₂ (fun a b => a.1 = b.1 ∧ P a.2 b.2) as bs) (key : String) :
    Option.Rel P (as.lookup key) (bs.lookup key) := by
  induction h with
  | nil => exact .none
  | @cons a b as bs hab _ ih =>
    obtain ⟨hname, hP⟩ := hab
    rw [List.lookup_cons, List.lookup_cons, ← hname]
    cases key == a.1 with
    | true => exact .some hP
    | false => exact ih

/-- The last member of a name, in a list with one more in front. -/
theorem lookup_reverse_cons (m : String × α) (rest : List (String × α)) (key : String) :
    (m :: rest).reverse.lookup key =
      (rest.reverse.lookup key).or (if key = m.1 then some m.2 else none) := by
  have hone : [m].lookup key = if key = m.1 then some m.2 else none := by
    by_cases h : key = m.1
    · rw [if_pos h, h, List.lookup_cons_self]
    · rw [if_neg h, List.lookup_cons, beq_eq_false_iff_ne.mpr h, List.lookup_nil]
  rw [List.reverse_cons, List.lookup_append, hone]

/-- A name that occurs is found. -/
theorem isSome_lookup_reverse {rest : List (String × α)} {key : String}
    (h : rest.any fun l => l.1 == key) : (rest.reverse.lookup key).isSome := by
  rw [Option.isSome_iff_ne_none, ne_eq, List.lookup_eq_none_iff]
  intro hnone
  obtain ⟨l, hl, hname⟩ := List.any_eq_true.mp h
  have hne := hnone l (List.mem_reverse.mpr hl)
  rw [beq_iff_eq] at hname
  simp [hname] at hne

/-- The members that stay are the ones found by name. -/
theorem lookup_lastMembers (key : String) : ∀ members : List (String × α),
    (lastMembers members).reverse.lookup key = members.reverse.lookup key
  | [] => rfl
  | m :: rest => by
    rw [lastMembers]
    split
    · rename_i hany
      rw [lookup_lastMembers key rest, lookup_reverse_cons]
      by_cases h : key = m.1
      · subst h
        obtain ⟨v, hv⟩ := Option.isSome_iff_exists.mp (isSome_lookup_reverse hany)
        rw [hv, Option.some_or]
      · rw [if_neg h, Option.or_none]
    · rw [lookup_reverse_cons, lookup_reverse_cons, lookup_lastMembers key rest]

/-- A member that stays is found by its name. -/
theorem lookup_of_mem_lastMembers {m : String × α} : ∀ {members : List (String × α)},
    m ∈ lastMembers members → members.reverse.lookup m.1 = some m.2
  | l :: rest, h => by
    rw [lastMembers] at h
    rw [lookup_reverse_cons]
    split at h
    · rw [lookup_of_mem_lastMembers h, Option.some_or]
    · rename_i hany
      rcases List.mem_cons.mp h with rfl | hmem
      · have hnone : rest.reverse.lookup m.1 = none := by
          rw [List.lookup_eq_none_iff]
          intro l hl
          simp only [List.any_eq_true, not_exists, not_and, Bool.not_eq_true] at hany
          have hne := hany l (List.mem_reverse.mp hl)
          rw [beq_eq_false_iff_ne] at hne
          exact bne_iff_ne.mpr (Ne.symm hne)
        rw [hnone, if_pos rfl, Option.none_or]
      · rw [lookup_of_mem_lastMembers hmem, Option.some_or]

end Named

/-! ### Members of an object -/

/-- A member is smaller than its object. -/
theorem Value.sizeOf_get? {v w : Value} {key : String} (h : v.get? key = some w) :
    sizeOf w < sizeOf v := by
  cases v with
  | object fields =>
    obtain ⟨before, after, hfields, -⟩ := List.lookup_eq_some_iff.mp h
    have hlt : sizeOf (key, w) < sizeOf fields :=
      List.sizeOf_lt_of_mem (hfields ▸ List.mem_append_right _ List.mem_cons_self)
    simp only [Value.object.sizeOf_spec, Prod.mk.sizeOf_spec] at hlt ⊢
    omega
  | _ => cases h

section SameInfo

variable {R : Readers}

/-- Objects with the same information have it at every key. -/
theorem SameInfo.get? {v v' : Value} (h : SameInfo R v v') (key : String) :
    Option.Rel (SameInfo R) (v.get? key) (v'.get? key) := by
  cases h with
  | refl =>
    cases v.get? key with
    | none => exact .none
    | some w => exact .some (.refl w)
  | @object fs fs' hkeys hsame =>
    have hkey := hkeys key
    change Option.Rel (SameInfo R) (fs.lookup key) (fs'.lookup key)
    cases hv : fs.lookup key with
    | none =>
      rw [hv, Option.isSome_none, eq_comm, Option.isSome_eq_false_iff, Option.isNone_iff_eq_none]
        at hkey
      rw [hkey]
      exact .none
    | some w =>
      rw [hv, Option.isSome_some, eq_comm] at hkey
      obtain ⟨w', hw'⟩ := Option.isSome_iff_exists.mp hkey
      rw [hw']
      exact .some (hsame key w w' hv hw')
  | _ => exact .none

/-- Two objects have the same information when the members of every key have. -/
theorem sameInfo_obj {fields fields' : List (String × Value)}
    (h : ∀ key, Option.Rel (SameInfo R) (fields.reverse.lookup key) (fields'.reverse.lookup key)) :
    SameInfo R (.obj fields) (.obj fields') := by
  have hget : ∀ key, Option.Rel (SameInfo R) ((Value.obj fields).get? key)
      ((Value.obj fields').get? key) := fun key => by
    rw [Value.get?_obj, Value.get?_obj]
    exact h key
  simp only [Value.obj, Value.get?] at hget ⊢
  refine .object (fun key => ?_) fun key v v' hv hv' => ?_
  · have hrel := hget key
    revert hrel
    generalize List.lookup key _ = o
    generalize List.lookup key _ = o'
    rintro (_ | _)
    · rfl
    · rfl
  · have hrel := hget key
    rw [hv, hv'] at hrel
    exact Option.rel_some_some.mp hrel

/-- An object does not say the same as one of its own members. -/
theorem SameInfo.not_within {v v' w : Value} {key : String} (h : SameInfo R v v')
    (hw : v.get? key = some w) : ¬ SameInfo R w v' := by
  intro hwithin
  -- the members of `key` on the right would descend for ever
  have hright := h.get? key
  have hleft := hwithin.get? key
  rw [hw] at hright
  obtain ⟨w', hw', hsame⟩ := rel_some_left hright
  rw [hw'] at hleft
  obtain ⟨u, hu, hsame'⟩ := rel_some_right hleft
  exact SameInfo.not_within hsame hu hsame'
termination_by sizeOf v'
decreasing_by exact Value.sizeOf_get? hw'

end SameInfo

/-! ### A row as an object -/

section Row

variable {F : SqlFormats}

/-- The column of a name, as a lookup. -/
theorem columnNamed_eq (row : List PgColumn) (name : String) :
    columnNamed row name = (row.map fun c => (c.name, c)).reverse.lookup name := by
  rw [columnNamed, ← List.map_reverse]
  induction row.reverse with
  | nil => rfl
  | cons c rest ih =>
    rw [List.find?_cons, List.map_cons, List.lookup_cons, ih, Bool.beq_comm]

/-- The column of a name has the name. -/
theorem columnNamed_name {row : List PgColumn} {name : String} {c : PgColumn}
    (h : columnNamed row name = some c) : c.name = name := by
  have hname : (c.name == name) = true :=
    List.find?_some (p := fun (l : PgColumn) => l.name == name) h
  exact beq_iff_eq.mp hname

/-- The column of a name is one of the row's. -/
theorem columnNamed_mem {row : List PgColumn} {name : String} {c : PgColumn}
    (h : columnNamed row name = some c) : c ∈ row :=
  List.mem_reverse.mp (List.mem_of_find?_eq_some h)

/-- Members made from the columns one by one, found by name. -/
theorem lookup_members {β : Type} {P : PgColumn → β → Prop} {row : List PgColumn}
    {members : List (String × β)}
    (h : List.Forall₂ (fun c m => c.name = m.1 ∧ P c m.2) row members) (key : String) :
    Option.Rel P (columnNamed row key) (members.reverse.lookup key) := by
  rw [columnNamed_eq]
  refine lookup_forall₂ ?_ key
  rw [List.forall₂_reverse_iff, List.forall₂_map_left_iff]
  exact h

/-- The members a row becomes, if `to_jsonb` makes something of every column. -/
theorem members_iff {row : List PgColumn} {members : List (String × Jsonb)} :
    (row.mapM fun (c : PgColumn) => (c.toJsonb F).map fun doc => (c.name, doc)) = some members ↔
      List.Forall₂ (fun c m => c.name = m.1 ∧ c.toJsonb F = some m.2) row members := by
  rw [mapM_eq_some_iff]
  have hiff : ∀ (c : PgColumn) (m : String × Jsonb),
      ((c.toJsonb F).map fun doc => (c.name, doc)) = some m ↔
        c.name = m.1 ∧ c.toJsonb F = some m.2 := fun c m => by
    rw [Option.map_eq_some_iff]
    constructor
    · rintro ⟨doc, hdoc, rfl⟩
      exact ⟨rfl, hdoc⟩
    · rintro ⟨hname, hdoc⟩
      exact ⟨m.2, hdoc, by rw [hname]⟩
  simp only [hiff]

/-- An object that is read has every member read. -/
theorem readMembers_iff {members : List (String × Jsonb)} {v : Value} :
    readMembers members = some v ↔ ∃ fields, v = .obj fields ∧
      List.Forall₂ (fun m f => m.1 = f.1 ∧ m.2 = some f.2) members fields := by
  have hiff : ∀ (m : String × Jsonb) (f : String × Value),
      (m.2.map fun v => (m.1, v)) = some f ↔ m.1 = f.1 ∧ m.2 = some f.2 := fun m f => by
    rw [Option.map_eq_some_iff]
    constructor
    · rintro ⟨v, hv, rfl⟩
      exact ⟨rfl, hv⟩
    · rintro ⟨hname, hv⟩
      exact ⟨f.2, hv, by rw [hname]⟩
  rw [readMembers, Option.map_eq_some_iff]
  simp only [mapM_eq_some_iff, hiff]
  constructor
  · rintro ⟨fields, hall, rfl⟩
    exact ⟨fields, rfl, hall⟩
  · rintro ⟨fields, rfl, hall⟩
    exact ⟨fields, hall, rfl⟩

/-- **The object of a row**: it has what `to_jsonb` makes of the column of each name. -/
theorem jsonbCell_object {row : List PgColumn} {v : Value} (ht : columnNamed row "t" = none)
    (h : jsonbCell F row = some (some (some v))) :
    (∀ c ∈ row, (c.toJsonb F).isSome) ∧ ∃ fields, v = .obj fields ∧ ∀ key,
      Option.Rel (fun c w => c.toJsonb F = some (some w)) (columnNamed row key)
        (fields.reverse.lookup key) := by
  simp only [jsonbCell, ht, Option.map_eq_some_iff, members_iff, Option.some.injEq,
    readMembers_iff] at h
  obtain ⟨members, hmembers, fields, hv, hfields⟩ := h
  refine ⟨fun c hc => ?_, fields, hv, fun key => ?_⟩
  · obtain ⟨m, -, -, hdoc⟩ := exists_of_forall₂ hmembers hc
    rw [hdoc, Option.isSome_some]
  · have hcolumn := lookup_members
      (P := fun (c : PgColumn) (doc : Jsonb) => c.toJsonb F = some doc) hmembers key
    have hmember := lookup_forall₂
      (P := fun (doc : Jsonb) (w : Value) => doc = some w)
      (List.forall₂_reverse_iff.mpr hfields) key
    rw [lookup_lastMembers] at hmember
    cases hc : columnNamed row key with
    | none =>
      rw [hc] at hcolumn
      rw [rel_none_left hcolumn] at hmember
      rw [rel_none_left hmember]
      exact .none
    | some c =>
      rw [hc] at hcolumn
      obtain ⟨doc, hdoc, hc⟩ := rel_some_left hcolumn
      rw [hdoc] at hmember
      obtain ⟨w, hw, rfl⟩ := rel_some_left hmember
      rw [hw]
      exact .some hc

/-- A row whose columns `to_jsonb` takes and whose shown columns can be read has its object. -/
theorem exists_jsonbCell {row : List PgColumn} (ht : columnNamed row "t" = none)
    (hall : ∀ c ∈ row, (c.toJsonb F).isSome)
    (hshown : ∀ key c, columnNamed row key = some c → ∃ w, c.toJsonb F = some (some w)) :
    ∃ v, jsonbCell F row = some (some (some v)) := by
  have hdocs : ∀ c ∈ row, ∃ m : String × Jsonb, c.name = m.1 ∧ c.toJsonb F = some m.2 :=
    fun c hc => by
      obtain ⟨doc, hdoc⟩ := Option.isSome_iff_exists.mp (hall c hc)
      exact ⟨(c.name, doc), rfl, hdoc⟩
  obtain ⟨members, hmembers⟩ := exists_forall₂ hdocs
  have hread : ∀ m ∈ lastMembers members, ∃ f : String × Value, m.1 = f.1 ∧ m.2 = some f.2 :=
    fun m hm => by
      have hcolumn := lookup_members
        (P := fun (c : PgColumn) (doc : Jsonb) => c.toJsonb F = some doc) hmembers m.1
      rw [lookup_of_mem_lastMembers hm] at hcolumn
      obtain ⟨c, hc, hdoc⟩ := rel_some_right hcolumn
      obtain ⟨w, hw⟩ := hshown m.1 c hc
      exact ⟨(m.1, w), rfl, Option.some.inj (hdoc.symm.trans hw)⟩
  obtain ⟨fields, hfields⟩ := exists_forall₂ hread
  refine ⟨.obj fields, ?_⟩
  simp only [jsonbCell, ht, Option.map_eq_some_iff, members_iff, Option.some.injEq,
    readMembers_iff]
  exact ⟨members, hmembers, fields, rfl, hfields⟩

end Row

/-! ### The rows -/

section Rows

variable {F : SqlFormats} {tool : String}

/-- No more rows are shown than there are cells. -/
theorem readRows_length {cells : List (Except String (Option Value))} {shown : List Value}
    (h : readRows tool cells = .ok shown) : shown.length ≤ cells.length := by
  induction cells generalizing shown with
  | nil =>
    obtain rfl := Except.ok.inj h
    exact le_refl 0
  | cons cell rest ih =>
    cases cell with
    | error reason => cases h
    | ok v =>
      obtain ⟨out, hout, rfl⟩ := map_eq_ok.mp h
      have hrest := ih hout
      rw [List.length_append, List.length_cons]
      have hone : v.toList.length ≤ 1 := by cases v <;> simp
      omega

/-- **One value for every row**: no cell failed, and none was `NULL`. -/
theorem readRows_iff {α : Type} {cell : α → Option (Option Jsonb)} {same : α → Value → Prop}
    {rows : List α} :
    (∃ cells shown, rows.mapM cell = some cells ∧
      readRows tool (cells.map (readCell F)) = .ok shown ∧ List.Forall₂ same rows shown) ↔
      ∀ row ∈ rows, ∃ v, cell row = some (some (some v)) ∧ same row v := by
  simp only [mapM_eq_some_iff]
  induction rows with
  | nil =>
    refine ⟨fun _ row hrow => absurd hrow (List.not_mem_nil), fun _ => ?_⟩
    exact ⟨[], [], .nil, rfl, .nil⟩
  | cons row rest ih =>
    rw [List.forall_mem_cons, ← ih]
    constructor
    · rintro ⟨_, _, hcells, hread, hsame⟩
      obtain ⟨c, cells, hc, hrest, rfl⟩ := List.forall₂_cons_left_iff.mp hcells
      obtain ⟨v, shown, hv, hshown, rfl⟩ := List.forall₂_cons_left_iff.mp hsame
      rcases c with _ | _ | w
      · -- a row that is left out would make the list too short
        obtain ⟨out, hout, heq⟩ := map_eq_ok.mp hread
        have hlong := readRows_length hout
        have hcells := hrest.length_eq
        have hrows := hshown.length_eq
        have hlength := congrArg List.length heq
        simp only [Option.toList_none, List.nil_append, List.length_cons, List.length_map]
          at hlength hlong
        omega
      · cases hread
      · obtain ⟨out, hout, heq⟩ := map_eq_ok.mp hread
        obtain ⟨rfl, rfl⟩ := List.cons.inj heq
        exact ⟨⟨w, hc, hv⟩, cells, out, hrest, hout, hshown⟩
    · rintro ⟨⟨v, hc, hv⟩, cells, shown, hrest, hread, hshown⟩
      exact ⟨some (some v) :: cells, v :: shown, .cons hc hrest,
        map_eq_ok.mpr ⟨shown, hread, rfl⟩, .cons hv hshown⟩

end Rows

end PgSynapse
