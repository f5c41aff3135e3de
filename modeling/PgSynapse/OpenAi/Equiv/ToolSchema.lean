import PgSynapse.OpenAi.Payload

/-!
# Sanitized tool schemas

`sanitize_tool_schema` walks a JSON value without a notion of which parts of it are schemas.  The
grammar of JSON Schema gives each part its place, and `sanitize_tool_schema_iff` says for which
schemas the walk alters nothing but the `items` keyword of schema nodes.
-/

namespace PgSynapse.ToolSchema

/-! ### The schema grammar -/

/-- What a value is by its place in a schema. -/
inductive Place where
  | schema
  | schemaArray
  | schemaMap
  | data
  deriving DecidableEq, Repr

/-- The keywords whose value is a schema. -/
def schemaKeywords : List String :=
  ["additionalItems", "additionalProperties", "contains", "contentSchema", "else", "if", "items",
    "not", "propertyNames", "then", "unevaluatedItems", "unevaluatedProperties"]

/-- The keywords whose value is an array of schemas. -/
def schemaArrayKeywords : List String := ["allOf", "anyOf", "oneOf", "prefixItems"]

/-- The keywords whose value is an object with names of its own and a schema for each. -/
def schemaMapKeywords : List String :=
  ["$defs", "definitions", "dependencies", "dependentSchemas", "patternProperties", "properties"]

namespace Place

/-- The place of the value of a keyword: every keyword that has no schemas has data. -/
def ofKeyword (keyword : String) : Place :=
  if keyword ∈ schemaKeywords then .schema
  else if keyword ∈ schemaArrayKeywords then .schemaArray
  else if keyword ∈ schemaMapKeywords then .schemaMap
  else .data

/-- The place of the member `key` of an object. -/
def member (place : Place) (key : String) : Place :=
  match place with
  | .schema => ofKeyword key
  | .schemaMap => .schema
  | .schemaArray | .data => .data

/-- The place of the elements of an array. -/
def element : Place → Place
  | .schemaArray => .schema
  | .schema | .schemaMap | .data => .data

end Place

mutual

/-- The objects of a value that are schemas. -/
def schemaNodes : Place → Value → List Value
  | place, .object fields =>
    (if place = .schema then [.object fields] else []) ++ memberNodes place fields
  | place, .array items => elementNodes place items
  | _, _ => []

def memberNodes : Place → List (String × Value) → List Value
  | _, [] => []
  | place, (k, v) :: rest => schemaNodes (place.member k) v ++ memberNodes place rest

def elementNodes : Place → List Value → List Value
  | _, [] => []
  | place, v :: rest => schemaNodes place.element v ++ elementNodes place rest

end

mutual

/-- The second value differs from the first only at values of the `items` keyword of schema nodes
that are not objects. -/
def AltersOnlyItems : Place → Value → Value → Prop
  | place, .object fields, w => ∃ fields', w = .object fields' ∧ AltersOnlyMembers place fields fields'
  | place, .array items, w => ∃ items', w = .array items' ∧ AltersOnlyElements place items items'
  | _, v, w => w = v

def AltersOnlyMembers : Place → List (String × Value) → List (String × Value) → Prop
  | _, [], fields' => fields' = []
  | place, (k, v) :: rest, fields' => ∃ w rest', fields' = (k, w) :: rest' ∧
    (AltersOnlyItems (place.member k) v w ∨
      (place = .schema ∧ k = "items" ∧ v.isObject = false)) ∧
    AltersOnlyMembers place rest rest'

def AltersOnlyElements : Place → List Value → List Value → Prop
  | _, [], items' => items' = []
  | place, v :: rest, items' => ∃ w rest', items' = w :: rest' ∧
    AltersOnlyItems place.element v w ∧ AltersOnlyElements place rest rest'

end

mutual

/-- A member `items` that is not an object is the keyword of a schema node, and never the name of a
property or of a definition, or a key of data. -/
def ItemsAreKeywords : Place → Value → Prop
  | place, .object fields => ItemsAreKeywordsIn place fields
  | place, .array items => ItemsAreKeywordsAmong place items
  | _, _ => True

def ItemsAreKeywordsIn : Place → List (String × Value) → Prop
  | _, [] => True
  | place, (k, v) :: rest =>
    (if k = "items" ∧ v.isObject = false then place = .schema
      else ItemsAreKeywords (place.member k) v) ∧ ItemsAreKeywordsIn place rest

def ItemsAreKeywordsAmong : Place → List Value → Prop
  | _, [] => True
  | place, v :: rest => ItemsAreKeywords place.element v ∧ ItemsAreKeywordsAmong place rest

end

/-! ### The walk -/

/-- The schema that takes the place of `items`. -/
theorem stringSchema_eq :
    Value.obj [("type", .string "string")] = .object [("type", .string "string")] := rfl

theorem sanitize_isObject (v : Value) : (sanitizeToolSchema v).isObject = v.isObject := by
  cases v <;> rfl

mutual

/-- **Idempotence** of the walk. -/
theorem sanitize_sanitize : ∀ v : Value,
    sanitizeToolSchema (sanitizeToolSchema v) = sanitizeToolSchema v
  | .null | .bool _ | .number _ | .string _ => rfl
  | .array items => by
    rw [sanitizeToolSchema, sanitizeToolSchema, sanitizeItems_sanitizeItems items]
  | .object fields => by
    rw [sanitizeToolSchema, sanitizeToolSchema, sanitizeFields_sanitizeFields fields]

theorem sanitizeFields_sanitizeFields : ∀ fields : List (String × Value),
    sanitizeFields (sanitizeFields fields) = sanitizeFields fields
  | [] => rfl
  | (k, v) :: rest => by
    rw [sanitizeFields, sanitizeFields, sanitizeFields_sanitizeFields rest]
    by_cases h : k = "items" ∧ v.isObject = false
    · rw [if_pos h, stringSchema_eq, if_neg fun hand => Bool.noConfusion hand.2]
      rfl
    · have h' : ¬ (k = "items" ∧ (sanitizeToolSchema v).isObject = false) := by
        rwa [sanitize_isObject]
      rw [if_neg h, if_neg h', sanitize_sanitize v]

theorem sanitizeItems_sanitizeItems : ∀ items : List Value,
    sanitizeItems (sanitizeItems items) = sanitizeItems items
  | [] => rfl
  | v :: rest => by
    rw [sanitizeItems, sanitizeItems, sanitize_sanitize v, sanitizeItems_sanitizeItems rest]

end

/-- The member `items` of a sanitized object is an object. -/
theorem lookup_sanitizeFields {fields : List (String × Value)} {items : Value}
    (h : (sanitizeFields fields).lookup "items" = some items) : items.isObject = true := by
  induction fields with
  | nil => cases h
  | cons kv rest ih =>
    obtain ⟨k, v⟩ := kv
    rw [sanitizeFields, List.lookup_cons] at h
    split at h
    · rename_i hk
      have hk : k = "items" := (beq_iff_eq.mp hk).symm
      obtain rfl := Option.some.inj h
      by_cases hobj : v.isObject = false
      · rw [if_pos ⟨hk, hobj⟩]
        rfl
      · rw [if_neg fun hand => hobj hand.2, sanitize_isObject]
        exact Bool.not_eq_false _ ▸ hobj
    · exact ih h

/-- The string schema has no `items` of its own. -/
theorem schemaNodes_stringSchema {place : Place} {node items : Value}
    (hnode : node ∈ schemaNodes place (.obj [("type", .string "string")])) :
    node.get? "items" ≠ some items := by
  have hnil : memberNodes place [("type", .string "string")] = [] := by
    simp [memberNodes, schemaNodes]
  rw [stringSchema_eq, schemaNodes, hnil, List.append_nil] at hnode
  split at hnode
  · rw [List.mem_singleton.mp hnode]
    exact nofun
  · cases hnode

mutual

/-- No schema node of the result has an `items` keyword that is not an object. -/
theorem schemaNodes_sanitize : ∀ (place : Place) (v : Value),
    ∀ node ∈ schemaNodes place (sanitizeToolSchema v), ∀ items, node.get? "items" = some items →
      items.isObject = true
  | _, .null | _, .bool _ | _, .number _ | _, .string _ => nofun
  | place, .array items => by
    rw [sanitizeToolSchema, schemaNodes]
    exact elementNodes_sanitize place items
  | place, .object fields => by
    rw [sanitizeToolSchema, schemaNodes]
    intro node hnode
    rcases List.mem_append.mp hnode with hnode | hnode
    · split at hnode
      · rw [List.mem_singleton.mp hnode]
        exact fun items => lookup_sanitizeFields
      · cases hnode
    · exact memberNodes_sanitize place fields node hnode

theorem memberNodes_sanitize : ∀ (place : Place) (fields : List (String × Value)),
    ∀ node ∈ memberNodes place (sanitizeFields fields), ∀ items,
      node.get? "items" = some items → items.isObject = true
  | _, [] => nofun
  | place, (k, v) :: rest => by
    rw [sanitizeFields, memberNodes]
    intro node hnode
    rcases List.mem_append.mp hnode with hnode | hnode
    · split at hnode
      · exact fun items hitems => absurd hitems (schemaNodes_stringSchema hnode)
      · exact schemaNodes_sanitize (place.member k) v node hnode
    · exact memberNodes_sanitize place rest node hnode

theorem elementNodes_sanitize : ∀ (place : Place) (items : List Value),
    ∀ node ∈ elementNodes place (sanitizeItems items), ∀ items,
      node.get? "items" = some items → items.isObject = true
  | _, [] => nofun
  | place, v :: rest => by
    rw [sanitizeItems, elementNodes]
    intro node hnode
    rcases List.mem_append.mp hnode with hnode | hnode
    · exact schemaNodes_sanitize place.element v node hnode
    · exact elementNodes_sanitize place rest node hnode

end

/-! ### What the walk alters -/

/-- A value that is not an object differs from the string schema. -/
theorem not_altersOnlyItems_object {place : Place} {v : Value} {fields : List (String × Value)}
    (hv : v.isObject = false) : ¬ AltersOnlyItems place v (.object fields) := by
  cases v <;> simp_all [AltersOnlyItems, Value.isObject]

mutual

theorem sanitize_alters_iff : ∀ (place : Place) (v : Value),
    AltersOnlyItems place v (sanitizeToolSchema v) ↔ ItemsAreKeywords place v
  | _, .null | _, .bool _ | _, .number _ | _, .string _ => by
    simp [sanitizeToolSchema, AltersOnlyItems, ItemsAreKeywords]
  | place, .array items => by
    simp [sanitizeToolSchema, AltersOnlyItems, ItemsAreKeywords, sanitizeItems_alters_iff]
  | place, .object fields => by
    simp [sanitizeToolSchema, AltersOnlyItems, ItemsAreKeywords, sanitizeFields_alters_iff]

theorem sanitizeFields_alters_iff : ∀ (place : Place) (fields : List (String × Value)),
    AltersOnlyMembers place fields (sanitizeFields fields) ↔ ItemsAreKeywordsIn place fields
  | _, [] => by simp [sanitizeFields, AltersOnlyMembers, ItemsAreKeywordsIn]
  | place, (k, v) :: rest => by
    have hrest := sanitizeFields_alters_iff place rest
    by_cases h : k = "items" ∧ v.isObject = false
    · obtain ⟨rfl, hobj⟩ := h
      have hv := @not_altersOnlyItems_object (place.member "items") v
        [("type", .string "string")] hobj
      simp [sanitizeFields, AltersOnlyMembers, ItemsAreKeywordsIn, hrest, hobj, stringSchema_eq, hv]
    · have hv := sanitize_alters_iff (place.member k) v
      simp [sanitizeFields, AltersOnlyMembers, ItemsAreKeywordsIn, hrest, h, hv]

theorem sanitizeItems_alters_iff : ∀ (place : Place) (items : List Value),
    AltersOnlyElements place items (sanitizeItems items) ↔ ItemsAreKeywordsAmong place items
  | _, [] => by simp [sanitizeItems, AltersOnlyElements, ItemsAreKeywordsAmong]
  | place, v :: rest => by
    have hv := sanitize_alters_iff place.element v
    have hrest := sanitizeItems_alters_iff place rest
    simp [sanitizeItems, AltersOnlyElements, ItemsAreKeywordsAmong, hv, hrest]

end

/-- **Schema sanitizing**: no schema node of the result has an `items` keyword that is not an object,
and a second walk changes nothing.  The walk alters only such keywords exactly when no other member
of the name `items` has a value that is not an object. -/
theorem sanitize_tool_schema_iff (s : Value) :
    (∀ node ∈ schemaNodes .schema (sanitizeToolSchema s), ∀ items,
      node.get? "items" = some items → items.isObject = true) ∧
    sanitizeToolSchema (sanitizeToolSchema s) = sanitizeToolSchema s ∧
    (AltersOnlyItems .schema s (sanitizeToolSchema s) ↔ ItemsAreKeywords .schema s) :=
  ⟨schemaNodes_sanitize .schema s, sanitize_sanitize s, sanitize_alters_iff .schema s⟩

/-- A property of the name `items` that takes any value is narrowed to strings. -/
theorem items_property_narrowed :
    let s := Value.object [("properties", .object [("items", .bool true)]),
      ("type", .string "object")]
    sanitizeToolSchema s = .object [("properties", .object [("items",
      .object [("type", .string "string")])]), ("type", .string "object")] ∧
    ¬ AltersOnlyItems .schema s (sanitizeToolSchema s) := by
  intro s
  have hs : sanitizeToolSchema s = .object [("properties", .object [("items",
      .object [("type", .string "string")])]), ("type", .string "object")] := by decide
  refine ⟨hs, ?_⟩
  rw [hs]
  have hplace : Place.ofKeyword "properties" = .schemaMap := by decide
  simp [s, AltersOnlyItems, AltersOnlyMembers, Place.member, hplace]

/-! ### The tools of a request -/

/-- The entry of a tool has the tool's sanitized schema as its parameters, and its name and
description as they are. -/
theorem toolEntry_eq (td : ToolDefinition) :
    toolEntry td = .obj [("type", .string "function"), ("function", .obj [("name", .string td.name),
      ("description", .string td.description), ("parameters", sanitizeToolSchema td.schema)])] := by
  have hfunction : ¬ "function" = "type" ∧ "function" < "type" := by decide
  have hdescription : ¬ "description" = "name" ∧ "description" < "name" := by decide
  have hparameters : (¬ "parameters" = "description" ∧ ¬ "parameters" < "description") ∧
      ¬ "parameters" = "name" ∧ ¬ "parameters" < "name" := by decide
  have hitems : ¬ "description" = "items" ∧ ¬ "name" = "items" ∧ ¬ "parameters" = "items" := by
    decide
  simp only [toolEntry, ToolDefinition.toOpenaiFunction, Value.obj, List.foldl_cons, List.foldl_nil,
    Value.insertField, sanitizeToolSchema, sanitizeFields, hfunction, hdescription, hparameters,
    hitems, false_and, if_false, if_true]

end PgSynapse.ToolSchema
