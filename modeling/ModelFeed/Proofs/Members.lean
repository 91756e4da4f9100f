import ModelFeed.Node.Addressed
import ModelFeed.Projection
import ModelFeed.Proofs.Traversal
/-!
# Members

Structured nodes and maps are told apart where they are stored, but an edit changes and a
projection reads both in the same way: as a list of named members. Here an edit behind a name is
described by what it does to that list, and a projection onto a name as a filter of it.
-/

namespace ModelFeed

/-- A property or a map entry. -/
structure Member where
  key : String
  /-- Whether a filter may lead below the value. -/
  isOpen : Bool
  value : Node

namespace Member

def named (name : String) (m : Member) : Bool :=
  sameName m.key name

/-- What a projection keeps of a member. -/
def project? (token : Token) (rest : List Token) (m : Member) : Option (String × Node) :=
  if !token.selectsName m.key then none
  else if takesWhole rest then some (m.key, m.value)
  else if m.isOpen then (m.value.project? rest).map (m.key, ·)
  else none

def ofField (field : Property × Node) : Member :=
  ⟨field.1.name, field.1.kind.isDescendable, field.2⟩

def ofEntry (entry : String × Node) : Member :=
  ⟨entry.1, true, entry.2⟩

end Member

namespace Node

/-- The members of a structured node or a map. -/
def members? : Node → Option (List Member)
  | .structured schema values => some ((schema.properties.zip values).map Member.ofField)
  | .map entries => some (entries.map Member.ofEntry)
  | _ => none

theorem project?_name {node : Node} {ms : List Member} (h : node.members? = some ms)
    (text : String) (rest : List Token) :
    node.project? (.name text :: rest) =
      selectedMembers? (ms.filterMap (Member.project? (.name text) rest)) := by
  cases node with
  | structured schema values =>
    simp only [members?, Option.some.injEq] at h
    subst h
    rw [project?, List.filterMap_map]
    rfl
  | map entries =>
    simp only [members?, Option.some.injEq] at h
    subst h
    rw [project?, List.filterMap_map]
    rfl
  | _ => simp [members?] at h

theorem project?_index_of_members {node : Node} {ms : List Member} (h : node.members? = some ms)
    (index : Int) (rest : List Token) : node.project? (.index index :: rest) = none := by
  cases node <;> simp_all [members?, project?]

/-- Where no value is left over, each stands under a property. -/
theorem exists_field_of_mem {properties : List Property} {values : List Node} {value : Node}
    (complete : values.length = properties.length) (held : value ∈ values) :
    ∃ field ∈ properties.zip values, field.2 = value := by
  rw [← List.map_snd_zip (Nat.le_of_eq complete)] at held
  exact List.mem_map.mp held

end Node

/-! ### Editing the value behind a name -/

theorem Entries.exists_split_of_get? {α : Type} {key : String} {value : α} {entries : Entries α}
    (h : Entries.get? key entries = some value) :
    ∃ front back, entries = front ++ (key, value) :: back ∧
      ∀ new, Entries.insert key new entries = front ++ (key, new) :: back := by
  induction entries with
  | nil => simp at h
  | cons entry entries ih =>
    obtain ⟨k, v⟩ := entry
    rw [get?_cons] at h
    by_cases same : k = key
    · simp only [same, if_true, Option.some.injEq] at h
      subst same h
      exact ⟨[], entries, rfl, fun new => by simp [insert]⟩
    · rw [if_neg same] at h
      obtain ⟨front, back, rfl, inserted⟩ := ih h
      refine ⟨(k, v) :: front, back, rfl, fun new => ?_⟩
      simp [insert, same, inserted]

theorem Entries.sameName_of_findKey? {α : Type} {name key : String} {entries : Entries α}
    (h : Entries.findKey? name entries = some key) : sameName key name = true := by
  unfold findKey? at h
  split at h
  next =>
    cases h
    exact sameName_refl _
  next =>
    have named := List.find?_some h
    exact named

theorem Entries.resolve?_eq_some {α : Type} {name key : String} {value : α} {entries : Entries α}
    (h : Entries.resolve? name entries = some (key, value)) :
    sameName key name = true ∧ Entries.get? key entries = some value := by
  simp only [resolve?, Option.bind_eq_some_iff, Option.map_eq_some_iff, Prod.mk.injEq] at h
  obtain ⟨found, located, _, present, rfl, rfl⟩ := h
  exact ⟨sameName_of_findKey? located, present⟩

/-- A check that succeeds hands over the value it was given. -/
theorem Property.check_eq_ok {property : Property} {value checked : Node}
    (h : property.check value = .ok checked) :
    property.kind.accepts value = true ∧ checked = value := by
  unfold check at h
  split at h
  next accepted =>
    cases h
    exact ⟨accepted, rfl⟩
  next => cases h

/-- A change to one field goes to the first property of a name. -/
theorem modifyField_eq_ok {name : String} {change : Property → Node → Except ModelError Node}
    {properties : List Property} {values changed : List Node}
    (h : modifyField name change properties values = .ok changed) :
    ∃ front property value back new,
      properties.zip values = front ++ (property, value) :: back ∧
      properties.zip changed = front ++ (property, new) :: back ∧
      sameName property.name name = true ∧ change property value = .ok new ∧
      ∀ field ∈ front, sameName field.1.name name = false := by
  induction properties generalizing values changed with
  | nil => simp [modifyField] at h
  | cons property properties ih =>
    cases values with
    | nil => simp [modifyField] at h
    | cons value values =>
      unfold modifyField at h
      split at h
      next same =>
        -- The first property of the name is edited, and nothing after it is looked at.
        obtain ⟨new, done, ended⟩ := exists_ok_of_bind h
        cases ended
        exact ⟨[], property, value, properties.zip values, new, rfl, rfl, same, done, by simp⟩
      next other =>
        obtain ⟨rest, done, ended⟩ := exists_ok_of_bind h
        cases ended
        obtain ⟨front, p, v, back, new, before, after, named, edited, first⟩ := ih done
        refine ⟨(property, value) :: front, p, v, back, new, ?_, ?_, named, edited, ?_⟩
        · rw [List.zip_cons_cons, before, List.cons_append]
        · rw [List.zip_cons_cons, after, List.cons_append]
        · exact List.forall_mem_cons.mpr ⟨Bool.eq_false_iff.mpr other, first⟩

theorem findField?_of_split {name : String} {properties : List Property} {values : List Node}
    {field : Property × Node} {front back : List (Property × Node)}
    (split : properties.zip values = front ++ field :: back)
    (named : sameName field.1.name name = true)
    (first : ∀ other ∈ front, sameName other.1.name name = false) :
    findField? name properties values = some field := by
  rw [findField?_eq_find?]
  refine List.find?_eq_some_iff_append.mpr ⟨named, front, back, split, fun other held => ?_⟩
  rw [first other held]
  rfl

namespace Node

variable {name : String} {index : Nat} {edit : Edit} {old new before after : Node} {schema : Schema}
  {values : List Node} {entries : Entries Node}

theorem modifyMember_structured_eq_ok
    (h : modifyMember name edit (.structured schema values) = .ok after) :
    ∃ changed, modifyField name (fun _ value => edit value) schema.properties values = .ok changed ∧
      after = .structured schema changed := by
  obtain ⟨changed, done, ended⟩ := exists_ok_of_bind h
  cases ended
  exact ⟨changed, done, rfl⟩

theorem modifyMember_map_eq_ok (h : modifyMember name edit (.map entries) = .ok after) :
    ∃ key old new, Entries.resolve? name entries = some (key, old) ∧ edit old = .ok new ∧
      after = .map (Entries.insert key new entries) := by
  simp only [modifyMember] at h
  split at h
  next => cases h
  next key old located =>
    obtain ⟨new, done, ended⟩ := exists_ok_of_bind h
    cases ended
    exact ⟨key, old, new, located, done, rfl⟩

/-- The edit of a list that edits one of its items. -/
def atItem (list : String) (index : Nat) (edit : Edit) : Edit
  | .list element items =>
    match items[index]? with
    | none => .error (.indexOutOfRange list index items.length)
    | some item => do return .list element (items.set index (← edit item))
  | _ => .error (.invalidPath [.item list index])

theorem modifyItem_eq (list : String) (index : Nat) (edit : Edit) :
    modifyItem list index edit = modifyMember list (atItem list index edit) := rfl

theorem atItem_eq_ok (h : atItem name index edit old = .ok new) :
    ∃ element items item other, old = .list element items ∧ items[index]? = some item ∧
      edit item = .ok other ∧ new = .list element (items.set index other) := by
  cases old with
  | list element items =>
    simp only [atItem] at h
    split at h
    next => cases h
    next item found =>
      obtain ⟨other, done, ended⟩ := exists_ok_of_bind h
      cases ended
      exact ⟨element, items, item, other, rfl, found, done, rfl⟩
  | _ => cases h

theorem setField_structured_eq_ok {value : Node}
    (h : (structured schema values).setField name value = .ok after) :
    ∃ changed, modifyField name (fun property _ => property.check value) schema.properties values =
        .ok changed ∧ after = .structured schema changed := by
  obtain ⟨changed, done, ended⟩ := exists_ok_of_bind h
  cases ended
  exact ⟨changed, done, rfl⟩

/-- An edit behind a name changes the value of one member of that name, the one that a look-up of
the name finds, and nothing else. -/
theorem modifyMember_eq_ok (h : before.modifyMember name edit = .ok after) :
    ∃ front m back value, before.members? = some (front ++ m :: back) ∧
      after.members? = some (front ++ { m with value } :: back) ∧ m.named name = true ∧
      edit m.value = .ok value ∧ before.member? name = some m.value := by
  cases before with
  | structured schema values =>
    obtain ⟨changed, done, rfl⟩ := modifyMember_structured_eq_ok h
    obtain ⟨front, property, value, back, new, was, is, named, edited, first⟩ :=
      modifyField_eq_ok done
    refine ⟨front.map .ofField, .ofField (property, value), back.map .ofField, new,
      ?_, ?_, named, edited, ?_⟩
    · simp [members?, was]
    · simp [members?, is, Member.ofField]
    · simp [member?, findField?_of_split was named first, Member.ofField]
  | map entries =>
    obtain ⟨key, value, new, located, done, rfl⟩ := modifyMember_map_eq_ok h
    -- The entry keeps its place and the spelling of its key.
    obtain ⟨named, present⟩ := Entries.resolve?_eq_some located
    obtain ⟨front, back, rfl, inserted⟩ := Entries.exists_split_of_get? present
    refine ⟨front.map .ofEntry, .ofEntry (key, value), back.map .ofEntry, new,
      ?_, ?_, named, done, ?_⟩
    · simp [members?]
    · simp [members?, inserted, Member.ofEntry]
    · simp [member?, Entries.lookup?, located, Member.ofEntry]
  | _ => simp [modifyMember] at h

/-- Only a list has items, and only an item that it has can be edited. -/
theorem modifyItem_eq_ok (h : before.modifyItem name index edit = .ok after) :
    ∃ front m back element items old new, before.members? = some (front ++ m :: back) ∧
      after.members? =
        some (front ++ { m with value := .list element (items.set index new) } :: back) ∧
      m.named name = true ∧ m.value = .list element items ∧ items[index]? = some old ∧
      edit old = .ok new ∧ before.member? name = some m.value := by
  rw [modifyItem_eq] at h
  obtain ⟨front, m, back, value, was, is, named, edited, looked⟩ := modifyMember_eq_ok h
  obtain ⟨element, items, old, new, holds, found, done, rfl⟩ := atItem_eq_ok edited
  exact ⟨front, m, back, element, items, old, new, was, is, named, holds, found, done, looked⟩

end Node

end ModelFeed
