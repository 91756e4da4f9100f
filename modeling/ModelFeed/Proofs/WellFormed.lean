import ModelFeed.Proofs.ChangeLog
import ModelFeed.Proofs.Patching
/-!
# Well-formed models

In a well-formed model every structured node has one value for each property of its schema, each of
the property's kind, and every map tells the names of its entries apart. Mutations keep a model so,
whatever path they go and whether or not they are refused. Only the last step of an assignment puts
another kind of value somewhere, and that step checks it; what an edit merely passes through keeps
its shape, and with it the kind that its property asks for.
-/

namespace ModelFeed

namespace Entries

variable {α : Type} {entries : Entries α} {key name : String} {value : α}

theorem mem_keys_of_findKey? (h : findKey? name entries = some key) : key ∈ keys entries := by
  unfold findKey? at h
  split at h
  next spelled =>
    cases h
    exact spelled
  next => exact List.mem_of_find?_eq_some h

theorem mem_keys_of_resolve? (h : resolve? name entries = some (key, value)) :
    key ∈ keys entries :=
  mem_keys_of_mem (mem_of_get? (resolve?_eq_some h).2)

/-- A name that is not found is the name of no key. -/
theorem not_sameName_of_findKey? (h : findKey? name entries = none) {other : String}
    (held : other ∈ keys entries) : sameName other name = false := by
  unfold findKey? at h
  split at h
  next => cases h
  next =>
    rw [List.find?_eq_none] at h
    simpa using h other held

namespace NamesDistinct

/-- A value that takes the place of another leaves the names as they are. -/
theorem insert_of_mem (h : NamesDistinct entries) (present : key ∈ keys entries) (value : α) :
    NamesDistinct (insert key value entries) := by
  unfold NamesDistinct
  rwa [keys_insert_of_mem present]

/-- A value that is stored under the spelling found for its name brings no second spelling. -/
theorem insert_found (h : NamesDistinct entries) (name : String) (value : α) :
    NamesDistinct (insert ((findKey? name entries).getD name) value entries) := by
  cases located : findKey? name entries with
  | some key =>
    exact h.insert_of_mem (mem_keys_of_findKey? located) value
  | none =>
    have absent : name ∉ keys entries := fun held => by
      simpa using not_sameName_of_findKey? located held
    rw [Option.getD_none, insert_of_not_mem absent]
    simp only [NamesDistinct, keys, List.map_append, List.map_cons, List.map_nil]
    refine List.nodup_append.mpr ⟨h, by simp, ?_⟩
    rintro folded before _ last rfl
    obtain ⟨other, held, same⟩ := List.mem_map.mp before
    have apart := not_sameName_of_findKey? located held
    simp only [List.mem_singleton] at last
    simp [sameName, same, last] at apart

theorem erase (h : NamesDistinct entries) (key : String) : NamesDistinct (erase key entries) :=
  List.Nodup.sublist ((List.filter_sublist.map Prod.fst).map foldCase) h

end NamesDistinct

end Entries

/-! ### Well-formed nodes -/

namespace Node

/-- Whether a structured node has one value of the right kind for each property, and a map no name
twice. -/
def keepsSchema : Node → Bool
  | .structured schema values =>
    values.length == schema.properties.length && (structured schema values).keepsPropertyKinds
  | .map entries => decide (Entries.NamesDistinct entries)
  | _ => true

/-- Whether this holds at every depth. -/
def isWellFormed (node : Node) : Bool :=
  node.everywhere keepsSchema

variable {schema : Schema} {values changed items : List Node} {element : ElementKind}
  {entries : Entries Node} {old new before after value : Node} {name : String} {edit : Edit}

theorem isWellFormed_structured : (structured schema values).isWellFormed = true ↔
    values.length = schema.properties.length ∧
      (∀ field ∈ schema.properties.zip values, field.1.kind.accepts field.2 = true) ∧
      ∀ value ∈ values, value.isWellFormed = true := by
  simp [isWellFormed, everywhere_structured, keepsSchema, keepsPropertyKinds, List.all_eq_true,
    and_assoc]

theorem isWellFormed_list : (list element items).isWellFormed = true ↔
    ∀ item ∈ items, item.isWellFormed = true := by
  simp [isWellFormed, everywhere_list, keepsSchema]

theorem isWellFormed_map : (map entries).isWellFormed = true ↔
    Entries.NamesDistinct entries ∧ ∀ entry ∈ entries, entry.2.isWellFormed = true := by
  simp [isWellFormed, everywhere_map, keepsSchema]

/-- Containers of one shape: an edit that goes below a node leaves it what it was. -/
def SameShape : Node → Node → Prop
  | .structured schema _, .structured other _ => other = schema
  | .list element _, .list other _ => other = element
  | .map _, .map _ => True
  | _, _ => False

/-- A property that holds a container takes any other one of its shape. -/
theorem SameShape.accepts (shape : old.SameShape new) {kind : PropertyKind}
    (accepted : kind.accepts old = true) : kind.accepts new = true := by
  cases old <;> cases new <;>
    first
    | exact shape.elim
    | cases kind <;> simp_all [SameShape, PropertyKind.accepts, isScalar]

theorem SameShape.trans (ab : old.SameShape new) (bc : new.SameShape after) :
    old.SameShape after := by
  cases old <;> cases new <;> cases after <;>
    first
    | exact ab.elim
    | exact bc.elim
    | exact Eq.trans bc ab
    | trivial

theorem eq_structured_of_sameShape (shape : (structured schema values).SameShape after) :
    ∃ changed, after = structured schema changed := by
  cases after <;>
    first
    | exact shape.elim
    | exact ⟨_, by rw [show _ = schema from shape]⟩

end Node

/-! ### New nodes -/

theorem PropertyKind.accepts_default (kind : PropertyKind) :
    kind.accepts kind.default = true := by
  cases kind <;> simp [PropertyKind.default, PropertyKind.accepts, Schema.same, Node.emptyMap]

/-- Every default passes the check of its own property. -/
theorem Property.accepts_default : (property : Property) →
    property.kind.accepts property.default = true
  | ⟨_, kind, _⟩ => kind.accepts_default

theorem zip_defaultsOf {properties : List Property} {field : Property × Node}
    (h : field ∈ properties.zip (defaultsOf properties)) : field.2 = field.1.default := by
  induction properties with
  | nil => cases h
  | cons property properties ih =>
    rw [defaultsOf, List.zip_cons_cons] at h
    rcases List.mem_cons.mp h with rfl | later
    · rfl
    · exact ih later

mutual

theorem Schema.isWellFormed_new : (schema : Schema) → schema.new.isWellFormed = true
  | ⟨id, name, properties⟩ => by
    refine Node.isWellFormed_structured.mpr ⟨Schema.length_defaults _, fun field held => ?_,
      isWellFormed_defaultsOf properties⟩
    rw [zip_defaultsOf held]
    exact field.1.accepts_default

theorem isWellFormed_defaultsOf : (properties : List Property) →
    ∀ value ∈ defaultsOf properties, value.isWellFormed = true
  | [] => by simp [defaultsOf]
  | property :: properties => by
    intro value held
    rw [defaultsOf] at held
    rcases List.mem_cons.mp held with rfl | later
    · exact property.isWellFormed_default
    · exact isWellFormed_defaultsOf properties value later

theorem Property.isWellFormed_default : (property : Property) →
    property.default.isWellFormed = true
  | ⟨_, kind, _⟩ => kind.isWellFormed_default

theorem PropertyKind.isWellFormed_default : (kind : PropertyKind) →
    kind.default.isWellFormed = true
  | .scalar | .blob | .map | .list _ => rfl
  | .structured schema => schema.isWellFormed_new

end

/-! ### Edits -/

/-- A change to one field leaves a value for each property. -/
theorem length_modifyField {name : String} {change : Property → Node → Except ModelError Node}
    {properties : List Property} {values changed : List Node}
    (h : modifyField name change properties values = .ok changed) :
    changed.length = values.length := by
  induction properties generalizing values changed with
  | nil => simp [modifyField] at h
  | cons property properties ih =>
    cases values with
    | nil => simp [modifyField] at h
    | cons value values =>
      unfold modifyField at h
      split at h
      next =>
        obtain ⟨new, -, ended⟩ := exists_ok_of_bind h
        cases ended
        rfl
      next =>
        obtain ⟨rest, done, ended⟩ := exists_ok_of_bind h
        cases ended
        simp [ih done]

namespace Node

variable {schema : Schema} {values changed items : List Node} {element : ElementKind}
  {entries : Entries Node} {old new before after value : Node} {name : String} {edit : Edit}

/-- One field is changed, and what takes its place is of the property's kind and well formed. -/
theorem isWellFormed_modifyField {change : Property → Node → Except ModelError Node}
    (wellFormed : (structured schema values).isWellFormed = true)
    (changes : ∀ property old new, findField? name schema.properties values = some (property, old) →
      property.kind.accepts old = true → old.isWellFormed = true → change property old = .ok new →
      property.kind.accepts new = true ∧ new.isWellFormed = true)
    (h : modifyField name change schema.properties values = .ok changed) :
    (structured schema changed).isWellFormed = true := by
  obtain ⟨length, accepted, below⟩ := isWellFormed_structured.mp wellFormed
  obtain ⟨front, property, old, back, new, was, is, named, edited, first⟩ := modifyField_eq_ok h
  have field : (property, old) ∈ schema.properties.zip values := by simp [was]
  obtain ⟨accepts, whole⟩ := changes property old new (findField?_of_split was named first)
    (accepted _ field) (below old (List.of_mem_zip field).2) edited
  have kept : changed.length = schema.properties.length := (length_modifyField h).trans length
  -- Every field is the changed one or one that was there before.
  have fields : ∀ field ∈ schema.properties.zip changed,
      field = (property, new) ∨ field ∈ schema.properties.zip values := by
    rw [is, was]
    simp only [List.mem_append, List.mem_cons]
    tauto
  refine isWellFormed_structured.mpr ⟨kept, fun field held => ?_, fun value held => ?_⟩
  · rcases fields field held with rfl | before
    · exact accepts
    · exact accepted field before
  · obtain ⟨field, listed, rfl⟩ := exists_field_of_mem kept held
    rcases fields field listed with rfl | before
    · exact whole
    · exact below field.2 (List.of_mem_zip before).2

theorem isWellFormed_insert {key : String} (wellFormed : (map entries).isWellFormed = true)
    (distinct : Entries.NamesDistinct (Entries.insert key value entries))
    (whole : value.isWellFormed = true) :
    (map (Entries.insert key value entries)).isWellFormed = true := by
  refine isWellFormed_map.mpr ⟨distinct, fun entry held => ?_⟩
  rcases Entries.mem_insert held with rfl | before
  · exact whole
  · exact (isWellFormed_map.mp wellFormed).2 entry before

/-- An edit behind a name that leaves the shape of the value keeps the node well formed, and leaves
the shape of the node. -/
theorem isWellFormed_modifyMember (wellFormed : before.isWellFormed = true)
    (edits : ∀ old new, before.member? name = some old → old.isWellFormed = true →
      edit old = .ok new → new.isWellFormed = true ∧ old.SameShape new)
    (h : before.modifyMember name edit = .ok after) :
    after.isWellFormed = true ∧ before.SameShape after := by
  cases before with
  | structured schema values =>
    obtain ⟨changed, done, rfl⟩ := modifyMember_structured_eq_ok h
    refine ⟨isWellFormed_modifyField wellFormed ?_ done, rfl⟩
    intro property old new found accepted whole edited
    obtain ⟨whole, shape⟩ := edits old new (by simp [member?, found]) whole edited
    exact ⟨shape.accepts accepted, whole⟩
  | map entries =>
    obtain ⟨key, old, new, located, done, rfl⟩ := modifyMember_map_eq_ok h
    obtain ⟨distinct, below⟩ := isWellFormed_map.mp wellFormed
    have held := Entries.mem_of_get? (Entries.resolve?_eq_some located).2
    obtain ⟨whole, -⟩ := edits old new (by simp [member?, Entries.lookup?, located])
      (below _ held) done
    have present := Entries.mem_keys_of_resolve? located
    exact ⟨isWellFormed_insert wellFormed (distinct.insert_of_mem present new) whole, trivial⟩
  | _ => cases h

/-- So does an edit of an item, whatever shape the item gets: lists hold nodes of any shape. -/
theorem isWellFormed_modifyItem {index : Nat} (wellFormed : before.isWellFormed = true)
    (edits : ∀ old new, old.isWellFormed = true → edit old = .ok new → new.isWellFormed = true)
    (h : before.modifyItem name index edit = .ok after) :
    after.isWellFormed = true ∧ before.SameShape after := by
  rw [modifyItem_eq] at h
  refine isWellFormed_modifyMember wellFormed (fun old new _ whole edited => ?_) h
  obtain ⟨element, items, item, other, rfl, found, done, rfl⟩ := atItem_eq_ok edited
  have below := isWellFormed_list.mp whole
  refine ⟨isWellFormed_list.mpr fun member held => ?_, rfl⟩
  rcases List.mem_or_eq_of_mem_set held with before | rfl
  · exact below member before
  · exact edits item member (below item (List.mem_of_getElem? found)) done

/-- An edit at the end of a path. -/
theorem isWellFormed_modifyAt {parents : Path} (wellFormed : before.isWellFormed = true)
    (edits : ∀ old new, old.isWellFormed = true → edit old = .ok new →
      new.isWellFormed = true ∧ old.SameShape new)
    (h : before.modifyAt parents edit = .ok after) :
    after.isWellFormed = true ∧ before.SameShape after := by
  induction parents generalizing before after with
  | nil => exact edits before after wellFormed h
  | cons step parents ih =>
    cases step with
    | member name => exact isWellFormed_modifyMember wellFormed (fun _ _ _ => ih) h
    | item list index =>
      exact isWellFormed_modifyItem wellFormed (fun _ _ whole edited => (ih whole edited).1) h

/-- Only here a value may come to stand for one of another shape, and a property checks it. -/
theorem isWellFormed_assign (wellFormed : before.isWellFormed = true)
    (whole : value.isWellFormed = true) (h : assign name value before = .ok after) :
    after.isWellFormed = true ∧ before.SameShape after := by
  cases before with
  | structured schema values =>
    obtain ⟨changed, done, rfl⟩ := setField_structured_eq_ok h
    refine ⟨isWellFormed_modifyField wellFormed ?_ done, rfl⟩
    intro property old new _ _ _ checked
    obtain ⟨accepted, rfl⟩ := Property.check_eq_ok checked
    exact ⟨accepted, whole⟩
  | map entries =>
    cases h
    obtain ⟨distinct, -⟩ := isWellFormed_map.mp wellFormed
    exact ⟨isWellFormed_insert wellFormed (distinct.insert_found name value) whole, trivial⟩
  | _ => cases h

theorem isWellFormed_replaceChild {step : Step} (wellFormed : before.isWellFormed = true)
    (whole : value.isWellFormed = true) (h : replaceChild step value before = .ok after) :
    after.isWellFormed = true ∧ before.SameShape after := by
  cases step with
  | member name => exact isWellFormed_assign wellFormed whole h
  | item list index =>
    refine isWellFormed_modifyItem wellFormed (fun old new _ edited => ?_) h
    cases edited
    exact whole

theorem isWellFormed_pushChild {path : Path} {item : Node} (wellFormed : before.isWellFormed = true)
    (whole : item.isWellFormed = true) (h : pushChild path name item before = .ok after) :
    after.isWellFormed = true ∧ before.SameShape after := by
  refine isWellFormed_modifyMember wellFormed (fun old new _ below edited => ?_) h
  cases old with
  | list element items =>
    cases edited
    refine ⟨isWellFormed_list.mpr fun member held => ?_, rfl⟩
    rcases List.mem_append.mp held with before | last
    · exact isWellFormed_list.mp below member before
    · rwa [List.mem_singleton.mp last]
  | _ => cases edited

end Node

/-! ### Mutations -/

/-- The value that a mutation stores. -/
def Mutation.value? : Mutation → Option Node
  | .set _ value | .push _ value | .setGlobal _ value => some value
  | .removeGlobal _ => none

/-- A mutation that succeeds keeps the model well formed and leaves the shape of its root. -/
theorem Mutation.isWellFormed_of_apply {mutation : Mutation} {store after : Store} {changed : Path}
    (wellFormed : store.root.isWellFormed = true)
    (values : ∀ value, mutation.value? = some value → value.isWellFormed = true)
    (h : mutation.apply store = (after, .ok (some changed))) :
    after.root.isWellFormed = true ∧ store.root.SameShape after.root := by
  -- Setting a variable is an assignment.
  have assigned : ∀ {path value}, value.isWellFormed = true →
      store.set path value = (after, .ok changed) →
      after.root.isWellFormed = true ∧ store.root.SameShape after.root := by
    intro path value whole done
    obtain ⟨parents, last, -, -, edited, -⟩ := Store.set_eq_ok done
    exact Node.isWellFormed_modifyAt wellFormed
      (fun _ _ below => Node.isWellFormed_replaceChild below whole) edited
  cases mutation with
  | set path value => exact assigned (values value rfl) (eq_ok_of_map_some h)
  | setGlobal name value =>
    have done : store.set [.member Store.globals, .member name] value = (after, .ok changed) :=
      eq_ok_of_map_some h
    exact assigned (values value rfl) done
  | push path item =>
    obtain ⟨parents, name, -, -, edited, -⟩ := Store.push_eq_ok (eq_ok_of_map_some h)
    exact Node.isWellFormed_modifyAt wellFormed
      (fun _ _ below => Node.isWellFormed_pushChild below (values item rfl)) edited
  | removeGlobal name =>
    obtain ⟨entries, key, held, -, -, edited, -⟩ :=
      Store.removeGlobal_eq_some (eq_some_of_map_ok h)
    refine Node.isWellFormed_modifyMember wellFormed (fun old new looked below erased => ?_) edited
    rw [held, Option.some.injEq] at looked
    cases erased
    subst looked
    obtain ⟨distinct, inside⟩ := Node.isWellFormed_map.mp below
    exact ⟨Node.isWellFormed_map.mpr ⟨distinct.erase key, fun entry kept =>
      inside entry (List.mem_of_mem_filter kept)⟩, trivial⟩

namespace Store

variable {store : Store} {mutations front : List Mutation}

/-- A run of mutations, of which some may fail. -/
theorem isWellFormed_after (wellFormed : store.root.isWellFormed = true)
    (values : ∀ mutation ∈ mutations, ∀ value, mutation.value? = some value →
      value.isWellFormed = true) :
    (store.after mutations).root.isWellFormed = true ∧
      ((store.after mutations).root = store.root ∨
        store.root.SameShape (store.after mutations).root) := by
  induction mutations generalizing store with
  | nil => exact ⟨wellFormed, .inl rfl⟩
  | cons mutation mutations ih =>
    obtain ⟨value, values⟩ := List.forall_mem_cons.mp values
    rw [after_cons]
    cases reported : mutation.reported? store with
    | none =>
      rw [Mutation.apply_of_unreported reported]
      exact ih wellFormed values
    | some path =>
      obtain ⟨kept, shape⟩ :=
        mutation.isWellFormed_of_apply wellFormed value (Mutation.apply_of_reported reported)
      obtain ⟨whole, same | later⟩ := ih kept values
      · exact ⟨whole, .inr (same ▸ shape)⟩
      · exact ⟨whole, .inr (shape.trans later)⟩

/-- **The store keeps its model well formed.** Whatever well-formed values are set, pushed and
removed, wherever and with whatever success, the model is well formed after every mutation, and a
structured root keeps its schema. So it does from a new machine on. -/
theorem stays_wellFormed : blank.root.isWellFormed = true ∧
    ∀ {store : Store} {mutations front : List Mutation}, store.root.isWellFormed = true →
      (∀ mutation ∈ mutations, ∀ value, mutation.value? = some value →
        value.isWellFormed = true) → front <+: mutations →
      (store.after front).root.isWellFormed = true ∧
        ∀ schema values, store.root = .structured schema values →
          ∃ changed, (store.after front).root = .structured schema changed := by
  refine ⟨Machine.machine.isWellFormed_new, fun wellFormed values reached => ?_⟩
  obtain ⟨whole, shape⟩ := isWellFormed_after wellFormed fun mutation run =>
    values mutation (reached.subset run)
  refine ⟨whole, fun schema held root => ?_⟩
  rcases shape with same | shape
  · exact ⟨held, same.trans root⟩
  · rw [root] at shape
    exact Node.eq_structured_of_sameShape shape

/-- A variable is set in two spellings and removed in a third, a list is filled, and a property
refuses a value of another kind. -/
def spellingWrites : List Mutation :=
  [.setGlobal "a" (Machine.cpu.new), .setGlobal "A" (.bool true), .setGlobal "b" .emptyMap,
    .set [.member "state"] (.bool true), .push [.member "messages"] Machine.message.new,
    .set [.item "messages" 0, .member "content"] (.string "hello"), .removeGlobal "B"]

theorem stays_wellFormed_of_spellings :
    let reached := Store.blank.after spellingWrites
    Store.blank.root.isWellFormed = true ∧
      (∀ mutation ∈ spellingWrites, ∀ value, mutation.value? = some value →
        value.isWellFormed = true) ∧
      spellingWrites <+: spellingWrites ∧ Store.blank.root = Machine.machine.new ∧
      reached.sequence = 6 ∧ reached.get? [.member "global"] = some (.map [("a", .bool true)]) ∧
      reached.root.isWellFormed = true ∧
      ∃ changed, reached.root = .structured Machine.machine changed := by
  intro reached
  have values : ∀ mutation ∈ spellingWrites, ∀ value, mutation.value? = some value →
      value.isWellFormed = true := by
    simp only [spellingWrites, List.forall_mem_cons, Mutation.value?, Option.some.injEq,
      forall_eq', List.not_mem_nil, false_implies, implies_true, and_true, reduceCtorEq]
    decide +kernel
  obtain ⟨whole, schema⟩ :=
    stays_wellFormed.2 stays_wellFormed.1 values (List.prefix_refl spellingWrites)
  exact ⟨stays_wellFormed.1, values, List.prefix_refl _, rfl, by decide +kernel, by rfl, whole,
    schema _ _ rfl⟩

end Store

end ModelFeed
