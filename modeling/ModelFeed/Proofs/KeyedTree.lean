import ModelFeed.Proofs.Extracting
import ModelFeed.Proofs.WellFormed
/-!
# Reading after writing

The store is a keyed tree. What was written at a path is read there, and a path that diverges from
the written one reads what it read before. Writing and reading resolve names on their own, so this
takes three facts about names: a value that is replaced leaves every name where it led, a new entry
is only led to by its own name, and so is one that is erased.

Paths diverge as sequences of names, in any case, and indices: a step to an item is a name and an
index, and neither path goes on where the other one ends.
-/

namespace ModelFeed

/-! ### Paths that diverge -/

/-- What a path goes through: names, and behind the name of a list an index. -/
inductive Place where
  | name (text : String)
  | index (value : Nat)

/-- What all ASCII case variants of a place share. -/
def Place.fold : Place → List Char ⊕ Nat
  | .name text => .inl (foldCase text)
  | .index i => .inr i

def Step.places : Step → List Place
  | .member name => [.name name]
  | .item list i => [.name list, .index i]

def Path.places (path : Path) : List Place :=
  path.flatMap Step.places

/-- Neither sequence of places begins with the other. -/
def Place.Apart (places others : List Place) : Prop :=
  ¬ places.map fold <+: others.map fold ∧ ¬ others.map fold <+: places.map fold

instance (places others : List Place) : Decidable (Place.Apart places others) :=
  inferInstanceAs (Decidable (_ ∧ _))

/-- Two paths that part before either of them ends. -/
def Path.Diverges (path other : Path) : Prop :=
  Place.Apart path.places other.places

instance (path other : Path) : Decidable (path.Diverges other) :=
  inferInstanceAs (Decidable (Place.Apart _ _))

namespace Place

variable {a b : Place} {as bs : List Place}

theorem not_apart_nil : ¬ Apart as [] :=
  fun apart => apart.2 List.nil_prefix

theorem nil_not_apart : ¬ Apart [] bs :=
  fun apart => apart.1 List.nil_prefix

theorem apart_cons : Apart (a :: as) (b :: bs) ↔ a.fold ≠ b.fold ∨ Apart as bs := by
  simp only [Apart, List.map_cons, List.cons_prefix_cons]
  by_cases same : a.fold = b.fold
  · simp [same]
  · simp [same, Ne.symm same]

theorem fold_name_eq_iff {text other : String} :
    fold (.name text) = fold (.name other) ↔ sameName text other = true := by
  simp [fold, sameName_iff]

end Place

namespace Path

theorem places_cons (step : Step) (path : Path) :
    places (step :: path) = step.places ++ places path := rfl

theorem places_concat (parents : Path) (last : Step) :
    places (parents ++ [last]) = places parents ++ last.places := by
  simp [places]

end Path

/-! ### Look-ups before and after -/

/-- Look-ups by name, when one value was replaced. The name finds the new value, and any other one
finds what it found, but for spellings of the name that led to the old value: they lead to the new
one. -/
structure Rewrites {α : Type} (name : String) (old new : α) (before after : String → Option α) :
    Prop where
  was : before name = some old
  is : after name = some new
  others (other : String) : after other = before other ∨
    sameName name other = true ∧ before other = some old ∧ after other = some new

theorem Rewrites.map {α β : Type} {name : String} {old new : α} {before after : String → Option α}
    (f : α → β) (h : Rewrites name old new before after) :
    Rewrites name (f old) (f new) (fun other => (before other).map f)
      (fun other => (after other).map f) where
  was := by rw [h.was, Option.map_some]
  is := by rw [h.is, Option.map_some]
  others other := by
    rcases h.others other with kept | ⟨named, was, is⟩
    · exact .inl (congrArg (Option.map f) kept)
    · exact .inr ⟨named, by rw [was, Option.map_some], by rw [is, Option.map_some]⟩

theorem rewrites_modifyField {name : String} {change : Property → Node → Except ModelError Node}
    {properties : List Property} {values changed : List Node}
    (h : modifyField name change properties values = .ok changed) :
    ∃ property old new, change property old = .ok new ∧
      Rewrites name (property, old) (property, new) (findField? · properties values)
        (findField? · properties changed) := by
  obtain ⟨front, property, old, back, new, before, after, named, edited, first⟩ :=
    modifyField_eq_ok h
  refine ⟨property, old, new, edited, findField?_of_split before named first,
    findField?_of_split after named first, fun other => ?_⟩
  simp only [findField?_eq_find?, before, after, List.find?_append]
  -- Another name may stop in front of the field, or at it, or look on behind it.
  cases front.find? fun field => sameName field.1.name other with
  | some field => exact .inl rfl
  | none =>
    simp only [Option.none_or, List.find?_cons]
    cases also : sameName property.name other with
    | true => exact .inr ⟨sameName_trans (sameName_symm named) also, rfl, rfl⟩
    | false => exact .inl rfl

namespace Entries

variable {α : Type} {entries others : Entries α} {key name : String} {old value : α}

theorem lookup?_eq_bind (name : String) (entries : Entries α) :
    lookup? name entries = (findKey? name entries).bind fun key => get? key entries := by
  rw [lookup?, resolve?]
  cases findKey? name entries with
  | none => rfl
  | some key =>
    rw [Option.bind_some, Option.bind_some, Option.map_map]
    exact Option.map_id' ..

/-- Which key a name means depends on the keys alone. -/
theorem findKey?_insert_of_mem (present : key ∈ keys entries) (value : α) (name : String) :
    findKey? name (insert key value entries) = findKey? name entries := by
  rw [findKey?, findKey?, keys_insert_of_mem present]

theorem rewrites_insert (h : resolve? name entries = some (key, old)) (value : α) :
    Rewrites name old value (lookup? · entries) (lookup? · (insert key value entries)) := by
  have present := mem_keys_of_resolve? h
  obtain ⟨named, found⟩ := resolve?_eq_some h
  have located : findKey? name entries = some key := by
    obtain ⟨k, there, pair⟩ := Option.bind_eq_some_iff.mp h
    obtain ⟨_, -, same⟩ := Option.map_eq_some_iff.mp pair
    rwa [← (Prod.mk.inj same).1]
  -- The entry keeps its key, so every name means the key that it meant.
  refine ⟨?_, ?_, fun other => ?_⟩
  · rw [lookup?_eq_bind, located, Option.bind_some, found]
  · rw [lookup?_eq_bind, findKey?_insert_of_mem present, located, Option.bind_some,
      get?_insert_self]
  · rw [lookup?_eq_bind, lookup?_eq_bind, findKey?_insert_of_mem present]
    cases means : findKey? other entries with
    | none => exact .inl rfl
    | some k =>
      by_cases same : key = k
      · subst same
        have also := sameName_of_findKey? means
        exact .inr ⟨sameName_trans (sameName_symm named) also, found, get?_insert_self ..⟩
      · exact .inl (get?_insert_of_ne same value entries)

/-- A look-up reads the entries of its name only. -/
theorem lookup?_filter (name : String) (entries : Entries α) :
    lookup? name (entries.filter fun entry => sameName entry.1 name) = lookup? name entries := by
  rw [lookup?_eq_meant?, lookup?_eq_meant?, meant?, meant?, List.find?_filter, List.find?_filter]
  -- Both searches, for the spelling and for the name, stop at entries of the name only.
  congr 3
  · funext entry
    by_cases spelled : entry.1 = name <;> simp [spelled]
  · funext entry
    simp

theorem lookup?_congr (same : (entries.filter fun entry => sameName entry.1 name) =
    others.filter fun entry => sameName entry.1 name) :
    lookup? name entries = lookup? name others := by
  rw [← lookup?_filter name entries, same, lookup?_filter]

theorem lookup?_insert_of_other {other : String} (apart : sameName key other = false) (value : α)
    (entries : Entries α) : lookup? other (insert key value entries) = lookup? other entries :=
  lookup?_congr (filter_insert (fun _ => apart) entries)

theorem lookup?_erase_of_other {other : String} (apart : sameName key other = false)
    (entries : Entries α) : lookup? other (erase key entries) = lookup? other entries := by
  apply lookup?_congr
  rw [erase, List.filter_filter]
  apply List.filter_congr
  rintro ⟨k, v⟩ -
  by_cases same : k = key
  · simp [same, apart]
  · simp [same]

/-- What is stored under the spelling found for a name, or else under the name, is found by it. -/
theorem lookup?_insert_found (name : String) (value : α) (entries : Entries α) :
    lookup? name (insert ((findKey? name entries).getD name) value entries) = some value := by
  cases located : findKey? name entries with
  | some key =>
    rw [Option.getD_some, lookup?_eq_bind, findKey?_insert_of_mem (mem_keys_of_findKey? located),
      located, Option.bind_some, get?_insert_self]
  | none =>
    have stored : get? name (insert name value entries) = some value := get?_insert_self ..
    have spelled : findKey? name (insert name value entries) = some name :=
      if_pos (mem_keys_of_mem (mem_of_get? stored))
    rw [Option.getD_none, lookup?_eq_bind, spelled, Option.bind_some, stored]

/-- Where names are told apart, no other spelling of an erased key is left. -/
theorem lookup?_erase (distinct : NamesDistinct entries) (located : findKey? name entries = some key) :
    lookup? name (erase key entries) = none := by
  rw [Option.eq_none_iff_forall_ne_some]
  intro value found
  obtain ⟨k, named, held⟩ := get?_of_lookup? found
  -- A key of the name that is left would be the one that was erased.
  obtain ⟨member, other⟩ := List.mem_filter.mp (mem_of_get? held)
  have same : k = key := distinct.eq (mem_keys_of_mem member) (mem_keys_of_findKey? located)
    (sameName_trans named (sameName_symm (sameName_of_findKey? located)))
  simp [same] at other

theorem erase_of_split {front back : Entries α} {value : α}
    (distinct : (keys (front ++ (key, value) :: back)).Nodup) :
    erase key (front ++ (key, value) :: back) = front ++ back := by
  -- The key stands there once, so neither side of it loses an entry.
  have before : key ∉ keys front := not_mem_keys_of_nodup distinct
  have after : key ∉ keys back := by
    rw [keys, List.map_append] at distinct
    exact (nodup_keys_cons.mp distinct.of_append_right).1
  have kept : ∀ {part : Entries α}, key ∉ keys part →
      part.filter (fun entry => entry.1 != key) = part := by
    intro part absent
    refine List.filter_eq_self.mpr fun entry held => ?_
    have other : entry.1 ≠ key := fun same => absent (same ▸ mem_keys_of_mem held)
    simpa using other
  rw [erase, List.filter_append, List.filter_cons_of_neg (by simp), kept before, kept after]

end Entries

namespace Node

variable {before after old new value : Node} {name : String} {edit : Edit} {places : List Place}

/-! ### One place after the other -/

def enter? : Place → Node → Option Node
  | .name text, node => node.member? text
  | .index i, node => node.item? i

/-- The node that a sequence of places leads to. -/
def reach? : List Place → Node → Option Node
  | [], node => some node
  | place :: places, node => (node.enter? place).bind (reach? places)

theorem get?_eq_reach? (path : Path) (node : Node) : node.get? path = node.reach? path.places := by
  induction path generalizing node with
  | nil => rfl
  | cons step path ih =>
    have below : get? path = reach? (Path.places path) := funext ih
    rw [get?_cons, below]
    cases step with
    | member name =>
      rw [child?_member]
      rfl
    | item list i =>
      rw [child?_item, Option.bind_assoc]
      rfl

theorem item?_of_member? (h : before.member? name = some value) (i : Nat) :
    before.item? i = none := by
  cases before <;> first | rfl | cases h

/-- Whatever is apart from the places leads to the same in both nodes. -/
def AgreeBeside (places : List Place) (before after : Node) : Prop :=
  ∀ other, Place.Apart places other → after.reach? other = before.reach? other

namespace AgreeBeside

/-- A replaced value is read by its name only, and below it the difference is further inside. -/
theorem of_rewrites (below : AgreeBeside places old new)
    (rewrites : Rewrites name old new before.member? after.member?) :
    AgreeBeside (.name name :: places) before after := by
  intro other apart
  match other with
  | [] => exact absurd apart Place.not_apart_nil
  | .index i :: rest =>
    -- What has members has no items, before and after.
    rw [reach?, reach?, enter?, enter?, item?_of_member? rewrites.was, item?_of_member? rewrites.is]
  | .name text :: rest =>
    rw [reach?, reach?, enter?, enter?]
    rcases rewrites.others text with kept | ⟨named, was, is⟩
    · rw [kept]
    · rw [was, is, Option.bind_some, Option.bind_some]
      -- The names are the same, so the paths part below them.
      refine below rest ((Place.apart_cons.mp apart).resolve_left fun differ => ?_)
      exact differ (Place.fold_name_eq_iff.mpr named)

/-- A node whose other names lead where they led. -/
theorem of_names (names : ∀ other, sameName name other = false →
      after.member? other = before.member? other) (items : ∀ i, after.item? i = before.item? i) :
    AgreeBeside [.name name] before after := by
  intro other apart
  match other with
  | [] => exact absurd apart Place.not_apart_nil
  | .index i :: rest => rw [reach?, reach?, enter?, enter?, items]
  | .name text :: rest =>
    have differ := (Place.apart_cons.mp apart).resolve_right Place.nil_not_apart
    have unlike : sameName name text = false :=
      Bool.eq_false_iff.mpr fun named => differ (Place.fold_name_eq_iff.mpr named)
    rw [reach?, reach?, enter?, enter?, names text unlike]

theorem of_items {element : ElementKind} {items changed : List Node} {i : Nat}
    (others : ∀ j, i ≠ j → changed[j]? = items[j]?)
    (here : ∀ rest, Place.Apart places rest →
      changed[i]?.bind (reach? rest) = items[i]?.bind (reach? rest)) :
    AgreeBeside (.index i :: places) (list element items) (list element changed) := by
  intro other apart
  match other with
  | [] => exact absurd apart Place.not_apart_nil
  | .name text :: rest => rfl
  | .index j :: rest =>
    change changed[j]?.bind (reach? rest) = items[j]?.bind (reach? rest)
    by_cases same : i = j
    · subst same
      exact here rest ((Place.apart_cons.mp apart).resolve_left fun differ => differ rfl)
    · rw [others j same]

theorem set {element : ElementKind} {items : List Node} {i : Nat} (found : items[i]? = some old)
    (below : AgreeBeside places old new) :
    AgreeBeside (.index i :: places) (list element items) (list element (items.set i new)) := by
  refine of_items (fun j other => List.getElem?_set_ne other) fun rest apart => ?_
  have inside := (List.getElem?_eq_some_iff.mp found).1
  rw [List.getElem?_set_self inside, found]
  exact below rest apart

theorem push (element : ElementKind) (items : List Node) (item : Node) :
    AgreeBeside [.index items.length] (list element items) (list element (items ++ [item])) := by
  refine of_items (fun j other => ?_) fun rest apart => absurd apart Place.nil_not_apart
  rcases Nat.lt_or_ge j items.length with inside | outside
  · rw [List.getElem?_append_left inside]
  · rw [List.getElem?_eq_none outside, List.getElem?_eq_none]
    rw [List.length_append, List.length_singleton]
    omega

end AgreeBeside

/-! ### Edits -/

theorem rewrites_modifyMember (h : before.modifyMember name edit = .ok after) :
    ∃ old new, edit old = .ok new ∧ Rewrites name old new before.member? after.member? := by
  cases before with
  | structured schema values =>
    obtain ⟨changed, done, rfl⟩ := modifyMember_structured_eq_ok h
    obtain ⟨property, old, new, edited, rewrites⟩ := rewrites_modifyField done
    exact ⟨old, new, edited, rewrites.map Prod.snd⟩
  | map entries =>
    obtain ⟨key, old, new, located, edited, rfl⟩ := modifyMember_map_eq_ok h
    exact ⟨old, new, edited, Entries.rewrites_insert located new⟩
  | _ => cases h

theorem rewrites_modifyItem {i : Nat} (h : before.modifyItem name i edit = .ok after) :
    ∃ element items old new, items[i]? = some old ∧ edit old = .ok new ∧
      Rewrites name (list element items) (list element (items.set i new)) before.member?
        after.member? := by
  rw [modifyItem_eq] at h
  obtain ⟨held, put, edited, rewrites⟩ := rewrites_modifyMember h
  obtain ⟨element, items, old, new, rfl, found, done, rfl⟩ := atItem_eq_ok edited
  exact ⟨element, items, old, new, found, done, rewrites⟩

/-- An edit behind one step is read behind that step, and nowhere else. -/
theorem reads_modifyChild {step : Step} (h : before.modifyChild step edit = .ok after) :
    ∃ old new, edit old = .ok new ∧ before.child? step = some old ∧ after.child? step = some new ∧
      ∀ places, AgreeBeside places old new → AgreeBeside (step.places ++ places) before after := by
  cases step with
  | member name =>
    obtain ⟨old, new, edited, rewrites⟩ := rewrites_modifyMember h
    refine ⟨old, new, edited, ?_, ?_, fun places below => below.of_rewrites rewrites⟩
    · rw [child?_member, rewrites.was]
    · rw [child?_member, rewrites.is]
  | item name i =>
    obtain ⟨element, items, old, new, found, edited, rewrites⟩ := rewrites_modifyItem h
    have inside := (List.getElem?_eq_some_iff.mp found).1
    refine ⟨old, new, edited, ?_, ?_, fun places below => (below.set found).of_rewrites rewrites⟩
    · rw [child?_item, rewrites.was]
      exact found
    · rw [child?_item, rewrites.is]
      exact List.getElem?_set_self inside

/-- An edit at the end of a path is read there, and nowhere else. -/
theorem reads_modifyAt {parents : Path} (h : before.modifyAt parents edit = .ok after) :
    ∃ old new, edit old = .ok new ∧ before.get? parents = some old ∧ after.get? parents = some new ∧
      ∀ places, AgreeBeside places old new →
        AgreeBeside (parents.places ++ places) before after := by
  induction parents generalizing before after with
  | nil => exact ⟨before, after, h, rfl, rfl, fun _ below => below⟩
  | cons step parents ih =>
    obtain ⟨inner, outer, below, was, is, beside⟩ := reads_modifyChild h
    obtain ⟨old, new, edited, had, has, within⟩ := ih below
    -- Agreement beside the rest of the path is one about the child, which the step carries up.
    refine ⟨old, new, edited, ?_, ?_, fun places agree => ?_⟩
    · rw [get?_cons, was, Option.bind_some, had]
    · rw [get?_cons, is, Option.bind_some, has]
    · rw [Path.places_cons, List.append_assoc]
      exact beside _ (within places agree)

theorem reads_assign (h : assign name value before = .ok after) :
    after.member? name = some value ∧ AgreeBeside [.name name] before after := by
  cases before with
  | structured schema values =>
    obtain ⟨changed, done, rfl⟩ := setField_structured_eq_ok h
    obtain ⟨property, old, new, checked, rewrites⟩ := rewrites_modifyField done
    obtain ⟨-, rfl⟩ := Property.check_eq_ok checked
    have written := rewrites.map Prod.snd
    refine ⟨written.is, .of_names (fun other unlike => ?_) fun _ => rfl⟩
    refine (written.others other).resolve_right ?_
    rintro ⟨named, -⟩
    rw [unlike] at named
    cases named
  | map entries =>
    cases h
    refine ⟨Entries.lookup?_insert_found name value entries, .of_names ?_ fun _ => rfl⟩
    intro other unlike
    refine Entries.lookup?_insert_of_other (Bool.eq_false_iff.mpr fun named => ?_) value entries
    -- The key that is written is a spelling of the name.
    have key := Entries.findKey?_getD_named name entries
    rw [sameName_trans (sameName_symm key) named] at unlike
    cases unlike
  | _ => cases h

theorem reads_replaceChild {step : Step} (h : replaceChild step value before = .ok after) :
    after.child? step = some value ∧ AgreeBeside step.places before after := by
  cases step with
  | member name =>
    rw [child?_member]
    exact reads_assign h
  | item name i =>
    obtain ⟨element, items, old, new, found, edited, rewrites⟩ := rewrites_modifyItem h
    cases edited
    have inside := (List.getElem?_eq_some_iff.mp found).1
    constructor
    · rw [child?_item, rewrites.is]
      exact List.getElem?_set_self inside
    · have below : AgreeBeside [] old value := fun other apart => absurd apart Place.nil_not_apart
      exact (below.set found).of_rewrites rewrites

theorem reads_pushChild {path : Path} {item : Node} (h : pushChild path name item before = .ok after) :
    ∃ element items, before.member? name = some (list element items) ∧
      after.member? name = some (list element (items ++ [item])) ∧
      AgreeBeside [.name name, .index items.length] before after := by
  obtain ⟨old, new, edited, rewrites⟩ := rewrites_modifyMember h
  cases old with
  | list element items =>
    cases edited
    exact ⟨element, items, rewrites.was, rewrites.is,
      (AgreeBeside.push element items item).of_rewrites rewrites⟩
  | _ => cases edited

theorem agreeBeside_erase (key : String) (entries : Entries Node) :
    AgreeBeside [.name key] (map entries) (map (Entries.erase key entries)) :=
  .of_names (fun _ unlike => Entries.lookup?_erase_of_other unlike entries) fun _ => rfl

end Node

namespace Store

variable {store after : Store} {path changed : Path} {value item : Node} {name : String}

/-! ### The mutations -/

/-- Every path that diverges from the changed one leads to what it led to. -/
def SameBeside (changed : Path) (store after : Store) : Prop :=
  ∀ other : Path, changed.Diverges other → after.get? other = store.get? other

theorem sameBeside_of_agree (agree : Node.AgreeBeside changed.places store.root after.root) :
    SameBeside changed store after := by
  intro other apart
  rw [get?, get?, Node.get?_eq_reach?, Node.get?_eq_reach?]
  exact agree (Path.places other) apart

theorem reads_set (h : store.set path value = (after, .ok changed)) :
    changed = path ∧ after.get? path = some value ∧ SameBeside changed store after := by
  obtain ⟨parents, last, rfl, rfl, edited, -⟩ := set_eq_ok h
  obtain ⟨old, new, replaced, -, has, beside⟩ := Node.reads_modifyAt edited
  obtain ⟨written, agree⟩ := Node.reads_replaceChild replaced
  refine ⟨rfl, ?_, sameBeside_of_agree ?_⟩
  · rw [get?, Node.get?_concat, has, Option.bind_some, written]
  · rw [Path.places_concat]
    exact beside last.places agree

theorem reads_push (h : store.push path item = (after, .ok changed)) :
    ∃ parents list element items, path = parents ++ [.member list] ∧
      changed = parents ++ [.item list items.length] ∧
      store.get? path = some (.list element items) ∧
      after.get? path = some (.list element (items ++ [item])) ∧
      after.get? changed = some item ∧ SameBeside changed store after := by
  obtain ⟨parents, list, rfl, rfl, edited, -⟩ := push_eq_ok h
  obtain ⟨old, new, pushed, had, has, beside⟩ := Node.reads_modifyAt edited
  obtain ⟨element, items, was, is, agree⟩ := Node.reads_pushChild pushed
  have before : store.get? (parents ++ [.member list]) = some (.list element items) := by
    rw [get?, Node.get?_concat, had, Option.bind_some, Node.child?_member, was]
  -- The reported index is the length of the list that the path led to.
  rw [before, Option.bind_some, Node.items?, Option.elim_some]
  refine ⟨parents, list, element, items, rfl, rfl, rfl, ?_, ?_, sameBeside_of_agree ?_⟩
  · rw [get?, Node.get?_concat, has, Option.bind_some, Node.child?_member, is]
  · rw [get?, Node.get?_concat, has, Option.bind_some, Node.child?_item, is, Option.bind_some,
      Node.item?, Node.items?, Option.bind_some, List.getElem?_concat_length]
  · rw [Path.places_concat]
    exact beside _ agree

theorem reads_removeGlobal (wellFormed : store.root.isWellFormed = true)
    (h : store.removeGlobal name = (after, some changed)) :
    after.get? [.member globals, .member name] = none ∧
      ∃ front key value back, sameName key name = true ∧
        changed = [.member globals, .member key] ∧
        store.get? [.member globals] = some (.map (front ++ (key, value) :: back)) ∧
        after.get? [.member globals] = some (.map (front ++ back)) ∧
        SameBeside changed store after := by
  obtain ⟨entries, key, held, located, rfl, edited, -⟩ := removeGlobal_eq_some h
  obtain ⟨old, new, replaced, rewrites⟩ := Node.rewrites_modifyMember edited
  cases replaced
  -- The map that was looked up is the one that was edited.
  obtain rfl : Node.map entries = old := Option.some.inj (held.symm.trans rewrites.was)
  have distinct : Entries.NamesDistinct entries :=
    (Node.isWellFormed_map.mp (Node.everywhere_of_member? wellFormed held)).1
  obtain ⟨value, found⟩ := Option.isSome_iff_exists.mp
    ((Entries.get?_isSome_iff key entries).mpr (Entries.mem_keys_of_findKey? located))
  obtain ⟨front, back, rfl, -⟩ := Entries.exists_split_of_get? found
  have erased := Entries.erase_of_split distinct.nodup
  have is := rewrites.is
  refine ⟨?_, front, key, value, back, Entries.sameName_of_findKey? located, rfl, ?_, ?_,
    sameBeside_of_agree ?_⟩
  · rw [get?, Node.get?_cons, Node.child?_member, is, Option.bind_some, Node.get?_cons,
      Node.child?_member, Node.member?, Entries.lookup?_erase distinct located, Option.bind_none]
  · rw [get?, Node.get?_cons, Node.child?_member, held, Option.bind_some, Node.get?_nil]
  · rw [get?, Node.get?_cons, Node.child?_member, is, erased, Option.bind_some, Node.get?_nil]
  · exact (Node.agreeBeside_erase key _).of_rewrites rewrites

/-- **The store obeys the laws of a keyed tree.** What was set at a path is there; an item that was
pushed is at the reported path, behind the items that were there; a variable that was removed is
gone, and the other ones keep their values and their order. Each time every path that diverges from
the reported one leads to what it led to. -/
theorem keyed_tree_laws (wellFormed : store.root.isWellFormed = true) :
    (∀ {path changed value after}, store.set path value = (after, .ok changed) →
      changed = path ∧ after.get? path = some value ∧ SameBeside changed store after) ∧
    (∀ {path changed item after}, store.push path item = (after, .ok changed) →
      ∃ parents list element items, path = parents ++ [.member list] ∧
        changed = parents ++ [.item list items.length] ∧
        store.get? path = some (.list element items) ∧
        after.get? path = some (.list element (items ++ [item])) ∧
        after.get? changed = some item ∧ SameBeside changed store after) ∧
    ∀ {name changed after}, store.removeGlobal name = (after, some changed) →
      after.get? [.member globals, .member name] = none ∧
        ∃ front key value back, sameName key name = true ∧
          changed = [.member globals, .member key] ∧
          store.get? [.member globals] = some (.map (front ++ (key, value) :: back)) ∧
          after.get? [.member globals] = some (.map (front ++ back)) ∧
          SameBeside changed store after :=
  ⟨reads_set, reads_push, reads_removeGlobal wellFormed⟩

/-- A list of scalars, a map and a flag as variables. -/
def toolWrites : List Mutation :=
  [.setGlobal "Tools" (.list .scalar [.bool true]), .setGlobal "b" .emptyMap,
    .setGlobal "c" (.bool true)]

theorem keyed_tree_laws_of_tools :
    let store := Store.blank.after toolWrites
    let tools : Path := [.member globals, .member "TOOLS"]
    let first : Path := [.member globals, .item "tools" 0]
    let second : Path := [.member globals, .item "TOOLS" 1]
    let b : Path := [.member globals, .member "b"]
    store.root.isWellFormed = true ∧ first.Diverges b ∧ first.Diverges second ∧
      (∃ after, store.set first (.bool false) = (after, .ok first) ∧
        after.get? first = some (.bool false) ∧ after.get? b = store.get? b) ∧
      (∃ after, store.push tools .null = (after, .ok second) ∧
        after.get? tools = some (.list .scalar [.bool true, .null]) ∧
        after.get? second = some .null ∧ after.get? first = store.get? first) ∧
      ∃ after, store.removeGlobal "B" = (after, some b) ∧
        after.get? [.member globals, .member "B"] = none ∧ after.get? first = store.get? first := by
  intro store tools first second b
  have wellFormed : store.root.isWellFormed = true := by decide +kernel
  obtain ⟨sets, pushes, removes⟩ := keyed_tree_laws wellFormed
  have held : store.get? tools = some (.list .scalar [.bool true]) := by rfl
  obtain ⟨replaced, set_⟩ : ∃ after, store.set first (.bool false) = (after, .ok first) := ⟨_, rfl⟩
  obtain ⟨longer, pushed⟩ : ∃ after, store.push tools .null = (after, .ok second) := ⟨_, rfl⟩
  obtain ⟨shorter, removed⟩ : ∃ after, store.removeGlobal "B" = (after, some b) := ⟨_, rfl⟩
  refine ⟨wellFormed, by decide, by decide, ⟨replaced, set_, ?_⟩, ⟨longer, pushed, ?_⟩,
    ⟨shorter, removed, ?_⟩⟩
  · obtain ⟨-, written, beside⟩ := sets set_
    exact ⟨written, beside b (by decide)⟩
  · obtain ⟨parents, list, element, items, -, -, was, is, last, beside⟩ := pushes pushed
    cases held.symm.trans was
    exact ⟨is, last, beside first (by decide)⟩
  · obtain ⟨gone, -, -, -, -, -, -, -, -, beside⟩ := removes removed
    exact ⟨gone, beside first (by decide)⟩

end Store

end ModelFeed
