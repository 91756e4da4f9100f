import Mathlib.Data.List.Nodup
import ModelFeed.Proofs.Projecting
import ModelFeed.Proofs.Sameness
/-!
# What a part holds at a path

A name in a path means the first key of the name in any case. Where names are told apart whatever
their case, it means the same key in a model and in each of its parts. So a value that both a small
part and the model hold at a path is held at that path by every part in between.
-/

namespace ModelFeed

/-! ### Names told apart -/

namespace Entries

variable {α : Type} {entries : Entries α} {key name : String} {value : α}

/-- No two keys are the same name. -/
def NamesDistinct (entries : Entries α) : Prop :=
  ((keys entries).map foldCase).Nodup

instance (entries : Entries α) : Decidable (NamesDistinct entries) :=
  inferInstanceAs (Decidable (List.Nodup _))

theorem NamesDistinct.nodup (h : NamesDistinct entries) : (keys entries).Nodup :=
  h.of_map foldCase

theorem NamesDistinct.eq {other : String} (h : NamesDistinct entries) (held : key ∈ keys entries)
    (also : other ∈ keys entries) (same : sameName key other = true) : key = other :=
  List.inj_on_of_nodup_map h held also ((sameName_iff key other).mp same)

/-- Entries with keys of others only tell names apart as those do. -/
theorem NamesDistinct.of_subset {β : Type} {others : Entries β} (h : NamesDistinct others)
    (distinct : (keys entries).Nodup) (within : keys entries ⊆ keys others) :
    NamesDistinct entries := by
  refine List.Nodup.map_on (fun a held b also same => ?_) distinct
  exact h.eq (within held) (within also) ((sameName_iff a b).mpr same)

theorem get?_of_lookup? (h : lookup? name entries = some value) :
    ∃ key, sameName key name = true ∧ get? key entries = some value := by
  obtain ⟨⟨key, found⟩, resolved, rfl⟩ := Option.map_eq_some_iff.mp h
  exact ⟨key, resolve?_eq_some resolved⟩

theorem lookup?_of_get? (distinct : NamesDistinct entries) (named : sameName key name = true)
    (found : get? key entries = some value) : lookup? name entries = some value := by
  have held : key ∈ keys entries := mem_keys_of_mem (mem_of_get? found)
  -- Whether the name is spelled like a key or not, the key it leads to is the only one of the name.
  have located : findKey? name entries = some key := by
    unfold findKey?
    split
    next spelled => rw [distinct.eq held spelled named]
    next =>
      cases first : (keys entries).find? (sameName · name) with
      | none =>
        rw [List.find?_eq_none] at first
        exact absurd named (first key held)
      | some other =>
        have also := List.find?_some first
        have same := sameName_trans also (sameName_symm named)
        rw [distinct.eq (List.mem_of_find?_eq_some first) held same]
  simp [lookup?, resolve?, located, found]

end Entries

namespace Node

/-- Whether a node tells the names of its members apart. The keys of an object are told apart as
they are spelled. -/
def distinguishesNames : Node → Bool
  | .blob json => json.hasDistinctKeys
  | node => node.opened?.all fun entries => decide (Entries.NamesDistinct entries)

/-- Whether names are told apart at every depth. -/
def hasDistinctNames (node : Node) : Bool :=
  node.everywhere distinguishesNames

theorem hasDistinctKeys_of_names {node : Node} (names : node.hasDistinctNames = true) :
    node.hasDistinctKeys = true := by
  refine everywhere_mono (fun node here => ?_) names
  cases node with
  | blob json => exact here
  | structured schema values =>
    simp only [distinguishesNames, opened?, Option.all_some, decide_eq_true_eq] at here
    simpa [isKeyed, opened?] using here.nodup
  | map entries =>
    simp only [distinguishesNames, opened?, Option.all_some, decide_eq_true_eq] at here
    simpa [isKeyed, opened?] using here.nodup
  | _ => rfl

theorem namesDistinct_of_opened {node : Node} {ms : List Member} {named : Entries Node}
    (names : node.hasDistinctNames = true) (listed : node.members? = some ms)
    (opened : node.opened? = some named) : Entries.NamesDistinct named := by
  have here : node.distinguishesNames = true := here_of_everywhere names
  cases node with
  | blob json => cases listed
  | _ => simp_all [distinguishesNames]

/-- The value behind a name is that of a member of the name. -/
theorem exists_member_of_member? {node value : Node} {name : String}
    (h : node.member? name = some value) :
    ∃ ms m, node.members? = some ms ∧ m ∈ ms ∧ m.named name = true ∧ m.value = value := by
  cases node with
  | structured schema values =>
    obtain ⟨field, first, rfl⟩ := Option.map_eq_some_iff.mp h
    rw [findField?_eq_find?] at first
    refine ⟨_, .ofField field, rfl, List.mem_map_of_mem (List.mem_of_find?_eq_some first), ?_, rfl⟩
    simpa [Member.ofField, Member.named] using List.find?_some first
  | map entries =>
    obtain ⟨key, named, found⟩ := Entries.get?_of_lookup? h
    exact ⟨_, .ofEntry (key, value), rfl, List.mem_map_of_mem (Entries.mem_of_get? found), named, rfl⟩
  | _ => cases h

theorem opened?_of_members {node : Node} {ms : List Member} (listed : node.members? = some ms) :
    node.opened? = some (ms.map fun m => (m.key, m.value)) := by
  rw [opened?_eq, allMembers?_of_members listed, Option.map_some]

theorem get?_of_member? {node value : Node} {name : String} (h : node.member? name = some value) :
    ∃ ms named key, node.members? = some ms ∧ node.opened? = some named ∧
      sameName key name = true ∧ (key, value) ∈ named := by
  obtain ⟨ms, m, listed, member, named, rfl⟩ := exists_member_of_member? h
  exact ⟨ms, _, m.key, listed, opened?_of_members listed, named,
    List.mem_map.mpr ⟨m, member, rfl⟩⟩

theorem member?_of_get? {node value : Node} {ms : List Member} {named : Entries Node}
    {name key : String} (listed : node.members? = some ms) (opened : node.opened? = some named)
    (distinct : Entries.NamesDistinct named) (same : sameName key name = true)
    (held : (key, value) ∈ named) : node.member? name = some value := by
  cases node with
  | structured schema values =>
    cases opened
    obtain ⟨⟨property, old⟩, field, spelled⟩ := List.mem_map.mp held
    obtain ⟨rfl, rfl⟩ := Prod.mk.inj spelled
    have first : ∃ found, (schema.properties.zip values).find?
        (fun field => sameName field.1.name name) = some found := by
      rw [← Option.isSome_iff_exists, List.find?_isSome]
      exact ⟨_, field, same⟩
    obtain ⟨⟨other, new⟩, first⟩ := first
    -- The first property of the name is the only one.
    have also : (other.name, new) ∈ (schema.properties.zip values).map
        fun field => (field.1.name, field.2) :=
      List.mem_map.mpr ⟨_, List.mem_of_find?_eq_some first, rfl⟩
    have named : sameName other.name name = true := by simpa using List.find?_some first
    have one := distinct.eq (Entries.mem_keys_of_mem held) (Entries.mem_keys_of_mem also)
      (sameName_trans same (sameName_symm named))
    have value := Entries.get?_of_mem distinct.nodup held
    dsimp only at one
    rw [one, Entries.get?_of_mem distinct.nodup also] at value
    rw [member?, findField?_eq_find?, first]
    exact value
  | map entries =>
    cases opened
    exact Entries.lookup?_of_get? distinct same (Entries.get?_of_mem distinct.nodup held)
  | _ => cases listed

/-! ### Between a part and the whole -/

theorem partOf_member {part whole x z : Node} {name : String} (below : part.PartOf whole)
    (names : whole.hasDistinctNames = true) (hp : part.member? name = some x)
    (hw : whole.member? name = some z) : x.PartOf z := by
  obtain ⟨ms, named, key, listed, opened, -, held⟩ := get?_of_member? hw
  have keyed := hasDistinctKeys_of_names names
  have distinct := namesDistinct_of_opened names listed opened
  obtain ⟨-, inner, k, -, openedPart, same, heldPart⟩ := get?_of_member? hp
  -- The part is the whole, or a map whose key of the name is the key of the whole.
  rcases eq_or_map_of_opened below openedPart with rfl | rfl
  · obtain rfl := Option.some.inj (hp.symm.trans hw)
    exact .refl (hasDistinctKeys_of_opened keyed opened held)
  · obtain ⟨once, parts⟩ := (partOf_map_of_opened opened).mp below
    obtain ⟨other, found, within⟩ := parts k x (Entries.get?_of_mem once heldPart)
    have reached := member?_of_get? listed opened distinct same (Entries.mem_of_get? found)
    obtain rfl := Option.some.inj (reached.symm.trans hw)
    exact within

theorem member?_between {a b c x z : Node} {name : String} (ab : a.PartOf b) (bc : b.PartOf c)
    (names : c.hasDistinctNames = true) (ha : a.member? name = some x)
    (hc : c.member? name = some z) :
    ∃ y, b.member? name = some y ∧ x.PartOf y ∧ y.PartOf z := by
  have xz := partOf_member (ab.trans bc) names ha hc
  obtain ⟨-, inner, k, -, opened, same, held⟩ := get?_of_member? ha
  rcases eq_or_map_of_opened ab opened with rfl | rfl
  · exact ⟨x, ha, xz.left_refl, xz⟩
  · obtain ⟨once, named, openedB, parts⟩ := partOf_map.mp ab
    obtain ⟨y, found, xy⟩ := parts k x (Entries.get?_of_mem once held)
    -- The key that the smallest of the three has is in the middle one too.
    rcases eq_or_map_of_opened bc openedB with rfl | rfl
    · obtain ⟨-, _, _, _, openedC, -, heldC⟩ := get?_of_member? hc
      have keyed := hasDistinctKeys_of_names names
      exact ⟨z, hc, xz, .refl (hasDistinctKeys_of_opened keyed openedC heldC)⟩
    · obtain ⟨ms, further, _, listed, openedC, -, -⟩ := get?_of_member? hc
      obtain ⟨onceB, partsB⟩ := (partOf_map_of_opened openedC).mp bc
      have distinct := (namesDistinct_of_opened names listed openedC).of_subset onceB
        (keys_subset_of_parts partsB)
      have hb : (map named).member? name = some y := Entries.lookup?_of_get? distinct same found
      exact ⟨y, hb, xy, partOf_member bc names hb hc⟩

theorem item?_between {a b c x z : Node} {i : Nat} (ab : a.PartOf b) (bc : b.PartOf c)
    (distinct : c.hasDistinctKeys = true) (ha : a.item? i = some x) (hc : c.item? i = some z) :
    ∃ element y, b.item? i = some y ∧ SlotOf element x y ∧ SlotOf element y z := by
  cases a with
  | list element as =>
    replace ha : as[i]? = some x := ha
    obtain ⟨bs, opened, below⟩ := partOf_list.mp ab
    obtain ⟨y, found, xy⟩ := forall₂_getElem? below ha
    cases c with
    | list kind cs =>
      rcases eq_or_list_of_slots bc opened with rfl | rfl
      · cases opened
        obtain rfl := Option.some.inj (found.symm.trans hc)
        have inside := hasDistinctKeys_of_slots distinct rfl (List.mem_of_getElem? found)
        exact ⟨_, y, hc, xy, .inr ⟨.refl inside, id⟩⟩
      · obtain ⟨_, again, belowC⟩ := partOf_list.mp bc
        cases again
        obtain ⟨_, foundC, yz⟩ := forall₂_getElem? belowC found
        obtain rfl := Option.some.inj (foundC.symm.trans hc)
        exact ⟨_, y, found, xy, yz⟩
    | _ => cases hc
  | _ => cases ha

/-- What lies between two nodes, in one place or in one slot of them. -/
def Between (a b c : Node) : Prop :=
  a.PartOf b ∧ b.PartOf c ∨ ∃ element, SlotOf element a b ∧ SlotOf element b c

theorem child?_standIn {element : ElementKind} {item whole : Node}
    (standIn : whole.standIn? element = some item) (step : Step) : item.child? step = none := by
  rcases standIn?_eq_some standIn with rfl | ⟨rfl, -⟩ <;> rfl

theorem Between.parts {a b c x : Node} {step : Step} (between : Between a b c)
    (ha : a.child? step = some x) : a.PartOf b ∧ b.PartOf c := by
  rcases between with parts | ⟨element, ab, bc⟩
  · exact parts
  · -- A path leads nowhere from a stand-in.
    rcases ab with standIn | ⟨part, -⟩
    · rw [child?_standIn standIn] at ha
      cases ha
    · rcases bc with standIn | ⟨below, -⟩
      · rw [eq_of_partOf_standIn standIn part, child?_standIn standIn] at ha
        cases ha
      · exact ⟨part, below⟩

theorem everywhere_of_member? {test : Node → Bool} {node value : Node} {name : String}
    (h : node.everywhere test = true) (found : node.member? name = some value) :
    value.everywhere test = true := by
  obtain ⟨ms, m, listed, member, -, rfl⟩ := exists_member_of_member? found
  exact everywhere_of_member h listed member

theorem everywhere_of_child {test : Node → Bool} {node child : Node} {step : Step}
    (h : node.everywhere test = true) (found : node.child? step = some child) :
    child.everywhere test = true := by
  obtain ⟨value, member, inside⟩ := Option.bind_eq_some_iff.mp found
  have below := everywhere_of_member? h member
  cases step with
  | member name =>
    cases inside
    exact below
  | item list i =>
    cases value with
    | list element items => exact (everywhere_list.mp below).2 child (List.mem_of_getElem? inside)
    | _ => cases inside

theorem child?_between {a b c x z : Node} {step : Step} (between : Between a b c)
    (names : c.hasDistinctNames = true) (ha : a.child? step = some x)
    (hc : c.child? step = some z) : ∃ y, b.child? step = some y ∧ Between x y z := by
  obtain ⟨ab, bc⟩ := between.parts ha
  obtain ⟨valueA, memberA, insideA⟩ := Option.bind_eq_some_iff.mp ha
  obtain ⟨valueC, memberC, insideC⟩ := Option.bind_eq_some_iff.mp hc
  obtain ⟨valueB, memberB, xy, yz⟩ := member?_between ab bc names memberA memberC
  cases step with
  | member name =>
    cases insideA
    cases insideC
    exact ⟨valueB, by simp [child?, memberB], .inl ⟨xy, yz⟩⟩
  | item list i =>
    have distinct := hasDistinctKeys_of_names (everywhere_of_member? names memberC)
    obtain ⟨element, y, found, slots⟩ := item?_between xy yz distinct insideA insideC
    exact ⟨y, by simp [child?, memberB, found], .inr ⟨element, slots⟩⟩

/-- A value found at a path of two nodes is found there in all that lies between them. -/
theorem get?_between {a b c value : Node} {path : Path} (between : Between a b c)
    (names : c.hasDistinctNames = true) (ha : a.get? path = some value)
    (hc : c.get? path = some value) : ∃ found, b.get? path = some found ∧
      value.same found = true := by
  induction path generalizing a b c with
  | nil =>
    cases ha
    cases hc
    have distinct := hasDistinctKeys_of_names names
    refine ⟨b, rfl, ?_⟩
    -- At the end of the path the outer two are equal, and so they are equal to the middle.
    rcases between with ⟨ab, bc⟩ | ⟨element, ab, bc⟩
    · exact ab.same distinct bc
    · rcases ab.antisymm bc with rfl | ⟨part, back⟩
      · exact same_refl distinct
      · exact part.same distinct back
  | cons step path ih =>
    rw [get?_cons] at ha hc
    obtain ⟨x, childA, insideA⟩ := Option.bind_eq_some_iff.mp ha
    obtain ⟨z, childC, insideC⟩ := Option.bind_eq_some_iff.mp hc
    obtain ⟨y, childB, below⟩ := child?_between between names childA childC
    obtain ⟨found, reached, same⟩ := ih below (everywhere_of_child names childC) insideA insideC
    exact ⟨found, by rw [get?_cons, childB, Option.bind_some, reached], same⟩

end Node

end ModelFeed
