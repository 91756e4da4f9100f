import ModelFeed.Proofs.Addresses
/-!
# Looking up in a projection

A filter without wildcards selects one value, and a lookup of it finds that value. The projection
onto it keeps more: every member whose key is the name in some case, and lists of scalars as they
stand. In the projection the same lookup finds the same document, because what a name means does not
change when members are left out that it does not mean, and an item keeps its index.

The statements are about documents. In the model a lookup may end inside a fragment; in the
projection the fragment is a map or a list, and the value that was found there is a node.
-/

namespace ModelFeed

/-- Whether a token selects one value at most. -/
def Token.isExact : Token → Bool
  | .name text => text != "*" && text != "**"
  | .index wanted => decide (0 ≤ wanted)

theorem takesWhole_of_isExact {rest : List Token} (exact_ : ∀ token ∈ rest, token.isExact = true) :
    takesWhole rest = rest.isEmpty := by
  match rest with
  | [] => rfl
  | [.name text] =>
    have plain := exact_ (.name text) List.mem_cons_self
    simp only [Token.isExact, Bool.and_eq_true, bne_iff_ne] at plain
    simpa [takesWhole] using plain.2
  | [.index wanted] => rfl
  | _ :: _ :: _ => rfl

/-! ### What a name means -/

section

variable {γ δ : Type} {nameOf : γ → String} {newName : δ → String} {select : γ → Option δ}
  {list : List γ} {name : String} {c : γ} {d : δ}

/-- What a name means among named things: the one spelled so, or else the first of the name. -/
def meant? (nameOf : γ → String) (name : String) (list : List γ) : Option γ :=
  (list.find? fun c => nameOf c == name).or (list.find? fun c => sameName (nameOf c) name)

theorem mem_of_meant? (h : meant? nameOf name list = some c) : c ∈ list := by
  rcases Option.or_eq_some_iff.mp h with spelled | ⟨-, named⟩
  · exact List.mem_of_find?_eq_some spelled
  · exact List.mem_of_find?_eq_some named

theorem sameName_of_meant? (h : meant? nameOf name list = some c) :
    sameName (nameOf c) name = true := by
  rcases Option.or_eq_some_iff.mp h with spelled | ⟨-, named⟩
  · have same : nameOf c = name := by simpa using List.find?_some spelled
    rw [same]
    exact sameName_refl name
  · simpa using List.find?_some named

theorem meant?_map {α : Type} {f : α → γ} {list : List α} :
    meant? nameOf name (list.map f) = (meant? (fun a => nameOf (f a)) name list).map f := by
  rw [meant?, meant?, List.find?_map, List.find?_map, Option.map_or]
  rfl

/-- The first thing that passes a test is also the first that passes a stronger one, if it does. -/
theorem find?_of_stronger {p q : γ → Bool} (first : list.find? p = some c) (passes : q c = true)
    (implies : ∀ c, q c = true → p c = true) : list.find? q = some c := by
  obtain ⟨-, front, back, rfl, before⟩ := List.find?_eq_some_iff_append.mp first
  refine List.find?_eq_some_iff_append.mpr ⟨passes, front, back, rfl, fun other held => ?_⟩
  have fails := before other held
  cases test : q other with
  | false => rfl
  | true =>
    rw [implies other test] at fails
    cases fails

/-- The first thing that passes a test is the first one still, if it is kept. -/
theorem find?_filterMap_of_kept {p : γ → Bool} {q : δ → Bool}
    (same : ∀ c d, select c = some d → q d = p c) (first : list.find? p = some c)
    (kept : select c = some d) : (list.filterMap select).find? q = some d := by
  have passes : p c = true := List.find?_some first
  -- What is kept passes as it passed before, so nothing in front of the first one passes now.
  have again : (list.find? fun c => (select c).any q) = some c := by
    refine find?_of_stronger first (by simp [kept, same c d kept, passes]) fun other test => ?_
    cases selected : select other with
    | none => simp [selected] at test
    | some new =>
      rw [selected] at test
      rw [← same other new selected]
      exact test
  rw [List.find?_filterMap, again, Option.bind_some, kept]

/-- A name means among the things that are kept what it meant before, if that is kept. -/
theorem meant?_filterMap (names : ∀ c d, select c = some d → newName d = nameOf c)
    (h : meant? nameOf name list = some c) (kept : select c = some d) :
    meant? newName name (list.filterMap select) = some d := by
  have spelledSame : ∀ c d, select c = some d → (newName d == name) = (nameOf c == name) := by
    intro c d selected
    rw [names c d selected]
  rcases Option.or_eq_some_iff.mp h with spelled | ⟨unspelled, named⟩
  · rw [meant?, find?_filterMap_of_kept spelledSame spelled kept, Option.some_or]
  · -- Nothing was spelled like the name, so nothing that is kept is.
    have still : (list.filterMap select).find? (fun d => newName d == name) = none := by
      rw [List.find?_eq_none] at unspelled ⊢
      intro d held
      obtain ⟨c, before, selected⟩ := List.mem_filterMap.mp held
      rw [spelledSame c d selected]
      exact unspelled c before
    rw [meant?, still, Option.none_or]
    refine find?_filterMap_of_kept (fun c d selected => ?_) named kept
    rw [names c d selected]

/-- Where names are told apart in any case, the first thing of a name is what it means. -/
theorem meant?_of_nodup (distinct : (list.map fun c => foldCase (nameOf c)).Nodup) :
    meant? nameOf name list = list.find? fun c => sameName (nameOf c) name := by
  cases spelled : list.find? fun c => nameOf c == name with
  | none => rw [meant?, spelled, Option.none_or]
  | some c =>
    have same : nameOf c = name := by simpa using List.find?_some spelled
    have held := List.mem_of_find?_eq_some spelled
    -- What is spelled so is of the name, so there is a first thing of the name, and it is this one.
    obtain ⟨first, named⟩ : ∃ first, (list.find? fun c => sameName (nameOf c) name) = some first := by
      rw [← Option.isSome_iff_exists, List.find?_isSome]
      exact ⟨c, held, by rw [same]; exact sameName_refl name⟩
    have firstNamed : sameName (nameOf first) name = true := by simpa using List.find?_some named
    have one : first = c := by
      refine List.inj_on_of_nodup_map distinct (List.mem_of_find?_eq_some named) held ?_
      rw [same]
      exact (sameName_iff _ _).mp firstNamed
    rw [meant?, spelled, Option.some_or, named, one]

end

namespace Entries

variable {α : Type} {name key : String} {value : α} {entries : Entries α}

theorem get?_eq_find? (key : String) (entries : Entries α) :
    get? key entries = (entries.find? fun entry => entry.1 == key).map Prod.snd := by
  induction entries with
  | nil => rfl
  | cons entry entries ih =>
    obtain ⟨k, v⟩ := entry
    rw [get?_cons, List.find?_cons]
    by_cases same : k = key
    · simp [same]
    · have other : (k == key) = false := by simpa using same
      simp [same, other, ih]

theorem findKey?_eq_meant? (name : String) (entries : Entries α) :
    findKey? name entries = (meant? Prod.fst name entries).map Prod.fst := by
  rw [findKey?, meant?]
  split
  next spelled =>
    have nonempty := (get?_isSome_iff name entries).mpr spelled
    rw [get?_eq_find?, Option.isSome_map] at nonempty
    obtain ⟨entry, there⟩ := Option.isSome_iff_exists.mp nonempty
    have same : entry.1 = name := by simpa using List.find?_some there
    rw [there, Option.some_or, Option.map_some, same]
  next unspelled =>
    have absent : (entries.find? fun entry => entry.1 == name) = none := by
      refine List.find?_eq_none.mpr fun entry held same => unspelled ?_
      rw [← eq_of_beq same]
      exact mem_keys_of_mem held
    rw [absent, Option.none_or, keys, List.find?_map]
    rfl

/-- The entry that a name means is the first of its key. -/
theorem get?_of_meant? (h : meant? Prod.fst name entries = some (key, value)) :
    get? key entries = some value := by
  have first : (entries.find? fun entry => entry.1 == key) = some (key, value) := by
    rcases Option.or_eq_some_iff.mp h with spelled | ⟨-, named⟩
    · have same : key = name := by simpa using List.find?_some spelled
      rwa [same] at spelled ⊢
    · have ofName : sameName key name = true := by simpa using List.find?_some named
      refine find?_of_stronger named (beq_self_eq_true key) fun entry same => ?_
      rwa [eq_of_beq same]
  rw [get?_eq_find?, first, Option.map_some]

/-- A look-up finds what the name means. -/
theorem lookup?_eq_meant? (name : String) (entries : Entries α) :
    lookup? name entries = (meant? Prod.fst name entries).map Prod.snd := by
  rw [lookup?, resolve?, findKey?_eq_meant?]
  cases meant : meant? Prod.fst name entries with
  | none => rfl
  | some entry =>
    obtain ⟨key, value⟩ := entry
    rw [Option.map_some, Option.bind_some, get?_of_meant? meant]
    rfl

end Entries

/-! ### Models in which a name means one thing -/

/-- Whether no two properties of a schema are of one name. -/
def Schema.hasDistinctNames (schema : Schema) : Bool :=
  decide (schema.properties.map fun property => foldCase property.name).Nodup

namespace Node

/-- Whether a structured node tells its properties apart in any case. -/
def distinguishesProperties : Node → Bool
  | .structured schema _ => schema.hasDistinctNames
  | _ => true

/-- A model in which every node has each key once, and every schema each name once in any case. -/
structure Unambiguous (node : Node) : Prop where
  distinct : node.hasDistinctKeys = true
  properties : node.everywhere distinguishesProperties = true

variable {node : Node} {ms : List Member} {element : ElementKind} {slots : List Node}

theorem Unambiguous.of_member {m : Member} (clear : node.Unambiguous)
    (listed : node.allMembers? = some ms) (member : m ∈ ms) : m.value.Unambiguous := by
  refine ⟨hasDistinctKeys_of_member clear.distinct listed member, ?_⟩
  cases node with
  | blob json =>
    cases json with
    | object members =>
      cases listed
      obtain ⟨_, -, rfl⟩ := List.mem_map.mp member
      rfl
    | _ => cases listed
  | _ => exact everywhere_of_member clear.properties listed member

theorem Unambiguous.of_slot {slot : Node} (clear : node.Unambiguous)
    (opened : node.slots? = some (element, slots)) (held : slot ∈ slots) : slot.Unambiguous := by
  refine ⟨hasDistinctKeys_of_slots clear.distinct opened held, ?_⟩
  cases node with
  | list kind items =>
    cases opened
    exact (everywhere_list.mp clear.properties).2 slot held
  | blob json =>
    cases json with
    | array items =>
      cases opened
      obtain ⟨item, -, rfl⟩ := List.mem_map.mp held
      cases item <;> rfl
    | _ => cases opened
  | _ => cases opened

theorem map_fst_zip_sublist {α β : Type} (as : List α) (bs : List β) :
    ((as.zip bs).map Prod.fst).Sublist as := by
  induction as generalizing bs with
  | nil => exact List.nil_sublist _
  | cons a as ih =>
    cases bs with
    | nil => exact List.nil_sublist _
    | cons b bs => exact (ih bs).cons_cons a

theorem Unambiguous.nodup_fields {schema : Schema} {values : List Node}
    (clear : (structured schema values).Unambiguous) :
    ((schema.properties.zip values).map fun field => foldCase field.1.name).Nodup := by
  have here : schema.hasDistinctNames = true := here_of_everywhere clear.properties
  have apart : (schema.properties.map fun property => foldCase property.name).Nodup :=
    of_decide_eq_true here
  have within := (map_fst_zip_sublist schema.properties values).map
    fun property => foldCase property.name
  rw [List.map_map] at within
  exact apart.sublist within

/-! ### One token of a lookup -/

/-- The document that a lookup finds. -/
def document? (tokens : List Token) (node : Node) : Option Json :=
  (node.follow? false tokens false).map Found.toJson

theorem document?_nil (node : Node) : node.document? [] = some node.toJson := by
  rw [document?, follow?_nil]
  rfl

theorem document?_blob (tokens : List Token) (json : Json) :
    (blob json).document? tokens = (json.follow? false tokens false).map Found.toJson := by
  cases tokens with
  | nil => rw [document?_nil]; rfl
  | cons token rest => cases token <;> rfl

/-- A name leads to the member that it means, and further if the member may be entered. -/
theorem document?_name (clear : node.Unambiguous) (listed : node.allMembers? = some ms)
    (text : String) (rest : List Token) :
    node.document? (.name text :: rest) = (meant? Member.key text ms).bind fun m =>
      if rest.isEmpty || m.isOpen then m.value.document? rest else none := by
  cases node with
  | structured schema values =>
    cases listed
    rw [meant?_map, document?, follow?, findField?_eq_find?]
    simp only [Member.ofField]
    -- Properties are looked up in any case at once, which is the same as no name is there twice.
    rw [meant?_of_nodup clear.nodup_fields]
    cases (schema.properties.zip values).find? fun field => sameName field.1.name text with
    | none => rfl
    | some field =>
      simp only [Option.bind_some, Option.map_some, Bool.false_and, Bool.or_false, Member.ofField]
      split <;> rfl
  | map entries =>
    cases listed
    rw [meant?_map, document?, follow?, Entries.lookup?_eq_meant?]
    simp only [Member.ofEntry]
    cases meant? Prod.fst text entries with
    | none => rfl
    | some entry => simp [document?, Member.ofEntry]
  | blob json =>
    cases json with
    | object members =>
      cases listed
      rw [meant?_map, document?_blob, Json.follow?, Entries.lookup?_eq_meant?]
      cases meant? Prod.fst text members with
      | none => rfl
      | some member => simp [document?_blob]
    | _ => cases listed
  | _ => cases listed

theorem document?_name_of_closed (closed : node.allMembers? = none) (text : String)
    (rest : List Token) : node.document? (.name text :: rest) = none := by
  cases node with
  | blob json => cases json <;> first | rfl | cases closed
  | _ => first | rfl | cases closed

theorem document?_slot (tokens : List Token) (json : Json) :
    json.slot.document? tokens = (json.follow? false tokens false).map Found.toJson := by
  cases json with
  | null =>
    cases tokens with
    | nil => rfl
    | cons token rest => cases token <;> rfl
  | _ => exact document?_blob tokens _

theorem document?_index (opened : node.slots? = some (element, slots)) (wanted : Int)
    (rest : List Token) :
    node.document? (.index wanted :: rest) = (itemAt? slots wanted).bind (document? rest) := by
  have visible : isVisible false false = true := rfl
  cases node with
  | list kind items =>
    cases opened
    rw [document?, follow?, visible, if_pos rfl]
    cases itemAt? slots wanted <;> rfl
  | blob json =>
    cases json with
    | array items =>
      cases opened
      rw [document?_blob, Json.follow?, visible, if_pos rfl]
      have placed : itemAt? (items.map Json.slot) wanted = (itemAt? items wanted).map Json.slot := by
        cases wanted <;> simp [itemAt?, Int.toNat?]
      rw [placed]
      cases itemAt? items wanted with
      | none => rfl
      | some item => simp [document?_slot]
    | _ => cases opened
  | _ => cases opened

theorem document?_index_of_closed (closed : node.slots? = none) (wanted : Int)
    (rest : List Token) : node.document? (.index wanted :: rest) = none := by
  cases node with
  | blob json => cases json <;> first | rfl | cases closed
  | _ => first | rfl | cases closed

/-! ### The same lookup in the projection -/

/-- The member that a name means is kept under its key, and with it what the rest of the filter
leads to. -/
theorem exists_kept_member {m : Member} {text : String} {rest : List Token} {json : Json}
    (named : sameName m.key text = true) (exact_ : ∀ token ∈ rest, token.isExact = true)
    (entered : rest.isEmpty = true ∨ m.isOpen = true) (found : m.value.document? rest = some json)
    (below : rest ≠ [] → ∃ part, m.value.project? rest = some part ∧
      part.document? rest = some json) :
    ∃ value, m.project? (.name text) rest = some (m.key, value) ∧
      value.document? rest = some json := by
  have selects : (Token.name text).selectsName m.key = true := by
    simp [sameName_symm named]
  have whole := takesWhole_of_isExact exact_
  cases ended : rest.isEmpty with
  | true => exact ⟨m.value, Member.project?_whole selects (whole.trans ended), found⟩
  | false =>
    have isOpen := entered.resolve_left (by simp [ended])
    obtain ⟨part, projected, same⟩ := below (List.isEmpty_eq_false_iff.mp ended)
    exact ⟨part, Member.project?_inside selects (whole.trans ended) isOpen projected, same⟩

/-- The slot at an index that is in range holds the same document in the projection. -/
theorem exists_kept_slot {place : Node → Node} {slot : Node} {i : Nat} {rest : List Token}
    {json : Json} (found : slot.document? rest = some json)
    (below : rest ≠ [] → ∃ part, slot.project? rest = some part ∧ part.document? rest = some json) :
    (keepSlot place (some i) rest i slot).document? rest = some json := by
  by_cases null : slot.isNull = true
  · rwa [keepSlot_of_isNull null]
  · have here : (some i).any (· != i) = false := by simp
    rw [keepSlot, if_neg null, here, if_neg Bool.false_ne_true]
    split
    next => exact found
    next going =>
      obtain ⟨part, projected, same⟩ := below (by simpa using going)
      rwa [projected, Option.getD_some]

theorem document?_project? {tokens : List Token} {json : Json} (clear : node.Unambiguous)
    (exact_ : ∀ token ∈ tokens, token.isExact = true) (nonempty : tokens ≠ [])
    (h : node.document? tokens = some json) :
    ∃ part, node.project? tokens = some part ∧ part.document? tokens = some json := by
  induction tokens generalizing node with
  | nil => exact absurd rfl nonempty
  | cons token rest ih =>
    obtain ⟨here, later⟩ := List.forall_mem_cons.mp exact_
    cases token with
    | name text =>
      cases listed : node.allMembers? with
      | none => rw [document?_name_of_closed listed] at h; cases h
      | some ms =>
        rw [document?_name clear listed] at h
        obtain ⟨m, meant, below⟩ := Option.bind_eq_some_iff.mp h
        have member := mem_of_meant? meant
        split at below
        next entered =>
          obtain ⟨value, kept, same⟩ := exists_kept_member (sameName_of_meant? meant) later
            (by simpa using entered) below
            fun more => ih (clear.of_member listed member) later more below
          -- The members that are kept keep their keys, so none of them comes twice.
          have keys : ∀ (m : Member) (pair : String × Node),
              m.project? (.name text) rest = some pair → pair.1 = m.key :=
            fun m pair selected => (Member.project?_eq_some selected).2.1
          have once := Entries.nodup_keys_filterMap keys (nodup_member_keys clear.distinct listed)
          refine ⟨.map (ms.filterMap (Member.project? (.name text) rest)), ?_, ?_⟩
          · rw [project?_name_of_allMembers listed]
            exact selectedMembers?_of_mem once (List.mem_filterMap.mpr ⟨m, member, kept⟩)
          · rw [document?, follow?, Entries.lookup?_eq_meant?, meant?_filterMap keys meant kept]
            exact same
        next => cases below
    | index wanted =>
      cases opened : node.slots? with
      | none => rw [document?_index_of_closed opened] at h; cases h
      | some pair =>
        obtain ⟨element, slots⟩ := pair
        obtain ⟨i, rfl⟩ : ∃ i : Nat, wanted = i := Int.eq_ofNat_of_zero_le (of_decide_eq_true here)
        rw [document?_index opened, itemAt?_natCast] at h
        obtain ⟨slot, there, below⟩ := Option.bind_eq_some_iff.mp h
        have inside : i < slots.length := (List.getElem?_eq_some_iff.mp there).1
        rw [project?_index_eq opened, selectedIndex?_natCast inside, Option.map_some]
        refine ⟨_, rfl, ?_⟩
        split
        next =>
          rw [document?_index opened, itemAt?_natCast, there]
          exact below
        next =>
          rw [document?_index rfl, itemAt?_natCast, List.getElem?_mapIdx, there, Option.map_some,
            Option.bind_some]
          refine exists_kept_slot below fun more => ?_
          exact ih (clear.of_slot opened (List.mem_of_getElem? there)) later more below

/-- **A projection holds what a lookup finds.** If the lookup of a filter without wildcards finds a
value, the projection onto the filter exists, and in it the same lookup finds the same document. -/
theorem resolve?_project? {tokens : List Token} {found : Found} (clear : node.Unambiguous)
    (exact_ : ∀ token ∈ tokens, token.isExact = true)
    (h : node.resolve? tokens false = some found) :
    ∃ part also, node.project? tokens = some part ∧ part.resolve? tokens false = some also ∧
      also.toJson = found.toJson := by
  have nonempty : tokens ≠ [] := by
    rintro rfl
    cases h
  rw [resolve?_of_ne_nil nonempty] at h
  have document : node.document? tokens = some found.toJson := by
    rw [document?, h, Option.map_some]
  obtain ⟨part, projected, same⟩ := document?_project? clear exact_ nonempty document
  obtain ⟨also, reached, alike⟩ := Option.map_eq_some_iff.mp same
  exact ⟨part, also, projected, by rw [resolve?_of_ne_nil nonempty, reached], alike⟩

/-- Two variables whose names differ by case. One is a fragment in which keys do so too, the other a
list of scalars. -/
def spelledBoxes : Node :=
  .map [("Boxes", .blob (.array [.null,
      .object [("SIZE", .bool true), ("size", .array [.string "large"])]])),
    ("BOXES", .list .scalar [.bool true, .bool false])]

theorem resolve?_project?_of_boxes :
    let tokens : List Token := [.name "boxes", .index 1, .name "size"]
    let found : Found := .json (.array [.string "large"])
    spelledBoxes.Unambiguous ∧ (∀ token ∈ tokens, token.isExact = true) ∧
      spelledBoxes.resolve? tokens false = some found ∧
      ∃ part also, spelledBoxes.project? tokens = some part ∧
        part.resolve? tokens false = some also ∧ also.toJson = found.toJson := by
  intro tokens found
  have clear : spelledBoxes.Unambiguous := ⟨by decide +kernel, by decide +kernel⟩
  have exact_ : ∀ token ∈ tokens, token.isExact = true := by decide
  have held : spelledBoxes.resolve? tokens false = some found := by rfl
  exact ⟨clear, exact_, held, resolve?_project? clear exact_ held⟩

end Node

end ModelFeed
