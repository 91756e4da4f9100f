import ModelFeed.Proofs.Extracting
import ModelFeed.Proofs.RestrictedLookup
/-!
# Wildcards in a lookup

A lookup leads to one value, and a wildcard in its path is meant to lead nowhere. The index `-1` does
so everywhere. A name is looked up as it is spelled, though, and the names of variables, of plugins
and of what is inside a fragment are free: `*` and `**` find a key of that spelling like any other
key. So a lookup with a wildcard finds nothing unless the wildcard is a key at the place that it comes
to, and then it goes on from the value of this key.
-/

namespace ModelFeed

/-- Whether a token selects more than one value. -/
def Token.isWildcard : Token → Bool
  | .name text => text == "*" || text == "**"
  | .index wanted => wanted == everyIndex

/-! ### Names without letters -/

/-- A character that is no lower case letter is the lower case of itself only. -/
theorem eq_of_toLower {c d : Char} (caseless : d.isLower = false) (lower : c.toLower = d) :
    c = d := by
  unfold Char.toLower at lower
  split at lower
  next upper =>
    -- The lower case of a capital is a lower case letter.
    subst lower
    change (decide ('a'.val ≤ c.val + 32) && decide (c.val + 32 ≤ 'z'.val)) = false at caseless
    simp [UInt32.le_iff_toNat_le] at caseless upper
    omega
  next => exact lower

theorem eq_of_map_toLower {chars lower : List Char} (caseless : ∀ d ∈ lower, d.isLower = false)
    (folded : chars.map Char.toLower = lower) : chars = lower := by
  subst folded
  refine (List.map_id chars).symm.trans (List.map_congr_left fun c held => ?_)
  exact eq_of_toLower (caseless _ (List.mem_map_of_mem held)) rfl

/-- A name without letters has one spelling. -/
theorem eq_of_sameName {key name : String} (caseless : ∀ c ∈ foldCase name, c.isLower = false)
    (same : sameName key name = true) : key = name := by
  have ofKey := eq_of_map_toLower caseless ((sameName_iff key name).mp same)
  have ofName := eq_of_map_toLower caseless (show name.toList.map Char.toLower = _ from rfl)
  exact String.toList_inj.mp (ofKey.trans ofName.symm)

variable {text : String}

theorem sameName_wildcard (wild : (Token.name text).isWildcard = true) (key : String) :
    sameName key text = (key == text) := by
  rw [Bool.eq_iff_iff, beq_iff_eq]
  constructor
  · apply eq_of_sameName
    intro c held
    have star : c = '*' := by
      obtain rfl | rfl : text = "*" ∨ text = "**" := by simpa [Token.isWildcard] using wild
      · simpa [foldCase] using held
      · simpa [foldCase] using held
    rw [star]
    rfl
  · rintro rfl
    exact sameName_refl key

/-- A wildcard means the key that is spelled so, and no other. -/
theorem Entries.lookup?_wildcard {α : Type} (wild : (Token.name text).isWildcard = true)
    (entries : Entries α) : lookup? text entries = get? text entries := by
  rw [lookup?_eq_meant?, meant?, get?_eq_find?]
  -- What is spelled like a wildcard and what is of its name is the same.
  simp only [sameName_wildcard wild, Option.or_self]

namespace Found

/-- The value of the key that is spelled so. -/
def spelled? (text : String) : Found → Option Found
  | .node (.structured schema values) =>
    ((schema.properties.zip values).find? fun field => field.1.name == text).map fun field =>
      .node field.2
  | .node (.map entries) => (Entries.get? text entries).map .node
  | .node (.blob (.object members)) => (Entries.get? text members).map .json
  | .json (.object members) => (Entries.get? text members).map .json
  | _ => none

/-- What a lookup finds from here, when nothing is withheld. -/
def follow? (tokens : List Token) : Found → Option Found
  | .node value => value.follow? false tokens false
  | .json value => value.follow? false tokens false

theorem follow?_nil (place : Found) : place.follow? [] = some place := by
  cases place with
  | node value => exact value.follow?_nil
  | json value => rfl

theorem follow?_wildcard (wild : (Token.name text).isWildcard = true) (place : Found) :
    place.follow? [.name text] = place.spelled? text := by
  have ofObject (members : List (String × Json)) :
      (Entries.lookup? text members).bind (Json.follow? false [] · false) =
        (Entries.get? text members).map .json := by
    rw [Entries.lookup?_wildcard wild]
    cases Entries.get? text members <;> rfl
  cases place with
  | json value =>
    cases value with
    | object members => exact ofObject members
    | _ => rfl
  | node value =>
    cases value with
    | structured schema values =>
      simp only [follow?, Node.follow?, findField?_eq_find?, sameName_wildcard wild, spelled?]
      cases (schema.properties.zip values).find? fun field => field.1.name == text with
      | none => rfl
      | some field => simp [isVisible]
    | map entries =>
      simp only [follow?, Node.follow?, Entries.lookup?_wildcard wild, spelled?]
      cases Entries.get? text entries <;> simp [isVisible]
    | blob json =>
      cases json with
      | object members => exact ofObject members
      | _ => rfl
    | _ => rfl

/-- The index of every item is the index of none. -/
theorem follow?_everyIndex (place : Found) : place.follow? [.index Token.everyIndex] = none := by
  have ofArray {α : Type} (items : List α) : itemAt? items Token.everyIndex = none := rfl
  cases place with
  | json value => cases value <;> simp [follow?, Json.follow?, ofArray]
  | node value =>
    cases value with
    | blob json => cases json <;> simp [follow?, Node.follow?, Json.follow?, ofArray]
    | _ => simp [follow?, Node.follow?, ofArray]

end Found

/-! ### Taking a lookup apart -/

theorem Json.exists_next {token : Token} {rest : List Token} {json : Json}
    (found : (json.follow? false (token :: rest) false).isSome = true) : ∃ next : Json,
      ∀ other, json.follow? false (token :: other) false = next.follow? false other false := by
  cases token with
  | name text =>
    cases json with
    | object members =>
      cases meant : Entries.lookup? text members with
      | none => simp [follow?, meant] at found
      | some member => exact ⟨member, fun other => by simp [follow?, meant]⟩
    | _ => cases found
  | index wanted =>
    cases json with
    | array items =>
      cases placed : itemAt? items wanted with
      | none => simp [follow?, placed] at found
      | some item => exact ⟨item, fun other => by simp [follow?, placed, isVisible]⟩
    | _ => cases found

/-- A lookup that gets beyond its first token goes on from one place. A path that ends there is
followed so too; one that goes on is only if the first did, as not every property can be entered. -/
theorem Node.exists_next {token : Token} {rest : List Token} {node : Node}
    (found : (node.follow? false (token :: rest) false).isSome = true) : ∃ next : Found,
      ∀ other, (rest = [] → other = []) →
        node.follow? false (token :: other) false = next.follow? other := by
  cases token with
  | name text =>
    cases node with
    | structured schema values =>
      cases field : findField? text schema.properties values with
      | none => simp [follow?, field] at found
      | some entry =>
        obtain ⟨property, value⟩ := entry
        have entered : (rest.isEmpty || property.kind.isDescendable) = true := by
          by_contra closed
          simp only [follow?, field, Option.bind_some, if_neg closed] at found
          cases found
        refine ⟨.node value, fun other ends => ?_⟩
        -- A path may end in a property that cannot be entered.
        have still : (other.isEmpty || property.kind.isDescendable) = true := by
          rw [Bool.or_eq_true, List.isEmpty_iff] at entered ⊢
          exact entered.imp_left ends
        simp only [follow?, field, Option.bind_some, still, if_true, Bool.false_and,
          Bool.or_false, Found.follow?]
    | map entries =>
      cases meant : Entries.lookup? text entries with
      | none => simp [follow?, meant] at found
      | some value => exact ⟨.node value, fun other _ => by simp [follow?, meant, Found.follow?]⟩
    | blob json =>
      obtain ⟨next, goesOn⟩ := Json.exists_next found
      exact ⟨.json next, fun other _ => goesOn other⟩
    | _ => cases found
  | index wanted =>
    cases node with
    | list element items =>
      cases placed : itemAt? items wanted with
      | none => simp [follow?, placed] at found
      | some item =>
        exact ⟨.node item, fun other _ => by simp [follow?, placed, isVisible, Found.follow?]⟩
    | blob json =>
      obtain ⟨next, goesOn⟩ := Json.exists_next found
      exact ⟨.json next, fun other _ => goesOn other⟩
    | _ => cases found

namespace Found

variable {place found : Found}

theorem exists_next {token : Token} {rest : List Token}
    (reached : (place.follow? (token :: rest)).isSome = true) : ∃ next : Found,
      ∀ other, (rest = [] → other = []) → place.follow? (token :: other) = next.follow? other := by
  cases place with
  | node value => exact Node.exists_next reached
  | json value =>
    obtain ⟨next, goesOn⟩ := Json.exists_next reached
    exact ⟨.json next, fun other _ => goesOn other⟩

/-- What is found at the end of a path is found from each place on the way. -/
theorem exists_place {before after : List Token}
    (reached : place.follow? (before ++ after) = some found) :
    ∃ middle, place.follow? before = some middle ∧ middle.follow? after = some found := by
  induction before generalizing place with
  | nil => exact ⟨place, follow?_nil place, reached⟩
  | cons token before ih =>
    obtain ⟨next, goesOn⟩ := exists_next (Option.isSome_of_eq_some reached)
    obtain ⟨middle, first, later⟩ := ih ((goesOn _ id).symm.trans reached)
    have ends : before ++ after = [] → before = [] := fun ended => (List.append_eq_nil_iff.mp ended).1
    exact ⟨middle, (goesOn before ends).trans first, later⟩

end Found

theorem Node.follow?_of_resolve? {node : Node} {tokens : List Token} {restrictedOnly : Bool}
    {found : Found} (resolved : node.resolve? tokens restrictedOnly = some found) :
    (Found.node node).follow? tokens = some found := by
  have unrestricted : node.resolve? tokens false = some found := by
    cases restrictedOnly with
    | false => exact resolved
    | true => exact (resolve?_restricted_iff.mp resolved).1
  have nonempty : tokens ≠ [] := by
    rintro rfl
    cases unrestricted
  rwa [resolve?_of_ne_nil nonempty] at unrestricted

/-- **A lookup finds no wildcard but a key of that spelling.** With a wildcard anywhere in its path a
lookup finds nothing, unless the wildcard is a name, what comes before it leads to a place that has a
key of just this spelling, and the rest leads on from the value of this key. -/
theorem Node.resolve?_of_wildcard {wildcard : Token} (wild : wildcard.isWildcard = true)
    (node : Node) (before after : List Token) (restrictedOnly : Bool) :
    node.resolve? (before ++ wildcard :: after) restrictedOnly = none ∨
      ∃ text place value found, wildcard = .name text ∧
        node.follow? false before false = some place ∧ place.spelled? text = some value ∧
        value.follow? after = some found ∧
        node.resolve? (before ++ wildcard :: after) restrictedOnly = some found := by
  cases resolved : node.resolve? (before ++ wildcard :: after) restrictedOnly with
  | none => exact .inl rfl
  | some found =>
    right
    -- The path is cut before the wildcard and behind it.
    obtain ⟨place, reached, later⟩ := Found.exists_place (follow?_of_resolve? resolved)
    have split : place.follow? ([wildcard] ++ after) = some found := later
    obtain ⟨value, here, goesOn⟩ := Found.exists_place split
    cases wildcard with
    | index wanted =>
      obtain rfl : wanted = Token.everyIndex := by simpa [Token.isWildcard] using wild
      rw [Found.follow?_everyIndex] at here
      cases here
    | name text =>
      rw [Found.follow?_wildcard wild] at here
      exact ⟨text, place, value, found, rfl, reached, here, goesOn, rfl⟩

/-- The index of every tool leads nowhere, though that of the first leads to a name. -/
theorem Node.resolve?_of_wildcard_on_tools :
    let node : Node := .map [("tools", .blob (.array [.object [("name", .string "saw")]]))]
    (Token.index Token.everyIndex).isWildcard = true ∧
      node.resolve? [.name "tools", .index 0, .name "name"] false = some (.json (.string "saw")) ∧
      node.resolve? [.name "tools", .index Token.everyIndex, .name "name"] false = none := by
  intro node
  have wild : (Token.index Token.everyIndex).isWildcard = true := by decide
  refine ⟨wild, by rfl, ?_⟩
  obtain nothing | ⟨text, place, value, found, named, -⟩ :=
    resolve?_of_wildcard wild node [.name "tools"] [.name "name"] false
  · exact nothing
  · cases named

/-- A star finds the variable that is called so, and not the one before it. -/
theorem Node.star_found :
    let root := (WriteSession.applyAll { store := Store.blank } starWrites).1.store.root
    (Token.name "*").isWildcard = true ∧
      root.resolve? [.name "global", .name "*"] false =
        some (.node (.list .scalar [.bool true, .bool false])) :=
  ⟨by decide, by rfl⟩

end ModelFeed
