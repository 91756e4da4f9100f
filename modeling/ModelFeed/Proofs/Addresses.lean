import ModelFeed.Proofs.Patching
/-!
# Paths as filters

A path addresses a node directly, and the filter of the path finds it by a lookup. The first goes
step by step and takes an item together with the name of its list; the second goes token by token,
asks what kind a property is before it enters it, and goes on into fragments, where no path leads.

Both name the same node. A property whose kind forbids to enter it holds a scalar, so there is
nothing to enter; and what a lookup finds inside a fragment is a document and never a node.
-/

namespace ModelFeed

/-- Inside a fragment a lookup finds documents only. -/
theorem Json.follow?_ne_node (restrictedOnly : Bool) (tokens : List Token) (json : Json)
    (crossed : Bool) (value : Node) :
    json.follow? restrictedOnly tokens crossed ≠ some (.node value) := by
  intro found
  induction tokens generalizing json with
  | nil =>
    unfold follow? at found
    split at found <;> cases found
  | cons token rest ih =>
    cases token with
    | name text =>
      cases json with
      | object members =>
        obtain ⟨member, -, inside⟩ := Option.bind_eq_some_iff.mp found
        exact ih member inside
      | _ => cases found
    | index wanted =>
      cases json with
      | array items =>
        unfold follow? at found
        split at found
        · obtain ⟨item, -, inside⟩ := Option.bind_eq_some_iff.mp found
          exact ih item inside
        · cases found
      | _ => cases found

namespace Node

variable {node value : Node} {text : String} {tokens rest : List Token}

theorem follow?_nil (node : Node) : node.follow? false [] false = some (.node node) := by
  cases node <;> rfl

theorem follow?_of_isScalar (leaf : node.isScalar = true) (more : tokens ≠ []) :
    node.follow? false tokens false = none := by
  obtain ⟨token, rest, rfl⟩ := List.exists_cons_of_ne_nil more
  cases node <;> cases token <;> first | rfl | cases leaf

/-- A lookup goes through the member that a path goes through. -/
theorem follow?_member {ms : List Member} (kinds : node.everywhere keepsPropertyKinds = true)
    (listed : node.members? = some ms) (text : String) (rest : List Token) :
    node.follow? false (.name text :: rest) false =
      (node.member? text).bind fun value => value.follow? false rest false := by
  cases node with
  | structured schema values =>
    rw [follow?, member?]
    cases found : findField? text schema.properties values with
    | none => rfl
    | some field =>
      obtain ⟨property, value⟩ := field
      simp only [Option.bind_some, Option.map_some, Bool.false_and, Bool.or_false]
      split
      next => rfl
      next closed =>
        -- The filter goes on, but below a property of a scalar kind there is nothing.
        simp only [Bool.or_eq_true, not_or, Bool.not_eq_true] at closed
        have held : (property, value) ∈ schema.properties.zip values := by
          rw [findField?_eq_find?] at found
          exact List.mem_of_find?_eq_some found
        have leaf : value.isScalar = true := by
          by_contra inner
          have isOpen := isOpen_of_member kinds rfl (List.mem_map_of_mem held)
            (Bool.eq_false_iff.mpr inner)
          rw [show property.kind.isDescendable = true from isOpen] at closed
          cases closed.2
        have more : rest ≠ [] := by
          rintro rfl
          cases closed.1
        exact (follow?_of_isScalar leaf more).symm
  | map entries => rfl
  | _ => cases listed

/-- No path leads through a node without members, and no lookup finds a node behind a name there. -/
theorem follow?_ne_node_of_members (none_ : node.members? = none) (text : String)
    (rest : List Token) : node.follow? false (.name text :: rest) false ≠ some (.node value) := by
  intro found
  cases node with
  | blob json => exact Json.follow?_ne_node _ _ _ _ _ found
  | structured schema values => cases none_
  | map entries => cases none_
  | _ => cases found

theorem member?_of_members (none_ : node.members? = none) (text : String) :
    node.member? text = none := by
  cases node <;> first | rfl | cases none_

/-- Behind an index a lookup finds the nodes that it finds in the item. -/
theorem follow?_item_iff {i : Nat} : node.follow? false (.index i :: rest) false =
      some (.node value) ↔
    ∃ item, node.item? i = some item ∧ item.follow? false rest false = some (.node value) := by
  cases node with
  | list element items =>
    have visible : isVisible false false = true := rfl
    simp only [follow?, visible, if_true, itemAt?_natCast, item?, items?, Option.bind_some,
      Option.bind_eq_some_iff]
  | blob json =>
    constructor
    · intro found
      exact absurd found (Json.follow?_ne_node _ _ _ _ _)
    · rintro ⟨item, there, -⟩
      cases there
  | _ => simp [follow?, item?, items?]

/-- The lookup of the filter of a path finds the nodes that the path leads to. -/
theorem follow?_tokens_iff {path : Path} (kinds : node.everywhere keepsPropertyKinds = true)
    (small : ∀ list i, Step.item list i ∈ path → i ≤ Token.maxIndex) :
    node.follow? false path.tokens false = some (.node value) ↔ node.get? path = some value := by
  induction path generalizing node with
  | nil => simp [follow?_nil]
  | cons step path ih =>
    have later : ∀ list i, Step.item list i ∈ path → i ≤ Token.maxIndex :=
      fun list i inside => small list i (List.mem_cons_of_mem _ inside)
    rw [Path.tokens_cons, get?_cons]
    cases listed : node.members? with
    | none =>
      rw [child?, member?_of_members listed, Option.bind_none, Option.bind_none]
      cases step <;> simp [Step.tokens, follow?_ne_node_of_members listed]
    | some ms =>
      -- Both go to the same member; the values below it are related by the induction hypothesis.
      cases step with
      | member name =>
        simp only [Step.tokens, List.cons_append, List.nil_append, child?_member,
          follow?_member kinds listed, Option.bind_eq_some_iff]
        exact exists_congr fun inner => and_congr_right fun found =>
          ih (everywhere_of_member? kinds found) later
      | item list i =>
        have exact_ : min i Token.maxIndex = i :=
          Nat.min_eq_left (small list i List.mem_cons_self)
        simp only [Step.tokens, List.cons_append, List.nil_append, exact_, child?_item,
          follow?_member kinds listed, Option.bind_assoc, Option.bind_eq_some_iff]
        refine exists_congr fun inner => and_congr_right fun found => ?_
        rw [follow?_item_iff]
        refine exists_congr fun item => and_congr_right fun there => ?_
        have entered : node.child? (.item list i) = some item := by
          rw [child?_item, found, Option.bind_some, there]
        exact ih (everywhere_of_child kinds entered) later

end Node

/-- **A path and its filter name the same node.** Of a path that is not empty, with indices that fit
into a token, the store holds a node at its end exactly when the lookup of its filter finds this
node. Names may be spelled in any case, and be those of wildcards. -/
theorem Store.get?_eq_some_iff_resolve? {store : Store} {path : Path}
    (kinds : store.root.everywhere Node.keepsPropertyKinds = true) (nonempty : path ≠ [])
    (small : ∀ list i, Step.item list i ∈ path → i ≤ Token.maxIndex) (value : Node) :
    store.get? path = some value ↔
      store.root.resolve? path.tokens false = some (.node value) := by
  have more : path.tokens ≠ [] := fun ended => nonempty (Node.Path.tokens_eq_nil_iff.mp ended)
  rw [Node.resolve?_of_ne_nil more]
  exact (Node.follow?_tokens_iff kinds small).symm

/-- A variable with the name of a wildcard, and one more for the wildcard to match. -/
def starWrites : List Mutation :=
  [.setGlobal "first" (.list .scalar [.bool true]),
    .setGlobal "*" (.list .scalar [.bool true, .bool false])]

theorem Store.get?_eq_some_iff_resolve?_of_star :
    let store := (WriteSession.applyAll { store := Store.blank } starWrites).1.store
    let path : Path := [.member "GLOBAL", .item "*" 1]
    store.root.everywhere Node.keepsPropertyKinds = true ∧ path ≠ [] ∧
      (∀ list i, Step.item list i ∈ path → i ≤ Token.maxIndex) ∧
      store.get? path = some (.bool false) ∧
      store.root.resolve? path.tokens false = some (.node (.bool false)) := by
  intro store path
  have kinds : store.root.everywhere Node.keepsPropertyKinds = true := by decide +kernel
  have nonempty : path ≠ [] := by decide
  have small : ∀ list i, Step.item list i ∈ path → i ≤ Token.maxIndex := by
    intro list i inside
    obtain ⟨-, rfl⟩ : list = "*" ∧ i = 1 := by simpa [path] using inside
    decide
  have held : store.get? path = some (.bool false) := by rfl
  exact ⟨kinds, nonempty, small, held,
    (get?_eq_some_iff_resolve? kinds nonempty small (.bool false)).mp held⟩

end ModelFeed
