import ModelFeed.Proofs.Members
/-!
# What holds at every depth

Most conditions on a model are about each of its nodes by itself: what a list of a kind may hold,
how names are told apart. Such a condition is a test of one node, asked of a node and of all that is
below it, and it passes from a node to its members and items. A test of documents is asked in the
same way.
-/

namespace ModelFeed

theorem sizeOf_snd_lt {α β : Type} [SizeOf α] [SizeOf β] (pair : α × β) :
    sizeOf pair.2 < sizeOf pair := by
  cases pair
  simp only [Prod.mk.sizeOf_spec]
  omega

/-- Induction over a document. -/
theorem Json.inductionOn {motive : Json → Prop}
    (scalar : ∀ json, json.isContainer = false → motive json)
    (array : ∀ items, (∀ item ∈ items, motive item) → motive (.array items))
    (object : ∀ members, (∀ member ∈ members, motive member.2) → motive (.object members)) :
    ∀ json, motive json
  | .null => scalar .null rfl
  | .bool b => scalar (.bool b) rfl
  | .number n => scalar (.number n) rfl
  | .string s => scalar (.string s) rfl
  | .array items => array items fun item _ => inductionOn scalar array object item
  | .object members => object members fun member _ => inductionOn scalar array object member.2
termination_by json => sizeOf json
decreasing_by
  · have smaller := List.sizeOf_lt_of_mem ‹item ∈ items›
    simp only [Json.array.sizeOf_spec]
    omega
  · have smaller := List.sizeOf_lt_of_mem ‹member ∈ members›
    have inside := sizeOf_snd_lt member
    simp only [Json.object.sizeOf_spec]
    omega

/-- Induction over a model: what is known of the values inside a node carries over to the node. -/
theorem Node.inductionOn {motive : Node → Prop}
    (scalar : ∀ node, node.isScalar = true → motive node)
    (structured : ∀ schema values, (∀ value ∈ values, motive value) →
      motive (.structured schema values))
    (list : ∀ element items, (∀ item ∈ items, motive item) → motive (.list element items))
    (map : ∀ entries, (∀ entry ∈ entries, motive entry.2) → motive (.map entries))
    (blob : ∀ json, motive (.blob json)) : ∀ node, motive node
  | .null => scalar .null rfl
  | .bool b => scalar (.bool b) rfl
  | .number n => scalar (.number n) rfl
  | .string s => scalar (.string s) rfl
  | .structured schema values =>
    structured schema values fun value _ => inductionOn scalar structured list map blob value
  | .list element items =>
    list element items fun item _ => inductionOn scalar structured list map blob item
  | .map entries => map entries fun entry _ => inductionOn scalar structured list map blob entry.2
  | .blob json => blob json
termination_by node => sizeOf node
decreasing_by
  · have smaller := List.sizeOf_lt_of_mem ‹value ∈ values›
    simp only [Node.structured.sizeOf_spec]
    omega
  · have smaller := List.sizeOf_lt_of_mem ‹item ∈ items›
    simp only [Node.list.sizeOf_spec]
    omega
  · have smaller := List.sizeOf_lt_of_mem ‹entry ∈ entries›
    have inside := sizeOf_snd_lt entry
    simp only [Node.map.sizeOf_spec]
    omega

mutual

/-- Whether a test holds of a node and of every node below it. -/
def Node.everywhere (test : Node → Bool) : Node → Bool
  | .structured schema values => test (.structured schema values) && allEverywhere test values
  | .list element items => test (.list element items) && allEverywhere test items
  | .map entries => test (.map entries) && entriesEverywhere test entries
  | leaf => test leaf

def allEverywhere (test : Node → Bool) : List Node → Bool
  | [] => true
  | node :: nodes => node.everywhere test && allEverywhere test nodes

def entriesEverywhere (test : Node → Bool) : List (String × Node) → Bool
  | [] => true
  | (_, node) :: entries => node.everywhere test && entriesEverywhere test entries

end

variable {test : Node → Bool}

theorem allEverywhere_iff {nodes : List Node} :
    allEverywhere test nodes = true ↔ ∀ node ∈ nodes, node.everywhere test = true := by
  induction nodes with
  | nil => simp [allEverywhere]
  | cons node nodes ih => simp [allEverywhere, ih]

theorem entriesEverywhere_iff {entries : List (String × Node)} :
    entriesEverywhere test entries = true ↔
      ∀ entry ∈ entries, entry.2.everywhere test = true := by
  induction entries with
  | nil => simp [entriesEverywhere]
  | cons entry entries ih =>
    obtain ⟨key, node⟩ := entry
    simp [entriesEverywhere, ih]

namespace Node

theorem everywhere_structured {schema : Schema} {values : List Node} :
    (structured schema values).everywhere test = true ↔
      test (.structured schema values) = true ∧ ∀ value ∈ values, value.everywhere test = true := by
  rw [everywhere, Bool.and_eq_true, allEverywhere_iff]

theorem everywhere_list {element : ElementKind} {items : List Node} :
    (list element items).everywhere test = true ↔
      test (.list element items) = true ∧ ∀ item ∈ items, item.everywhere test = true := by
  rw [everywhere, Bool.and_eq_true, allEverywhere_iff]

theorem everywhere_map {entries : List (String × Node)} :
    (map entries).everywhere test = true ↔
      test (.map entries) = true ∧ ∀ entry ∈ entries, entry.2.everywhere test = true := by
  rw [everywhere, Bool.and_eq_true, entriesEverywhere_iff]

theorem here_of_everywhere {node : Node} (h : node.everywhere test = true) : test node = true := by
  cases node with
  | structured schema values => exact (everywhere_structured.mp h).1
  | list element items => exact (everywhere_list.mp h).1
  | map entries => exact (everywhere_map.mp h).1
  | _ => exact h

theorem everywhere_of_member {node : Node} {ms : List Member} {m : Member}
    (h : node.everywhere test = true) (listed : node.members? = some ms) (member : m ∈ ms) :
    m.value.everywhere test = true := by
  cases node with
  | structured schema values =>
    simp only [members?, Option.some.injEq] at listed
    subst listed
    obtain ⟨⟨property, value⟩, field, rfl⟩ := List.mem_map.mp member
    exact (everywhere_structured.mp h).2 value (List.of_mem_zip field).2
  | map entries =>
    simp only [members?, Option.some.injEq] at listed
    subst listed
    obtain ⟨entry, held, rfl⟩ := List.mem_map.mp member
    exact (everywhere_map.mp h).2 entry held
  | _ => simp [members?] at listed

theorem everywhere_mono {weaker : Node → Bool} (implies : ∀ node, test node = true →
    weaker node = true) {node : Node} (h : node.everywhere test = true) :
    node.everywhere weaker = true := by
  induction node using inductionOn with
  | scalar node leaf =>
    have here := implies node (here_of_everywhere h)
    cases node <;> first | exact here | simp [isScalar] at leaf
  | structured schema values ih =>
    obtain ⟨here, below⟩ := everywhere_structured.mp h
    exact everywhere_structured.mpr
      ⟨implies _ here, fun value member => ih value member (below value member)⟩
  | list element items ih =>
    obtain ⟨here, below⟩ := everywhere_list.mp h
    exact everywhere_list.mpr ⟨implies _ here, fun item member => ih item member (below item member)⟩
  | map entries ih =>
    obtain ⟨here, below⟩ := everywhere_map.mp h
    exact everywhere_map.mpr
      ⟨implies _ here, fun entry member => ih entry member (below entry member)⟩
  | blob json => exact implies _ h

end Node

namespace Json

mutual

/-- Whether a test holds of a document and of every document inside it. -/
def everywhere (test : Json → Bool) : Json → Bool
  | .array items => test (.array items) && itemsEverywhere test items
  | .object members => test (.object members) && membersEverywhere test members
  | leaf => test leaf

def itemsEverywhere (test : Json → Bool) : List Json → Bool
  | [] => true
  | item :: items => item.everywhere test && itemsEverywhere test items

def membersEverywhere (test : Json → Bool) : List (String × Json) → Bool
  | [] => true
  | (_, value) :: members => value.everywhere test && membersEverywhere test members

end

variable {test : Json → Bool}

theorem itemsEverywhere_iff {items : List Json} :
    itemsEverywhere test items = true ↔ ∀ item ∈ items, item.everywhere test = true := by
  induction items with
  | nil => simp [itemsEverywhere]
  | cons item items ih => simp [itemsEverywhere, ih]

theorem membersEverywhere_iff {members : List (String × Json)} :
    membersEverywhere test members = true ↔
      ∀ member ∈ members, member.2.everywhere test = true := by
  induction members with
  | nil => simp [membersEverywhere]
  | cons member members ih =>
    obtain ⟨key, value⟩ := member
    simp [membersEverywhere, ih]

theorem everywhere_array {items : List Json} : (array items).everywhere test = true ↔
    test (.array items) = true ∧ ∀ item ∈ items, item.everywhere test = true := by
  rw [everywhere, Bool.and_eq_true, itemsEverywhere_iff]

theorem everywhere_object {members : List (String × Json)} :
    (object members).everywhere test = true ↔
      test (.object members) = true ∧ ∀ member ∈ members, member.2.everywhere test = true := by
  rw [everywhere, Bool.and_eq_true, membersEverywhere_iff]

end Json

end ModelFeed
