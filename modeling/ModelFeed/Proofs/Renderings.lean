import Mathlib.Logic.Relation
import ModelFeed.Machine
import ModelFeed.Proofs.Documents
import ModelFeed.Proofs.Reordering
/-!
# Both renderings are one document

A node is written with its members in the order in which it has them, and its document has them
sorted. The text is that of a document in node order, which becomes the document of the node when
its objects are sorted. So the reader gets the same document from the text of a node as from the
text of any other order of its members, as long as the node nests no deeper than the reader goes.
-/

namespace ModelFeed

namespace Node

/-! ### The document in node order -/

mutual

/-- The document of a node with all members in node order. -/
def document : Node → Json
  | .null => .null
  | .bool b => .bool b
  | .number n => .number n
  | .string s => .string s
  | .structured schema values => .object (documentFields schema.properties values)
  | .list _ items => .array (documentItems items)
  | .map entries => .object (documentEntries entries)
  | .blob json => json

def documentItems : List Node → List Json
  | [] => []
  | item :: items => item.document :: documentItems items

def documentEntries : List (String × Node) → List (String × Json)
  | [] => []
  | (key, value) :: entries => (key, value.document) :: documentEntries entries

def documentFields : List Property → List Node → List (String × Json)
  | property :: properties, value :: values =>
    (property.name, value.document) :: documentFields properties values
  | _, _ => []

end

mutual

/-- A node is written as its document in node order. -/
theorem chars_document : (node : Node) → node.document.chars = node.chars
  | .null | .bool _ | .number _ | .string _ | .blob _ => rfl
  | .structured schema values => by
    rw [document, Json.chars, chars, membersChars_documentFields]
  | .list _ items => by rw [document, Json.chars, chars, itemsChars_documentItems]
  | .map entries => by rw [document, Json.chars, chars, membersChars_documentEntries]

theorem itemsChars_documentItems : (items : List Node) →
    Json.itemsChars (documentItems items) = itemsChars items
  | [] => rfl
  | item :: items => by
    rw [documentItems, Json.itemsChars, itemsChars, chars_document item,
      itemsChars_documentItems items]

theorem membersChars_documentEntries : (entries : List (String × Node)) →
    Json.membersChars (documentEntries entries) = entriesChars entries
  | [] => rfl
  | (key, value) :: entries => by
    rw [documentEntries, Json.membersChars, entriesChars, chars_document value,
      membersChars_documentEntries entries]

theorem membersChars_documentFields : (properties : List Property) → (values : List Node) →
    Json.membersChars (documentFields properties values) = fieldsChars properties values
  | [], _ | _ :: _, [] => by simp [documentFields, fieldsChars, Json.membersChars]
  | property :: properties, value :: values => by
    rw [documentFields, Json.membersChars, fieldsChars, chars_document value,
      membersChars_documentFields properties values]

end

theorem documentItems_eq (items : List Node) : documentItems items = items.map document := by
  induction items with
  | nil => rfl
  | cons item items ih => rw [documentItems, ih, List.map_cons]

theorem documentEntries_eq (entries : List (String × Node)) :
    documentEntries entries = entries.map fun entry => (entry.1, entry.2.document) := by
  induction entries with
  | nil => rfl
  | cons entry entries ih =>
    obtain ⟨key, value⟩ := entry
    rw [documentEntries, ih, List.map_cons]

theorem documentFields_eq (properties : List Property) (values : List Node) :
    documentFields properties values =
      (properties.zip values).map fun field => (field.1.name, field.2.document) := by
  induction properties generalizing values with
  | nil => simp [documentFields]
  | cons property properties ih => cases values <;> simp [documentFields, ih]

/-- Sorted, the document in node order is the document of the node. -/
theorem canonical_document {node : Node} (blobs : node.blobsAreCanonical = true) :
    node.document.canonical = node.toJson := by
  -- Both sort the members of an object after what is inside them, so only fragments, which the
  -- node takes as they stand, have to be sorted before.
  induction node using inductionOn with
  | scalar node leaf => cases node <;> first | rfl | cases leaf
  | structured schema values ih =>
    have inside := (everywhere_structured.mp blobs).2
    rw [document, Json.canonical, documentFields_eq, Json.canonicalMembers_eq, List.map_map, toJson,
      jsonFields_eq]
    refine congrArg Json.ofMembers (List.map_congr_left fun field listed => ?_)
    have member := (List.of_mem_zip listed).2
    exact congrArg (Prod.mk field.1.name) (ih field.2 member (inside field.2 member))
  | list element items ih =>
    have inside := (everywhere_list.mp blobs).2
    rw [document, Json.canonical, documentItems_eq, Json.canonicalItems_eq, List.map_map, toJson,
      jsonItems_eq]
    exact congrArg Json.array (List.map_congr_left fun item held => ih item held (inside item held))
  | map entries ih =>
    have inside := (everywhere_map.mp blobs).2
    rw [document, Json.canonical, documentEntries_eq, Json.canonicalMembers_eq, List.map_map, toJson,
      jsonEntries_eq]
    refine congrArg Json.ofMembers (List.map_congr_left fun entry held => ?_)
    exact congrArg (Prod.mk entry.1) (ih entry held (inside entry held))
  | blob json => exact Json.canonical_eq_self blobs

/-! ### Nodes within the reach of the reader -/

/-- Whether no floating point number stands here. -/
def keepsIntegers : Node → Bool
  | .number (.float _) => false
  | .blob json => json.hasIntegersOnly
  | _ => true

/-- Whether all numbers in a model are integers. -/
def hasIntegersOnly (node : Node) : Bool :=
  node.everywhere keepsIntegers

mutual

/-- How many structured nodes, lists, maps, and arrays and objects of a fragment stand inside one
another. -/
def depth : Node → Nat
  | .structured _ values => valuesDepth values + 1
  | .list _ items => valuesDepth items + 1
  | .map entries => entriesDepth entries + 1
  | .blob json => json.depth
  | _ => 0

def valuesDepth : List Node → Nat
  | [] => 0
  | value :: values => max value.depth (valuesDepth values)

def entriesDepth : List (String × Node) → Nat
  | [] => 0
  | (_, value) :: entries => max value.depth (entriesDepth entries)

end

/-- A model whose text can be read: its numbers are integers, at most 127 containers stand inside
one another, and its fragments are sorted, as fragments are stored. -/
structure Readable (node : Node) : Prop where
  integers : node.hasIntegersOnly = true
  shallow : node.depth ≤ 127
  blobs : node.blobsAreCanonical = true

theorem valuesDepth_le {values : List Node} {limit : Nat} :
    valuesDepth values ≤ limit ↔ ∀ value ∈ values, value.depth ≤ limit := by
  induction values with
  | nil => simp [valuesDepth]
  | cons value values ih => simp [valuesDepth, ih]

theorem entriesDepth_le {entries : Entries Node} {limit : Nat} :
    entriesDepth entries ≤ limit ↔ ∀ entry ∈ entries, entry.2.depth ≤ limit := by
  induction entries with
  | nil => simp [entriesDepth]
  | cons entry entries ih =>
    obtain ⟨key, value⟩ := entry
    simp [entriesDepth, ih]

theorem hasIntegersOnly_document {node : Node} (integers : node.hasIntegersOnly = true) :
    node.document.hasIntegersOnly = true := by
  induction node using inductionOn with
  | scalar node leaf =>
    cases node with
    | number n => cases n <;> first | rfl | cases integers
    | _ => first | rfl | cases leaf
  | structured schema values ih =>
    have inside := (everywhere_structured.mp integers).2
    rw [document, documentFields_eq, Json.hasIntegersOnly_object]
    refine List.forall_mem_map.mpr fun field listed => ?_
    have member := (List.of_mem_zip listed).2
    exact ih field.2 member (inside field.2 member)
  | list element items ih =>
    have inside := (everywhere_list.mp integers).2
    rw [document, documentItems_eq, Json.hasIntegersOnly_array]
    exact List.forall_mem_map.mpr fun item held => ih item held (inside item held)
  | map entries ih =>
    have inside := (everywhere_map.mp integers).2
    rw [document, documentEntries_eq, Json.hasIntegersOnly_object]
    exact List.forall_mem_map.mpr fun entry held => ih entry held (inside entry held)
  | blob json => exact integers

theorem depth_document_le (node : Node) : node.document.depth ≤ node.depth := by
  induction node using inductionOn with
  | scalar node leaf => cases node <;> first | exact Nat.le_refl 0 | cases leaf
  | structured schema values ih =>
    -- A value without a property would count for the node, but it is not written.
    rw [document, Json.depth, depth, documentFields_eq]
    refine Nat.succ_le_succ (Json.membersDepth_le.mpr (List.forall_mem_map.mpr ?_))
    intro field listed
    have member := (List.of_mem_zip listed).2
    exact (ih field.2 member).trans (valuesDepth_le.mp (Nat.le_refl _) field.2 member)
  | list element items ih =>
    rw [document, Json.depth, depth, documentItems_eq]
    refine Nat.succ_le_succ (Json.itemsDepth_le.mpr (List.forall_mem_map.mpr ?_))
    exact fun item held => (ih item held).trans (valuesDepth_le.mp (Nat.le_refl _) item held)
  | map entries ih =>
    rw [document, Json.depth, depth, documentEntries_eq]
    refine Nat.succ_le_succ (Json.membersDepth_le.mpr (List.forall_mem_map.mpr ?_))
    exact fun entry held => (ih entry held).trans (entriesDepth_le.mp (Nat.le_refl _) entry held)
  | blob json => exact Nat.le_refl _

/-- The reader gets the document of a node from its text. A key that came twice would have its last
value in both. -/
theorem Readable.read_text {node : Node} (readable : node.Readable) :
    (Json.ofText? node.text).map Json.canonical = some node.toJson := by
  have written : node.text = node.document.text := by rw [text, Json.text, chars_document]
  have shallow : node.document.depth ≤ Json.maxDepth :=
    node.depth_document_le.trans readable.shallow
  rw [written, Json.ofText?_text (hasIntegersOnly_document readable.integers), if_pos shallow,
    Option.map_some, canonical_document readable.blobs]

/-! ### Any order of the members -/

namespace Reorders

variable {before after : Node}

theorem hasIntegersOnly (reorders : Reorders before after)
    (integers : before.hasIntegersOnly = true) : after.hasIntegersOnly = true :=
  everywhere (fun step _ => by cases step <;> rfl) reorders integers

theorem depth_le (reorders : Reorders before after) : after.depth ≤ before.depth := by
  have inValues (values : List Node) := valuesDepth_le.mp (Nat.le_refl (valuesDepth values))
  have inEntries (entries : Entries Node) := entriesDepth_le.mp (Nat.le_refl (entriesDepth entries))
  induction reorders with
  | entries perm =>
    refine Nat.succ_le_succ (entriesDepth_le.mpr fun entry held => ?_)
    exact inEntries _ entry (perm.mem_iff.mpr held)
  | properties perm complete =>
    refine Nat.succ_le_succ (valuesDepth_le.mpr fun value held => ?_)
    obtain ⟨field, listed, rfl⟩ := exists_field_of_mem complete held
    exact inValues _ field.2 (List.of_mem_zip (perm.mem_iff.mpr listed)).2
  | inField inner ih | inItem inner ih =>
    exact Nat.succ_le_succ (valuesDepth_le.mpr (forall_mem_replaced (inValues _) ih.trans))
  | inEntry inner ih =>
    exact Nat.succ_le_succ (entriesDepth_le.mpr (forall_mem_replaced (inEntries _) ih.trans))

theorem readable (reorders : Reorders before after) (readable : before.Readable) :
    after.Readable where
  integers := reorders.hasIntegersOnly readable.integers
  shallow := reorders.depth_le.trans readable.shallow
  blobs := reorders.blobsAreCanonical readable.blobs

end Reorders

/-- However often the order of members changes, a model stays readable and its document what it
was. -/
theorem readable_of_reordered {node other : Node} (readable : node.Readable)
    (distinct : node.hasDistinctKeys = true)
    (reordered : Relation.ReflTransGen Reorders node other) :
    other.Readable ∧ other.hasDistinctKeys = true ∧ other.toJson = node.toJson := by
  induction reordered with
  | refl => exact ⟨readable, distinct, rfl⟩
  | tail _ step ih =>
    obtain ⟨readable, distinct, same⟩ := ih
    exact ⟨step.readable readable, step.hasDistinctKeys distinct,
      (step.toJson_eq distinct).trans same⟩

/-- **The two renderings of a node are one document.** What the reader gets from the text of a node
is its document, in which the keys of every object ascend. Both are the same for any order of the
map entries and of the properties. -/
theorem renderings_agree {node : Node} (readable : node.Readable)
    (distinct : node.hasDistinctKeys = true) :
    (Json.ofText? node.text).map Json.canonical = some node.toJson ∧
      node.toJson.isCanonical = true ∧
      ∀ other, Relation.ReflTransGen Reorders node other →
        other.toJson = node.toJson ∧
          (Json.ofText? other.text).map Json.canonical = some node.toJson := by
  refine ⟨readable.read_text, isCanonical_toJson readable.blobs, fun other reordered => ?_⟩
  obtain ⟨readableOther, -, same⟩ := readable_of_reordered readable distinct reordered
  exact ⟨same, same ▸ readableOther.read_text⟩

/-- A board computer whose members are not sorted, with a text that needs escapes, the greatest
of all integers and a fragment. -/
def computer : Node :=
  .map [("cpu", .structured Machine.cpu [.string "\"ARM\"\n",
      .number (.integer 0xffffffffffffffff (by decide)), .blob (.object [("max", .null)])]),
    ("boards", .list .scalar [.null, .emptyMap])]

/-- The same computer with the entries and the properties the other way round. -/
def turnedComputer : Node :=
  .map [("boards", .list .scalar [.null, .emptyMap]),
    ("cpu", .structured { Machine.cpu with properties := Machine.cpu.properties.reverse }
      [.blob (.object [("max", .null)]), .number (.integer 0xffffffffffffffff (by decide)),
        .string "\"ARM\"\n"])]

theorem renderings_agree_of_computer :
    let document : Json := .object [("boards", .array [.null, .object []]),
      ("cpu", .object [("avgLoad", .number (.integer 0xffffffffffffffff (by decide))),
        ("hardware", .string "\"ARM\"\n"), ("temperature", .object [("max", .null)])])]
    computer.Readable ∧ computer.hasDistinctKeys = true ∧
      Relation.ReflTransGen Reorders computer turnedComputer ∧
      (Json.ofText? computer.text).map Json.canonical = some document ∧
      document.isCanonical = true ∧ turnedComputer.toJson = document ∧
      (Json.ofText? turnedComputer.text).map Json.canonical = some document := by
  intro document
  have readable : computer.Readable := ⟨by decide, by decide, by decide⟩
  have distinct : computer.hasDistinctKeys = true := by decide
  have reordered : Relation.ReflTransGen Reorders computer turnedComputer :=
    -- First the properties of the processor, then the entries.
    .tail (.single (@Reorders.inEntry "cpu" [] _ _ _ (.properties (List.reverse_perm _).symm rfl)))
      (.entries (.swap ..))
  obtain ⟨own, sorted, others⟩ := renderings_agree readable distinct
  exact ⟨readable, distinct, reordered, own, sorted, others turnedComputer reordered⟩

end Node

end ModelFeed
