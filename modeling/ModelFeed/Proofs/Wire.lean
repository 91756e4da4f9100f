import ModelFeed.Message.Decoding
import ModelFeed.Proofs.Canonical
import ModelFeed.Proofs.Documents
/-!
# Messages survive the wire

The text of a message is the text of a document, and of the kinds of messages only its own fits that
document: the others miss a field, whatever members stand inside a payload. So a message is decoded
as itself, unless its payload nests deeper than the reader goes.
-/

namespace ModelFeed

theorem decodeText_text {α : Type} {type : String} {ofJson? : Json → Option α} {document : Json}
    {message : α} (integers : document.hasIntegersOnly = true)
    (fits : ofJson? document = some message) :
    decodeText type ofJson? document.text =
      if document.depth ≤ Json.maxDepth then .ok message else .error .malformed := by
  rw [decodeText, Json.readFirst?_text integers]
  by_cases shallow : document.depth ≤ Json.maxDepth
  · simp [shallow, fits, Json.skipBlanks]
  · simp [shallow]

namespace Json

theorem itemsChars_map_string (strings : List String) :
    itemsChars (strings.map .string) = strings.map stringChars := by
  induction strings with
  | nil => rfl
  | cons s strings ih => rw [List.map_cons, itemsChars, ih, chars, List.map_cons]

theorem strings?_map_string (strings : List String) :
    strings? (.array (strings.map .string)) = some strings := by
  rw [strings?]
  induction strings with
  | nil => rfl
  | cons s strings ih => simp [List.mapM_cons, string?, ih]

/-- A field that no member has is absent, however the others are read. -/
theorem fields?_of_absent {name : String} {members : List (String × Json)}
    (absent : name ∉ Entries.keys members) (names : List String) :
    fields? (name :: names) (.object members) =
      (names.mapM (uniqueMember? members)).map (none :: ·) := by
  have unseen : uniqueMember? members name = some none := by
    have nothing : members.filter (fun member => member.1 == name) = [] := by
      refine List.filter_eq_nil_iff.mpr fun member held same => absent ?_
      exact List.mem_map.mpr ⟨member, held, beq_iff_eq.mp same⟩
    rw [uniqueMember?, nothing]
  simp [fields?, unseen, Option.map_eq_bind]

end Json

theorem UpdateMode.ofJson?_name (mode : UpdateMode) :
    UpdateMode.ofJson? (.string mode.name) = some mode := by
  cases mode <;> rfl

namespace ClientMessage

/-- The document whose text a message has. -/
def document : ClientMessage → Json
  | .subscribe mode filters =>
    .object [("subscribe", .string mode.name), ("filters", .array (filters.map .string))]
  | .query path restrictedOnly =>
    .object [("query", .string path), ("restrictedOnly", .bool restrictedOnly)]

theorem text_eq (m : ClientMessage) : m.text = m.document.text := by
  cases m <;> simp [text, document, Json.objectText, Json.text, Json.chars, Json.membersChars,
    Json.itemsChars_map_string]

theorem subscribeOfJson?_of_absent {members : List (String × Json)}
    (absent : "subscribe" ∉ Entries.keys members) : subscribeOfJson? (.object members) = none := by
  rw [subscribeOfJson?, Json.fields?_of_absent absent]
  cases ["filters"].mapM (Json.uniqueMember? members) <;> rfl

theorem ofJson?_document (m : ClientMessage) : ofJson? m.document = some m := by
  cases m with
  | subscribe mode filters =>
    have fits : subscribeOfJson? (document (.subscribe mode filters)) =
        some (.subscribe mode filters) := by
      simp [document, subscribeOfJson?, Json.fields?, Json.uniqueMember?, UpdateMode.ofJson?_name,
        Json.strings?_map_string]
    rw [ofJson?, fits, Option.orElse_some]
  | query path restrictedOnly =>
    rw [ofJson?, document, subscribeOfJson?_of_absent (by simp [Entries.keys]), Option.orElse_none]
    rfl

theorem hasIntegersOnly_document (m : ClientMessage) : m.document.hasIntegersOnly = true := by
  cases m <;> simp [document, Json.hasIntegersOnly_object, Json.hasIntegersOnly_array]

theorem depth_document_le (m : ClientMessage) : m.document.depth ≤ Json.maxDepth := by
  cases m with
  | subscribe mode filters =>
    have flat : Json.itemsDepth (filters.map .string) ≤ 0 :=
      Json.itemsDepth_le.mpr (List.forall_mem_map.mpr fun _ _ => Nat.le_refl 0)
    simp only [document, Json.depth, Json.membersDepth, Json.maxDepth]
    omega
  | query path restrictedOnly =>
    simp [document, Json.depth, Json.membersDepth, Json.maxDepth]

/-- What a client writes is decoded as what it wrote: the same kind of message, with every mode,
filter, path and flag as it was. -/
theorem decode_text (m : ClientMessage) : decode m.text = .ok m := by
  rw [text_eq, decode, decodeText_text m.hasIntegersOnly_document m.ofJson?_document,
    if_pos m.depth_document_le]

end ClientMessage

namespace ServerMessage

/-- The document that a message carries. -/
def payload? : ServerMessage → Option Json
  | .update _ _ model => some model
  | .queryResult _ _ result => some result
  | _ => none

/-- How deep the text of a message nests. -/
def depth (m : ServerMessage) : Nat :=
  m.payload?.elim 0 Json.depth + 1

/-- Whether the sequence number, if there is one, fits 64 bits. -/
def fitsSequence : ServerMessage → Bool
  | .update _ sequence _ => decide (sequence < 0x10000000000000000)
  | _ => true

/-- A message whose fields are in the ranges of their types: the sequence number fits 64 bits and
the objects of a payload are sorted. All numbers of the payload are integers. -/
structure IsExact (m : ServerMessage) : Prop where
  sequence : m.fitsSequence = true
  canonical : ∀ payload ∈ m.payload?, payload.isCanonical = true
  integers : ∀ payload ∈ m.payload?, payload.hasIntegersOnly = true

section Kinds

variable {members : List (String × Json)}

theorem helloOfJson?_of_absent (absent : "name" ∉ Entries.keys members) :
    helloOfJson? (.object members) = none := by
  rw [helloOfJson?, Json.fields?_of_absent absent]
  cases ["version", "clientId", "timestamp"].mapM (Json.uniqueMember? members) <;> rfl

theorem updateOfJson?_of_absent (absent : "update" ∉ Entries.keys members) :
    updateOfJson? (.object members) = none := by
  rw [updateOfJson?, Json.fields?_of_absent absent]
  cases ["sequence", "model"].mapM (Json.uniqueMember? members) <;> rfl

theorem queryResultOfJson?_of_absent (absent : "path" ∉ Entries.keys members) :
    queryResultOfJson? (.object members) = none := by
  rw [queryResultOfJson?, Json.fields?_of_absent absent]
  cases ["found", "result"].mapM (Json.uniqueMember? members) <;> rfl

end Kinds

/-- The text of a message is the text of a document that fits this message before any other. -/
theorem exists_document {m : ServerMessage} (exact : m.IsExact) :
    ∃ document : Json, m.text = document.text ∧ document.hasIntegersOnly = true ∧
      document.depth = m.depth ∧ ofJson? document = some m := by
  -- The kinds tried before the own one look for a member that the document does not have. Members
  -- of a payload are one level further down, where no kind looks.
  cases m with
  | hello name version clientId timestamp =>
    refine ⟨.object [("name", .string name), ("version", .string version),
      ("clientId", .string clientId), ("timestamp", .string timestamp)], rfl, ?_, rfl, rfl⟩
    simp [Json.hasIntegersOnly_object]
  | update mode sequence model =>
    have fits : FitsInteger sequence := by
      have small := of_decide_eq_true exact.sequence
      constructor <;> omega
    refine ⟨.object [("update", .string mode.name), ("sequence", .number (.integer sequence fits)),
      ("model", model)], ?_, ?_, ?_, ?_⟩
    · have digits : (Number.integer sequence fits).chars = Nat.toDigits 10 sequence := by
        simp [Number.chars, Number.integerChars]
      simp [text, Json.objectText, Json.text, Json.chars, Json.membersChars, digits]
    · simp [Json.hasIntegersOnly_object, exact.integers model rfl]
    · simp [Json.depth, Json.membersDepth, depth, payload?]
    · rw [ofJson?, helloOfJson?_of_absent (by simp [Entries.keys]), Option.orElse_none]
      have counted : (Number.integer sequence fits).natural? = some sequence := rfl
      have same : model.canonical = model := Json.canonical_eq_self (exact.canonical model rfl)
      simp [updateOfJson?, Json.fields?, Json.uniqueMember?, UpdateMode.ofJson?_name, Json.natural?,
        counted, same]
  | queryResult path found result =>
    refine ⟨.object [("path", .string path), ("found", .bool found), ("result", result)], rfl, ?_,
      ?_, ?_⟩
    · simp [Json.hasIntegersOnly_object, exact.integers result rfl]
    · simp [Json.depth, Json.membersDepth, depth, payload?]
    · rw [ofJson?, helloOfJson?_of_absent (by simp [Entries.keys]),
        updateOfJson?_of_absent (by simp [Entries.keys]), Option.orElse_none, Option.orElse_none]
      have same : result.canonical = result := Json.canonical_eq_self (exact.canonical result rfl)
      simp [queryResultOfJson?, Json.fields?, Json.uniqueMember?, Json.string?, Json.bool?, same]
  | error message =>
    refine ⟨.object [("error", .string message)], rfl, ?_, rfl, ?_⟩
    · simp [Json.hasIntegersOnly_object]
    · rw [ofJson?, helloOfJson?_of_absent (by simp [Entries.keys]),
        updateOfJson?_of_absent (by simp [Entries.keys]),
        queryResultOfJson?_of_absent (by simp [Entries.keys])]
      rfl

theorem decode_text_of_isExact {m : ServerMessage} (exact : m.IsExact) :
    decode m.text = if m.depth ≤ Json.maxDepth then .ok m else .error .malformed := by
  obtain ⟨document, written, integers, nesting, read⟩ := exists_document exact
  rw [written, decode, decodeText_text integers read, nesting]

/-- A filtered model is sent as the canonical document of the model. -/
theorem isExact_ofModel {mode : UpdateMode} {sequence : Nat} {model : Node}
    (small : sequence < 0x10000000000000000) (blobs : model.blobsAreCanonical = true)
    (integers : model.toJson.hasIntegersOnly = true) : (ofModel mode sequence model).IsExact where
  sequence := decide_eq_true small
  canonical := by
    rintro payload ⟨⟩
    exact Node.isCanonical_toJson blobs
  integers := by
    rintro payload ⟨⟩
    exact integers

/-- Every message is decoded as it was sent, as long as its payload is within the reach of the
reader; for a filtered model this is the document of the model. Whatever a payload holds, and
however deep it nests, the message is never taken for another one. -/
theorem carried_by_text :
    (∀ m : ServerMessage, m.IsExact → m.depth ≤ Json.maxDepth → decode m.text = .ok m) ∧
    (∀ (mode : UpdateMode) (sequence : Nat) (model : Node), sequence < 0x10000000000000000 →
      model.blobsAreCanonical = true → model.toJson.hasIntegersOnly = true →
      model.toJson.depth < Json.maxDepth →
      decode (ofModel mode sequence model).text = .ok (.update mode sequence model.toJson)) ∧
    (∀ m other : ServerMessage, m.IsExact → decode m.text = .ok other → other = m) := by
  refine ⟨?_, ?_, ?_⟩
  · intro m exact shallow
    rw [decode_text_of_isExact exact, if_pos shallow]
  · intro mode sequence model small blobs integers shallow
    rw [decode_text_of_isExact (isExact_ofModel small blobs integers)]
    exact if_pos shallow
  · intro m other exact read
    rw [decode_text_of_isExact exact] at read
    split at read
    next => exact (Except.ok.inj read).symm
    next => cases read

/-- A fragment with members that other messages have, and with a string that needs escapes. -/
def deceptive : Json :=
  .object [("error", .string "no \"C:\\\" \u0007\n"),
    ("found", .array [.bool true, .number (.integer (-0x8000000000000000) (by decide))]),
    ("name", .object [("version", .string "é")])]

theorem carried_by_text_of_deceptive :
    (update .patch 0xFFFFFFFFFFFFFFFF deceptive).IsExact ∧
    decode (update .patch 0xFFFFFFFFFFFFFFFF deceptive).text =
      .ok (.update .patch 0xFFFFFFFFFFFFFFFF deceptive) ∧
    decode (ofModel .full 7 (.map [("tools", .null), ("state", .blob deceptive)])).text =
      .ok (.update .full 7 (.object [("state", deceptive), ("tools", .null)])) ∧
    ∀ other, decode (update .patch 0xFFFFFFFFFFFFFFFF deceptive).text = .ok other →
      other = .update .patch 0xFFFFFFFFFFFFFFFF deceptive := by
  have exact : (update .patch 0xFFFFFFFFFFFFFFFF deceptive).IsExact :=
    ⟨rfl, by rintro _ ⟨⟩; decide, by rintro _ ⟨⟩; rfl⟩
  obtain ⟨every, models, onlyItself⟩ := carried_by_text
  refine ⟨exact, every _ exact (by decide), ?_, fun other => onlyItself _ other exact⟩
  exact models .full 7 (.map [("tools", .null), ("state", .blob deceptive)]) (by decide)
    (by decide) (by decide) (by decide)

end ServerMessage

end ModelFeed
