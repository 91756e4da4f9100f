import ModelFeed.Proofs.Everywhere
import ModelFeed.Proofs.Lexemes
/-!
# Documents are read back

What the printer writes for a document without floating point numbers, the reader reads as that
document, whatever follows the text. It refuses the text only if the document nests deeper than the
reader goes. A text is fuel enough for its own reading.
-/

namespace ModelFeed.Json

/-! ### Integers and nesting -/

def isIntegral : Json → Bool
  | .number (.float _) => false
  | _ => true

/-- Whether all numbers in a document are integers. -/
def hasIntegersOnly (json : Json) : Bool :=
  json.everywhere isIntegral

mutual

/-- How many arrays and objects stand inside one another. -/
def depth : Json → Nat
  | .array items => itemsDepth items + 1
  | .object members => membersDepth members + 1
  | _ => 0

def itemsDepth : List Json → Nat
  | [] => 0
  | item :: items => max item.depth (itemsDepth items)

def membersDepth : List (String × Json) → Nat
  | [] => 0
  | (_, value) :: members => max value.depth (membersDepth members)

end

@[simp] theorem hasIntegersOnly_bool (b : Bool) : (bool b).hasIntegersOnly = true := rfl

@[simp] theorem hasIntegersOnly_integer {i : Int} (fits : FitsInteger i) :
    (number (.integer i fits)).hasIntegersOnly = true := rfl

@[simp] theorem hasIntegersOnly_string (s : String) : (string s).hasIntegersOnly = true := rfl

theorem hasIntegersOnly_array {items : List Json} : (array items).hasIntegersOnly = true ↔
    ∀ item ∈ items, item.hasIntegersOnly = true := by
  simp [hasIntegersOnly, everywhere_array, isIntegral]

theorem hasIntegersOnly_object {members : List (String × Json)} :
    (object members).hasIntegersOnly = true ↔
      ∀ member ∈ members, member.2.hasIntegersOnly = true := by
  simp [hasIntegersOnly, everywhere_object, isIntegral]

theorem itemsDepth_le {items : List Json} {limit : Nat} :
    itemsDepth items ≤ limit ↔ ∀ item ∈ items, item.depth ≤ limit := by
  induction items with
  | nil => simp [itemsDepth]
  | cons item items ih => simp [itemsDepth, ih]

theorem membersDepth_le {members : List (String × Json)} {limit : Nat} :
    membersDepth members ≤ limit ↔ ∀ member ∈ members, member.2.depth ≤ limit := by
  induction members with
  | nil => simp [membersDepth]
  | cons member members ih =>
    obtain ⟨key, value⟩ := member
    simp [membersDepth, ih]

/-! ### Reading -/

/-- Whether the text of a document is read as the document if the reader goes deep enough, and not
at all otherwise. The length of the text is fuel enough; what follows it must not carry a numeral
on, for a number has no closing character. -/
def ReadsBack (json : Json) : Prop :=
  ∀ (fuel limit : Nat) (rest : List Char), json.chars.length ≤ fuel → endsNumeral rest = true →
    readValue? fuel limit (json.chars ++ rest) =
      if json.depth ≤ limit then some (json, rest) else none

theorem skipBlanks_cons {c : Char} (solid : isBlank c = false) (cs : List Char) :
    skipBlanks (c :: cs) = c :: cs := by
  simp [skipBlanks, solid]

theorem readsBack_null : ReadsBack .null := by
  rintro (_ | fuel) limit rest enough _
  · cases enough
  · rfl

theorem readsBack_bool (b : Bool) : ReadsBack (.bool b) := by
  rintro (_ | fuel) limit rest enough _
  · cases b <;> cases enough
  · cases b <;> rfl

theorem readsBack_string (s : String) : ReadsBack (.string s) := by
  rintro (_ | fuel) limit rest enough _
  · cases enough
  · rw [chars, stringChars_append, readValue?, skipBlanks_cons rfl]
    simp [readString?_flatMap_charEscape, depth]

theorem readValue?_of_numeral {c : Char} (first : c.isDigit = true ∨ c = '-') (fuel limit : Nat)
    (cs : List Char) : readValue? (fuel + 1) limit (c :: cs) = do
      let (numeral, rest) ← Numeral.read? (c :: cs)
      return (.number (← numeral.value?), rest) := by
  have solid : isBlank c = false := by
    by_contra blank
    simp only [Bool.not_eq_false, isBlank, Bool.or_eq_true, beq_iff_eq] at blank
    obtain ((rfl | rfl) | rfl) | rfl := blank <;> exact absurd first (by decide)
  rw [readValue?, skipBlanks_cons solid]
  split
  all_goals first
    | rfl
    | next same =>
      -- No other value starts like a numeral.
      cases same
      exact absurd first (by decide)

theorem readsBack_integer {i : Int} (fits : FitsInteger i) :
    ReadsBack (.number (.integer i fits)) := by
  intro fuel limit rest enough ends
  change (Number.integerChars i).length ≤ fuel at enough
  obtain ⟨c, cs, written, first⟩ := Number.exists_cons_integerChars i
  obtain ⟨fuel, rfl⟩ : ∃ n, fuel = n + 1 :=
    Nat.exists_eq_add_one.mpr (by rw [written, List.length_cons] at enough; omega)
  have read := Numeral.read?_integerChars i ends
  change readValue? _ _ (Number.integerChars i ++ rest) = _
  rw [written, List.cons_append] at read ⊢
  rw [readValue?_of_numeral first, read]
  simp [Numeral.value?_toDigits fits, depth]

section Steps

variable {item value : Json} {fuel limit : Nat} {rest : List Char}

theorem readItems?_item (read : item.ReadsBack) (enough : item.chars.length ≤ fuel)
    (done : List Json) (ends : endsNumeral rest = true) :
    readItems? (fuel + 1) limit done (item.chars ++ rest) =
      if item.depth ≤ limit then
        match skipBlanks rest with
        | ',' :: rest => readItems? fuel limit (item :: done) rest
        | ']' :: rest => some ((item :: done).reverse, rest)
        | _ => none
      else none := by
  rw [readItems?, read fuel limit rest enough ends]
  by_cases fits : item.depth ≤ limit
  · rw [if_pos fits]
    exact (if_pos fits).symm
  · rw [if_neg fits]
    exact (if_neg fits).symm

theorem readMembers?_member (read : value.ReadsBack) (enough : value.chars.length ≤ fuel)
    (key : String) (done : List (String × Json)) (ends : endsNumeral rest = true) :
    readMembers? (fuel + 1) limit done (memberChars key value.chars ++ rest) =
      if value.depth ≤ limit then
        match skipBlanks rest with
        | ',' :: rest => readMembers? fuel limit ((key, value) :: done) rest
        | '}' :: rest => some (((key, value) :: done).reverse, rest)
        | _ => none
      else none := by
  rw [memberChars, List.append_assoc, List.cons_append, stringChars_append, readMembers?,
    skipBlanks_cons rfl]
  simp only [readString?_flatMap_charEscape, skipBlanks_cons (c := ':') rfl,
    read fuel limit rest enough ends]
  by_cases fits : value.depth ≤ limit
  · rw [if_pos fits]
    exact (if_pos fits).symm
  · rw [if_neg fits]
    exact (if_neg fits).symm

end Steps

variable {items : List Json} {members : List (String × Json)}

-- By induction on the items: each takes one unit of fuel and at least the comma before the next.
theorem readItems?_joined (read : ∀ item ∈ items, ReadsBack item) (nonempty : items ≠ [])
    {fuel : Nat} (enough : (joined (itemsChars items)).length < fuel) (limit : Nat)
    (done : List Json) (rest : List Char) :
    readItems? fuel limit done (joined (itemsChars items) ++ ']' :: rest) =
      if itemsDepth items ≤ limit then some (done.reverse ++ items, rest) else none := by
  induction items generalizing fuel done with
  | nil => exact absurd rfl nonempty
  | cons item items ih =>
    obtain ⟨first, later⟩ := List.forall_mem_cons.mp read
    obtain ⟨fuel, rfl⟩ : ∃ n, fuel = n + 1 := Nat.exists_eq_add_one.mpr (by omega)
    cases items with
    | nil =>
      simp only [itemsChars, joined] at enough ⊢
      rw [readItems?_item first (by omega) done rfl, skipBlanks_cons rfl]
      simp [itemsDepth]
    | cons second items =>
      have others (small : (joined (itemsChars (second :: items))).length < fuel) :=
        ih later (List.cons_ne_nil second items) small
      simp only [itemsChars, joined, List.length_append, List.length_cons] at enough others ⊢
      rw [List.append_assoc, List.cons_append, readItems?_item first (by omega) done rfl,
        skipBlanks_cons rfl]
      by_cases fits : item.depth ≤ limit <;> simp [fits, others (by omega), itemsDepth]

theorem readMembers?_joined (read : ∀ member ∈ members, ReadsBack member.2)
    (nonempty : members ≠ []) {fuel : Nat}
    (enough : (joined (membersChars members)).length < fuel) (limit : Nat)
    (done : List (String × Json)) (rest : List Char) :
    readMembers? fuel limit done (joined (membersChars members) ++ '}' :: rest) =
      if membersDepth members ≤ limit then some (done.reverse ++ members, rest) else none := by
  induction members generalizing fuel done with
  | nil => exact absurd rfl nonempty
  | cons member members ih =>
    obtain ⟨key, value⟩ := member
    have first : value.ReadsBack := read (key, value) List.mem_cons_self
    have later := fun member held => read member (List.mem_cons_of_mem _ held)
    obtain ⟨fuel, rfl⟩ : ∃ n, fuel = n + 1 := Nat.exists_eq_add_one.mpr (by omega)
    have within : value.chars.length ≤ (memberChars key value.chars).length := by
      simp only [memberChars, List.length_append, List.length_cons]
      omega
    cases members with
    | nil =>
      simp only [membersChars, joined] at enough ⊢
      rw [readMembers?_member first (by omega) key done rfl, skipBlanks_cons rfl]
      simp [membersDepth]
    | cons second members =>
      have others (small : (joined (membersChars (second :: members))).length < fuel) :=
        ih later (List.cons_ne_nil second members) small
      simp only [membersChars, joined, List.length_append, List.length_cons] at enough others ⊢
      rw [List.append_assoc, List.cons_append, readMembers?_member first (by omega) key done rfl,
        skipBlanks_cons rfl]
      by_cases fits : value.depth ≤ limit <;> simp [fits, others (by omega), membersDepth]

/-- A text that holds an item does not close the array. -/
theorem skipBlanks_ne_bracket {fuel limit : Nat} {done : List Json} {cs : List Char}
    {found : List Json × List Char} (read : readItems? fuel limit done cs = some found)
    (rest : List Char) : skipBlanks cs ≠ ']' :: rest := by
  intro closing
  have noValue : ∀ fuel, readValue? fuel limit cs = none := by
    rintro (_ | fuel)
    · rfl
    · rw [readValue?, closing]
      rfl
  cases fuel with
  | zero => cases read
  | succ fuel =>
    rw [readItems?, noValue] at read
    cases read

theorem readValue?_bracket {fuel limit : Nat} {cs : List Char}
    (opening : ∀ rest, skipBlanks cs ≠ ']' :: rest) :
    readValue? (fuel + 1) (limit + 1) ('[' :: cs) =
      (readItems? fuel limit [] cs).map fun (items, rest) => (.array items, rest) := by
  -- `opening` rules out the branch of an empty array.
  simp [readValue?, skipBlanks_cons (c := '[') rfl]

theorem readsBack_array (read : ∀ item ∈ items, ReadsBack item) : ReadsBack (.array items) := by
  intro fuel limit rest enough _
  simp only [chars, arrayChars, List.length_cons, List.length_append, List.length_nil] at enough
  obtain ⟨fuel, rfl⟩ : ∃ n, fuel = n + 1 := Nat.exists_eq_add_one.mpr (by omega)
  have text : (array items).chars ++ rest = '[' :: (joined (itemsChars items) ++ ']' :: rest) := by
    simp [chars, arrayChars]
  rw [text]
  cases limit with
  | zero => simp [readValue?, skipBlanks_cons (c := '[') rfl, depth]
  | succ limit =>
    by_cases empty : items = []
    · subst empty
      simp [readValue?, skipBlanks_cons (c := '[') rfl, skipBlanks_cons (c := ']') rfl, itemsChars,
        joined, depth, itemsDepth]
    · -- With enough depth the items are read, so the text does not start by closing the array.
      have found := readItems?_joined read empty (Nat.lt_succ_self _) (itemsDepth items) [] rest
      rw [if_pos (Nat.le_refl _)] at found
      rw [readValue?_bracket (skipBlanks_ne_bracket found),
        readItems?_joined read empty (by omega)]
      by_cases fits : itemsDepth items ≤ limit <;> simp [fits, depth]

theorem readsBack_object (read : ∀ member ∈ members, ReadsBack member.2) :
    ReadsBack (.object members) := by
  intro fuel limit rest enough _
  simp only [chars, objectChars, List.length_cons, List.length_append, List.length_nil] at enough
  obtain ⟨fuel, rfl⟩ : ∃ n, fuel = n + 1 := Nat.exists_eq_add_one.mpr (by omega)
  have text : (object members).chars ++ rest =
      '{' :: (joined (membersChars members) ++ '}' :: rest) := by
    simp [chars, objectChars]
  rw [text, readValue?, skipBlanks_cons rfl]
  cases limit with
  | zero => simp [depth]
  | succ limit =>
    by_cases empty : members = []
    · subst empty
      simp [membersChars, joined, depth, membersDepth, skipBlanks_cons (c := '}') rfl]
    · -- A member starts with the quote of its key.
      have opening : ∃ cs, joined (membersChars members) ++ '}' :: rest = '"' :: cs := by
        obtain ⟨⟨key, value⟩, members, rfl⟩ := List.exists_cons_of_ne_nil empty
        cases members <;> simp [membersChars, joined, memberChars, stringChars]
      have inside : (joined (membersChars members)).length < fuel := by omega
      have found := readMembers?_joined read empty inside limit [] rest
      obtain ⟨cs, quoted⟩ := opening
      rw [quoted] at found ⊢
      simp only [skipBlanks_cons (c := '"') rfl, found]
      by_cases fits : membersDepth members ≤ limit <;> simp [fits, depth]

/-- Documents without floating point numbers are read back. -/
theorem readsBack {json : Json} (integers : json.hasIntegersOnly = true) : ReadsBack json := by
  induction json using inductionOn with
  | scalar json leaf =>
    cases json with
    | number n =>
      cases n with
      | integer i fits => exact readsBack_integer fits
      | float x => cases integers
    | array | object => cases leaf
    | null => exact readsBack_null
    | bool b => exact readsBack_bool b
    | string s => exact readsBack_string s
  | array items ih =>
    exact readsBack_array fun item held => ih item held (hasIntegersOnly_array.mp integers item held)
  | object members ih =>
    exact readsBack_object fun member held =>
      ih member held (hasIntegersOnly_object.mp integers member held)

theorem readFirst?_text {json : Json} (integers : json.hasIntegersOnly = true) :
    readFirst? json.text.toList = if json.depth ≤ maxDepth then some (json, []) else none := by
  have read := readsBack integers (2 * json.chars.length + 2) maxDepth [] (by omega) rfl
  rw [List.append_nil] at read
  rw [readFirst?, text, String.toList_ofList, read]

theorem ofText?_text {json : Json} (integers : json.hasIntegersOnly = true) :
    ofText? json.text = if json.depth ≤ maxDepth then some json else none := by
  rw [ofText?, readFirst?_text integers]
  by_cases shallow : json.depth ≤ maxDepth <;> simp [shallow, skipBlanks]

end ModelFeed.Json
