import SqlCompose.Json.Reader
import SqlCompose.Proofs.JsonLexeme

/-!
JSON texts that are read back. Taking the lexemes of a written value gives the lexemes of the value
(`lexemes?_chars_append`), and putting these together gives the value itself
(`assemble_lexemes_append`), whatever stands around it.

Three things cannot come back: an integer beyond sixty-four bits, a value that is unreadable, and a
double whose digits denote another double to the reader, which does not round them once but in
several steps. A value without such parts is read back from its text (`read?_write`).
-/

set_option autoImplicit false
set_option relaxedAutoImplicit false

namespace SqlCompose.Json

/-! ### Values as trees -/

/-- A value other than an array or an object. -/
def isScalar : Json → Bool
  | array _ | object _ => false
  | _ => true

/-- Induction over values, with a hypothesis for every item and for the value of every key. -/
theorem induction {motive : Json → Prop} (scalar : ∀ value, value.isScalar = true → motive value)
    (array : ∀ items, (∀ item ∈ items, motive item) → motive (.array items))
    (object : ∀ members, (∀ entry ∈ members, motive entry.2) → motive (.object members)) :
    ∀ value, motive value
  | .null => scalar _ rfl
  | .boolean _ => scalar _ rfl
  | .integer _ => scalar _ rfl
  | .float _ => scalar _ rfl
  | .string _ => scalar _ rfl
  | .unreadable => scalar _ rfl
  | .array items => array items fun item hmem ↦
      have : sizeOf item < sizeOf items := List.sizeOf_lt_of_mem hmem
      induction scalar array object item
  | .object members => object members fun entry hmem ↦
      have : sizeOf entry < sizeOf members := List.sizeOf_lt_of_mem hmem
      induction scalar array object entry.2
termination_by value => sizeOf value
decreasing_by
  · simp only [Json.array.sizeOf_spec]
    omega
  · obtain ⟨key, value⟩ := entry
    simp only [Json.object.sizeOf_spec, Prod.mk.sizeOf_spec] at this ⊢
    omega

mutual

/-- The value itself, the items and members in it, those in them and so on. -/
def nodes : Json → List Json
  | array items => array items :: nodesOfItems items
  | object members => object members :: nodesOfMembers members
  | value => [value]

/-- The nodes of each of several items. -/
def nodesOfItems : List Json → List Json
  | [] => []
  | item :: rest => nodes item ++ nodesOfItems rest

/-- The nodes of each of several members. -/
def nodesOfMembers : List (String × Json) → List Json
  | [] => []
  | (_, value) :: rest => nodes value ++ nodesOfMembers rest

end

theorem forall_mem_nodesOfItems {condition : Json → Prop} {items : List Json} :
    (∀ node ∈ nodesOfItems items, condition node) ↔
      ∀ item ∈ items, ∀ node ∈ item.nodes, condition node := by
  induction items with
  | nil => simp [nodesOfItems]
  | cons item rest ih => rw [nodesOfItems, List.forall_mem_append, List.forall_mem_cons, ih]

theorem forall_mem_nodesOfMembers {condition : Json → Prop} {members : List (String × Json)} :
    (∀ node ∈ nodesOfMembers members, condition node) ↔
      ∀ entry ∈ members, ∀ node ∈ entry.2.nodes, condition node := by
  induction members with
  | nil => simp [nodesOfMembers]
  | cons entry rest ih => rw [nodesOfMembers, List.forall_mem_append, List.forall_mem_cons, ih]

theorem forall_mem_nodes_array {condition : Json → Prop} {items : List Json} :
    (∀ node ∈ (array items).nodes, condition node) ↔
      condition (array items) ∧ ∀ item ∈ items, ∀ node ∈ item.nodes, condition node := by
  rw [nodes, List.forall_mem_cons, forall_mem_nodesOfItems]

theorem forall_mem_nodes_object {condition : Json → Prop} {members : List (String × Json)} :
    (∀ node ∈ (object members).nodes, condition node) ↔
      condition (object members) ∧
        ∀ entry ∈ members, ∀ node ∈ entry.2.nodes, condition node := by
  rw [nodes, List.forall_mem_cons, forall_mem_nodesOfMembers]

/-- What can come back from a text, as far as the value is not made of others. -/
def Rereads : Json → Prop
  | integer value => -(twoTo 63 : Int) ≤ value ∧ value < twoTo 64
  | float value => read? (float value).write = some (float value)
  | unreadable => False
  | _ => True

/-! ### Numbers in front of other texts -/

theorem lexemes?_integer_append {value : Int} (hvalue : (integer value).Rereads)
    {rest : List Char} (hrest : EndsNumber rest) :
    lexemes? ((integer value).chars ++ rest) =
      (lexemes? rest).map (.scalar (integer value) :: ·) := by
  have hnil : lexemes? [] = some [] := by rw [lexemes?]
  rw [chars, lexemes?_number_append (beginsNumber_signedDecimal value)
    (scanNumeral?_signedDecimal value) hnil hrest, value_signedDecimal hvalue.1 hvalue.2]

/-- Nothing can follow a finished value when nothing is open. -/
theorem assemble_scalar {value result : Json} {rest : List Lexeme}
    (hassemble : assemble .value [] (.scalar value :: rest) = some result) :
    rest = [] ∧ value = result := by
  change assemble (.afterValue value) [] rest = some result at hassemble
  cases rest with
  | nil => exact ⟨rfl, Option.some.inj hassemble⟩
  | cons lexeme rest => cases hassemble

/-- A double that is read back is finite, since all others are written as null. -/
theorem isFinite_of_rereads {x : Binary64} (hx : (float x).Rereads) : x.isFinite = true := by
  by_contra hinfinite
  have hread : read? (float x).write = some (float x) := hx
  have hnull := lexemes?_null_append []
  rw [List.append_nil, lexemes?, Option.map_some] at hnull
  rw [read?, write, chars, if_neg hinfinite, String.toList_ofList, hnull] at hread
  cases (assemble_scalar hread).2

/-- The text of a double that is read back is one lexeme, whatever follows that does not continue
it. -/
theorem lexemes?_float_append {x : Binary64} (hx : (float x).Rereads) {rest : List Char}
    (hrest : EndsNumber rest) :
    lexemes? ((float x).chars ++ rest) = (lexemes? rest).map (.scalar (float x) :: ·) := by
  have hbegins := beginsNumber_float (isFinite_of_rereads hx)
  have hread : read? (float x).write = some (float x) := hx
  rw [read?, write, String.toList_ofList, lexemes?_eq_bind hbegins.ne_nil hbegins.stops_isBlank,
    scanLexeme?_number hbegins] at hread
  obtain ⟨lexemes, hlexemes, hassemble⟩ := Option.bind_eq_some_iff.mp hread
  obtain ⟨scanned, hlexeme, hmap⟩ := Option.bind_eq_some_iff.mp hlexemes
  obtain ⟨⟨numeral, after⟩, hscan, rfl⟩ := Option.map_eq_some_iff.mp hlexeme
  obtain ⟨further, hfurther, rfl⟩ := Option.map_eq_some_iff.mp hmap
  obtain ⟨rfl, hvalue⟩ := assemble_scalar hassemble
  rw [lexemes?_number_append hbegins hscan hfurther hrest, hvalue]

/-! ### Values as lexemes -/

theorem mem_nodes_self (value : Json) : value ∈ value.nodes := by
  cases value <;> simp [nodes]

mutual

/-- The lexemes of a value. -/
def lexemes : Json → List Lexeme
  | string value => [.text (some value)]
  | array items => .openBracket :: (itemLexemes items ++ [.closeBracket])
  | object members => .openBrace :: (memberLexemes members ++ [.closeBrace])
  | value => [.scalar value]

/-- The lexemes of items separated by commas. -/
def itemLexemes : List Json → List Lexeme
  | [] => []
  | [item] => lexemes item
  | item :: next :: rest => lexemes item ++ .comma :: itemLexemes (next :: rest)

/-- The lexemes of members separated by commas. -/
def memberLexemes : List (String × Json) → List Lexeme
  | [] => []
  | [(key, value)] => .text (some key) :: .colon :: lexemes value
  | (key, value) :: next :: rest =>
    .text (some key) :: .colon :: (lexemes value ++ .comma :: memberLexemes (next :: rest))

end

/-- The text of a value in front of a text that does not continue it has the lexemes of both. -/
def TextReads (value : Json) : Prop :=
  ∀ rest, EndsNumber rest →
    lexemes? (value.chars ++ rest) = (lexemes? rest).map (value.lexemes ++ ·)

theorem lexemes?_itemChars_append {items : List Json} (hitems : ∀ item ∈ items, TextReads item)
    {rest : List Char} (hrest : EndsNumber rest) :
    lexemes? (itemChars items ++ rest) = (lexemes? rest).map (itemLexemes items ++ ·) := by
  induction items with
  | nil => simp [itemChars, itemLexemes]
  | cons item others ih =>
    cases others with
    | nil => exact hitems item (by simp) rest hrest
    | cons next others =>
      rw [itemChars, List.append_assoc, List.cons_append, hitems item (by simp) _ (.cons rfl _),
        lexemes?_of_scan (.cons rfl _) rfl, ih fun other hother ↦ hitems other (by simp [hother])]
      simp [itemLexemes, Function.comp_def]

theorem lexemes?_memberChars_append {members : List (String × Json)}
    (hmembers : ∀ entry ∈ members, TextReads entry.2) {rest : List Char}
    (hrest : EndsNumber rest) :
    lexemes? (memberChars members ++ rest) =
      (lexemes? rest).map (memberLexemes members ++ ·) := by
  induction members with
  | nil => simp [memberChars, memberLexemes]
  | cons entry others ih =>
    obtain ⟨key, value⟩ := entry
    cases others with
    | nil =>
      rw [memberChars, List.append_assoc, lexemes?_text_append, List.cons_append,
        lexemes?_of_scan (.cons rfl _) rfl, hmembers (key, value) (by simp) rest hrest]
      simp [memberLexemes, Function.comp_def]
    | cons next others =>
      rw [memberChars, List.append_assoc, lexemes?_text_append, List.cons_append,
        lexemes?_of_scan (.cons rfl _) rfl, List.append_assoc, List.cons_append,
        hmembers (key, value) (by simp) _ (.cons rfl _), lexemes?_of_scan (.cons rfl _) rfl,
        ih fun other hother ↦ hmembers other (by simp [hother])]
      simp [memberLexemes, Function.comp_def]

theorem textReads_array {items : List Json} (hitems : ∀ item ∈ items, TextReads item) :
    TextReads (array items) := by
  intro rest _
  rw [chars, List.cons_append, lexemes?_of_scan (.cons rfl _) rfl, List.append_assoc,
    List.singleton_append, lexemes?_itemChars_append hitems (.cons rfl _),
    lexemes?_of_scan (.cons rfl _) rfl]
  simp [lexemes, Function.comp_def]

theorem textReads_object {members : List (String × Json)}
    (hmembers : ∀ entry ∈ members, TextReads entry.2) : TextReads (object members) := by
  intro rest _
  rw [chars, List.cons_append, lexemes?_of_scan (.cons rfl _) rfl, List.append_assoc,
    List.singleton_append, lexemes?_memberChars_append hmembers (.cons rfl _),
    lexemes?_of_scan (.cons rfl _) rfl]
  simp [lexemes, Function.comp_def]

theorem lexemes?_chars_append (value : Json) (hvalue : ∀ node ∈ value.nodes, node.Rereads) :
    TextReads value := by
  induction value using induction with
  | scalar value hscalar =>
    intro rest hrest
    have hself : value.Rereads := hvalue value (mem_nodes_self value)
    cases value with
    | null => exact lexemes?_null_append rest
    | boolean value => exact lexemes?_boolean_append value rest
    | integer value => exact lexemes?_integer_append hself hrest
    | float x => exact lexemes?_float_append hself hrest
    | string text => exact lexemes?_text_append text rest
    | unreadable => exact hself.elim
    | array | object => cases hscalar
  | array items ih =>
    rw [forall_mem_nodes_array] at hvalue
    exact textReads_array fun item hitem ↦ ih item hitem (hvalue.2 item hitem)
  | object members ih =>
    rw [forall_mem_nodes_object] at hvalue
    exact textReads_object fun entry hentry ↦ ih entry hentry (hvalue.2 entry hentry)

/-! ### Lexemes as values -/

theorem assemble_of_step {expecting next : Expecting} {unfinished others : List Frame}
    {lexeme : Lexeme} (hstep : step expecting unfinished lexeme = some (next, others))
    (rest : List Lexeme) :
    assemble expecting unfinished (lexeme :: rest) = assemble next others rest := by
  rw [assemble, hstep]

/-- The lexemes of a value, where a value may begin, end in that value. -/
def LexemesReassemble (value : Json) : Prop :=
  ∀ unfinished rest, assemble .value unfinished (value.lexemes ++ rest) =
    assemble (.afterValue value) unfinished rest

/-- The first item of an array begins as any value does. -/
theorem assemble_firstItem {items : List Json} (hne : items ≠ []) (unfinished : List Frame)
    (rest : List Lexeme) :
    assemble .firstItem unfinished (itemLexemes items ++ rest) =
      assemble .value unfinished (itemLexemes items ++ rest) := by
  cases items with
  | nil => exact absurd rfl hne
  | cons item others => cases others <;> cases item <;> rfl

/-- Items behind others, up to the end of the array. -/
theorem assemble_itemLexemes {items : List Json} (hne : items ≠ [])
    (hitems : ∀ item ∈ items, LexemesReassemble item) (before : List Json)
    (outer : List Frame) (rest : List Lexeme) :
    assemble .value (.items before :: outer) (itemLexemes items ++ .closeBracket :: rest) =
      assemble (.afterValue (array (before.reverse ++ items))) outer rest := by
  induction items generalizing before with
  | nil => exact absurd rfl hne
  | cons item others ih =>
    cases others with
    | nil =>
      rw [itemLexemes, hitems item (by simp), assemble_of_step rfl, List.reverse_cons]
    | cons next others =>
      rw [itemLexemes, List.append_assoc, hitems item (by simp), List.cons_append,
        assemble_of_step rfl,
        ih (List.cons_ne_nil _ _) fun other hother ↦ hitems other (by simp [hother]),
        List.reverse_cons, List.append_assoc, List.singleton_append]

/-- What is read back one by one is read back together. -/
theorem mapM_written {α β : Type} {written : α → β} {read : β → Option α}
    (hread : ∀ value, read (written value) = some value) (values : List α) :
    (values.map written).mapM read = some values := by
  induction values with
  | nil => rfl
  | cons value values ih =>
    rw [List.map_cons, List.mapM_cons, hread, ih]
    rfl

theorem ofMembers?_readable (members : List (String × Json)) :
    ofMembers? (members.map fun entry ↦ (some entry.1, entry.2)) = object members := by
  rw [ofMembers?, mapM_written]
  intro entry
  rfl

/-- Members behind others, up to the end of the object. -/
theorem assemble_memberLexemes {members : List (String × Json)} (hne : members ≠ [])
    (hmembers : ∀ entry ∈ members, LexemesReassemble entry.2)
    (before : List (String × Json)) (outer : List Frame) (rest : List Lexeme) :
    assemble (.nextKey (before.map fun entry ↦ (some entry.1, entry.2))) outer
        (memberLexemes members ++ .closeBrace :: rest) =
      assemble (.afterValue (object (before.reverse ++ members))) outer rest := by
  induction members generalizing before with
  | nil => exact absurd rfl hne
  | cons entry others ih =>
    obtain ⟨key, value⟩ := entry
    cases others with
    | nil =>
      rw [memberLexemes, List.cons_append, List.cons_append, assemble_of_step rfl,
        assemble_of_step rfl, hmembers (key, value) (by simp), assemble_of_step rfl,
        ← ofMembers?_readable, List.map_append, List.map_reverse, List.reverse_cons]
      rfl
    | cons next others =>
      have hnext := ih (List.cons_ne_nil _ _)
        (fun other hother ↦ hmembers other (by simp [hother])) ((key, value) :: before)
      rw [List.reverse_cons, List.append_assoc, List.singleton_append] at hnext
      rw [memberLexemes, List.cons_append, List.cons_append, assemble_of_step rfl,
        assemble_of_step rfl, List.append_assoc, hmembers (key, value) (by simp),
        List.cons_append, assemble_of_step rfl]
      exact hnext

/-- The first key of an object is read as a further one. -/
theorem assemble_firstKey {members : List (String × Json)} (hne : members ≠ [])
    (unfinished : List Frame) (rest : List Lexeme) :
    assemble .firstKey unfinished (memberLexemes members ++ rest) =
      assemble (.nextKey []) unfinished (memberLexemes members ++ rest) := by
  cases members with
  | nil => exact absurd rfl hne
  | cons entry others => cases others <;> rfl

/-- Putting the lexemes of a value together gives the value, whatever stands around it. -/
theorem assemble_lexemes_append (value : Json) : LexemesReassemble value := by
  induction value using induction with
  | scalar value hscalar =>
    intro unfinished rest
    cases value with
    | array | object => cases hscalar
    | _ => rfl
  | array items ih =>
    intro unfinished rest
    rw [lexemes, List.cons_append, List.append_assoc, List.singleton_append, assemble_of_step rfl]
    by_cases hempty : items = []
    · rw [hempty]
      rfl
    · rw [assemble_firstItem hempty, assemble_itemLexemes hempty ih]
      rfl
  | object members ih =>
    intro unfinished rest
    rw [lexemes, List.cons_append, List.append_assoc, List.singleton_append, assemble_of_step rfl]
    by_cases hempty : members = []
    · rw [hempty]
      rfl
    · rw [assemble_firstKey hempty]
      exact assemble_memberLexemes hempty ih [] unfinished rest

/-! ### Reading what was written -/

/-- A value whose numbers come back and that is readable throughout is read back from its text. -/
theorem read?_write {value : Json} (hvalue : ∀ node ∈ value.nodes, node.Rereads) :
    read? value.write = some value := by
  have hlexemes := lexemes?_chars_append value hvalue [] .nil
  have hassemble := assemble_lexemes_append value [] []
  rw [List.append_nil, lexemes?, Option.map_some] at hlexemes
  rw [read?, write, String.toList_ofList, hlexemes]
  exact hassemble

end SqlCompose.Json
