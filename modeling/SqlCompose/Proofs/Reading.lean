import SqlCompose.Proofs.Segment

/-!
What a reader makes of a form that was written down. The reader goes through the tokens of a form
and then has the segment of the form on top of whatever was open before; this is shown for each kind
of form, from the same fact on its parts. A form with an operator between two operands has to stand
by itself for that, and operands are put between parentheses where they do not.

`Form.reads` shows it for all forms and for every way of reading, and `Form.read_tokens` that a form
by itself is read as its closed segment.
-/

set_option autoImplicit false
set_option relaxedAutoImplicit false

namespace SqlCompose

/-! ### Words -/

/-- A token that every reader takes as it is. -/
@[reducible]
def Token.isStructural : Token → Bool
  | .space | .newline | .integer _ | .float _ | .decimal _ => false
  | _ => true

namespace Reader

variable (reader : Reader)

theorem words_nil : reader.words [] = [] := rfl

theorem words_append (first second : List Token) :
    reader.words (first ++ second) = reader.words first ++ reader.words second :=
  List.flatMap_append

theorem words_space_cons (rest : List Token) :
    reader.words (.space :: rest) = reader.words rest := rfl

theorem words_cons {token : Token} (htoken : token.isStructural = true) (rest : List Token) :
    reader.words (token :: rest) = token :: reader.words rest := by
  have hword : reader.word token = [token] := by
    cases token with
    | space | newline | integer | float | decimal => cases htoken
    | _ => simp [word, Token.isNegative, Token.magnitude]
  rw [words, List.flatMap_cons, hword]
  rfl

/-! ### Single steps -/

theorem run_of_step {state next : Expecting} {token : Token}
    (hstep : reader.step state token = some next) (rest : List Token) :
    reader.run state (token :: rest) = reader.run next rest := by
  rw [run, hstep, Option.bind_some]

theorem step_cast (stack : List Frame) (value : Phrase) :
    reader.step (.operator stack value) .cast =
      some (.type (reader.reduce 12 stack value).1 (reader.reduce 12 stack value).2) := rfl

theorem step_is (stack : List Frame) (value : Phrase) :
    reader.step (.operator stack value) (.keyword .is) =
      some (.nullOrNot (reader.reduce 4 stack value).1 (reader.reduce 4 stack value).2) := rfl

theorem step_between (stack : List Frame) (value : Phrase) :
    reader.step (.operator stack value) (.keyword .between) =
      some (.operand (.between (reader.reduce 6 stack value).2 ::
        (reader.reduce 6 stack value).1)) := rfl

theorem step_comma (stack : List Frame) (value : Phrase) :
    reader.step (.operator stack value) .comma =
      nextItem (reader.reduce 1 stack value).1 (reader.reduce 1 stack value).2 := rfl

/-- A bracket is closed when all operators in it are completed. -/
theorem step_closing {token : Token} (htoken : token = .closeParen ∨ token = .closeBracket)
    (stack : List Frame) (value : Phrase) :
    reader.step (.operator stack value) token =
      closeBracket token (reader.reduce 1 stack value).1 (reader.reduce 1 stack value).2 := by
  rcases htoken with rfl | rfl
  · rfl
  · rfl

theorem step_and {token : Token} (htoken : token.isAnd = true) (stack : List Frame)
    (value : Phrase) :
    reader.step (.operator stack value) token =
      some (joinConditions (reader.reduce 2 stack value).1 (reader.reduce 2 stack value).2) :=
  if_pos htoken

/-- Any other operator between two operands completes what binds as tightly. -/
theorem step_infixed {token : Token} {level : Nat} (hlevel : token.level? = some level)
    (hand : token.isAnd = false) (stack : List Frame) (value : Phrase) :
    reader.step (.operator stack value) token =
      some (.operand (.infixed token level (reader.reduce level stack value).2 ::
        (reader.reduce level stack value).1)) := by
  cases token with
  | operator symbol =>
    have hnot : ¬ (Token.operator symbol).isAnd = true := by simp [hand]
    exact (if_neg hnot).trans (congrArg (Option.map _) hlevel)
  | equal | notEqual | divide =>
    cases hlevel
    rfl
  | _ => cases hlevel

/-- A name without arguments is a word. -/
theorem run_arguments (stack : List Frame) (name : String) {rest : List Token}
    (hrest : rest.head? ≠ some .openParen) :
    reader.run (.arguments stack name) rest = reader.run (.operator stack (.word name)) rest := by
  cases rest with
  | nil => rfl
  | cons token rest =>
    have hstep : reader.step (.arguments stack name) token =
        reader.step (.operator stack (.word name)) token := by
      cases token with
      | openParen => exact absurd rfl hrest
      | _ => rfl
    rw [run, run, hstep]

end Reader

/-- A bracket around whole expressions. -/
def Frame.isEnclosing : Frame → Bool
  | group | items .. | any _ => true
  | _ => false

/-- The stack is empty, or the innermost thing open is a bracket around whole expressions. -/
def Enclosed (stack : List Frame) : Prop :=
  ∀ frame ∈ stack.head?, frame.isEnclosing = true

/-- Nothing on top of the stack binds as tightly as a cast. -/
def Reader.Admits (reader : Reader) (stack : List Frame) : Prop :=
  ∀ frame ∈ stack.head?, reader.level frame < 12

theorem Enclosed.level_lt {stack : List Frame} (hstack : Enclosed stack) (reader : Reader)
    {bound : Nat} (hbound : 1 ≤ bound) : ∀ frame ∈ stack.head?, reader.level frame < bound := by
  intro frame hframe
  have henclosing := hstack frame hframe
  cases frame with
  | group | items | any => exact hbound
  | _ => cases henclosing

theorem Segment.IsOpen.reduce_stack {reader : Reader} {segment : Segment}
    (hopen : segment.IsOpen reader) {stack : List Frame} (hstack : Enclosed stack) :
    reader.reduce 1 (segment.frames ++ stack) segment.value = (stack, segment.close) := by
  rw [reader.reduce_append (hstack.level_lt reader (Nat.le_refl 1)), reader.reduce_eq_close hopen]
  rfl

theorem enclosed_cons {frame : Frame} (hframe : frame.isEnclosing = true) (stack : List Frame) :
    Enclosed (frame :: stack) := by
  intro other hother
  cases hother
  exact hframe

theorem Enclosed.admits {reader : Reader} {stack : List Frame} (hstack : Enclosed stack) :
    reader.Admits stack :=
  hstack.level_lt reader (by decide)

namespace Form

variable {reader : Reader} {scope : Scope}

/-! ### Operands and lists -/

theorem isGrouped_of_isBinary {form : Form} (hbinary : form.isBinary = true) :
    form.isGrouped = true := by
  rw [isGrouped, hbinary, Bool.true_or]

/-- The reader takes the tokens of a form for the segment of the form, in which only operators are
open. A form with an operator between two operands has to stand by itself. -/
structure Reads (reader : Reader) (scope : Scope) (form : Form) : Prop where
  isOpen : (form.segment reader scope).IsOpen reader
  run_eq : ∀ stack, (form.isBinary = true → Enclosed stack) → reader.Admits stack →
    ∀ rest : List Token, rest.head? ≠ some .openParen →
      reader.run (.operand stack) (reader.words (form.tokens scope) ++ rest) =
        reader.run (.operator ((form.segment reader scope).frames ++ stack)
          (form.segment reader scope).value) rest

/-- A form between brackets, up to the token that ends it. -/
theorem Reads.run_enclosed {form : Form} (hreads : form.Reads reader scope) {stack : List Frame}
    (hstack : Enclosed stack) {token : Token} (htoken : token ≠ .openParen) (rest : List Token) :
    reader.run (.operand stack) (reader.words (form.tokens scope) ++ token :: rest) =
      reader.run (.operator ((form.segment reader scope).frames ++ stack)
        (form.segment reader scope).value) (token :: rest) :=
  hreads.run_eq stack (fun _ ↦ hstack) hstack.admits _ fun heq ↦
    htoken (Option.some.inj heq)

theorem Reads.run_group {form : Form} (hreads : form.Reads reader scope) (stack : List Frame)
    (rest : List Token) :
    reader.run (.operand stack)
        (.openParen :: (reader.words (form.tokens scope) ++ .closeParen :: rest)) =
      reader.run (.operator stack (form.segment reader scope).close) rest := by
  have hgroup : Enclosed (.group :: stack) := enclosed_cons rfl stack
  rw [reader.run_of_step rfl, hreads.run_enclosed hgroup (by simp)]
  refine reader.run_of_step ?_ rest
  rw [reader.step_closing (Or.inl rfl), hreads.isOpen.reduce_stack hgroup]
  rfl

/-- The items of a list, up to the bracket that ends it. -/
theorem run_items (head : Listing) {first : Form} {others : List Form}
    (hreads : ∀ form ∈ first :: others, form.Reads reader scope) (before : List Phrase)
    (stack : List Frame) (rest : List Token) :
    reader.run (.operand (.items head before :: stack))
        (reader.words (Token.commaSeparated (tokensOfEach scope (first :: others))) ++
          head.closing :: rest) =
      reader.run (.operator stack
        (.list head (before ++ closedSegments reader scope (first :: others)))) rest := by
  induction others generalizing first before with
  | nil =>
    have hfirst := hreads first (by simp)
    have hitems : Enclosed (.items head before :: stack) := enclosed_cons rfl stack
    have hclosing : head.closing = .closeParen ∨ head.closing = .closeBracket := by
      cases head with
      | call => exact Or.inl rfl
      | array => exact Or.inr rfl
    have hparen : head.closing ≠ .openParen := by
      intro heq
      rw [heq] at hclosing
      simp at hclosing
    rw [tokensOfEach, tokensOfEach, Token.commaSeparated, Token.separatedBy,
      hfirst.run_enclosed hitems hparen]
    refine reader.run_of_step ?_ rest
    rw [reader.step_closing hclosing, hfirst.isOpen.reduce_stack hitems]
    exact if_pos rfl
  | cons second others ih =>
    have hfirst := hreads first (by simp)
    have hitems : Enclosed (.items head before :: stack) := enclosed_cons rfl stack
    have hothers : ∀ form ∈ second :: others, form.Reads reader scope := fun form hform ↦
      hreads form (List.mem_cons_of_mem _ hform)
    have hcomma : reader.step (.operator ((first.segment reader scope).frames ++
        .items head before :: stack) (first.segment reader scope).value) .comma =
        some (.operand
          (.items head (before ++ [(first.segment reader scope).close]) :: stack)) := by
      rw [reader.step_comma, hfirst.isOpen.reduce_stack hitems]
      rfl
    have hsplit :
        reader.words (Token.commaSeparated (tokensOfEach scope (first :: second :: others))) ++
          head.closing :: rest = reader.words (first.tokens scope) ++ .comma ::
          (reader.words (Token.commaSeparated (tokensOfEach scope (second :: others))) ++
            head.closing :: rest) := by
      simp (disch := rfl) only [tokensOfEach, Token.commaSeparated, Token.separatedBy,
        Reader.words_append, Reader.words_cons, Reader.words_space_cons, List.append_assoc,
        List.cons_append, List.nil_append]
    rw [hsplit, hfirst.run_enclosed hitems (by simp), reader.run_of_step hcomma, ih hothers]
    simp [closedSegments]

/-- An operand, possibly between parentheses. -/
theorem Reads.run_operand {form : Form} (hreads : form.Reads reader scope) {group : Bool}
    (hgroup : form.isBinary = true → group = true) {stack : List Frame}
    (hstack : reader.Admits stack) {rest : List Token} (hrest : rest.head? ≠ some .openParen) :
    reader.run (.operand stack)
        (reader.words (Expr.grouped group (form.tokens scope)) ++ rest) =
      reader.run (.operator (((form.segment reader scope).grouped group).frames ++ stack)
        ((form.segment reader scope).grouped group).value) rest := by
  cases group with
  | false =>
    refine hreads.run_eq stack (fun hbinary ↦ ?_) hstack rest hrest
    cases hgroup hbinary
  | true =>
    have hparens : reader.words (Expr.grouped true (form.tokens scope)) ++ rest =
        .openParen :: (reader.words (form.tokens scope) ++ .closeParen :: rest) := by
      simp (disch := rfl) [Expr.grouped, Token.parenthesized, Reader.words_append,
        Reader.words_cons, Reader.words_nil]
    rw [hparens, hreads.run_group]
    rfl

/-! ### Reading each kind of form -/

theorem reduce_constant (reader : Reader) (token : Token) :
    (reader.constant token).reduce reader 12 = reader.constant token := by
  unfold Reader.constant
  split
  · split <;> rfl
  · rfl

theorem run_constant {token : Token} (htoken : token.isConstant = true) (stack : List Frame)
    (rest : List Token) :
    reader.run (.operand stack) (reader.word token ++ rest) =
      reader.run (.operator ((reader.constant token).frames ++ stack)
        (reader.constant token).value) rest := by
  have hconstant {other : Token} (hother : other.isConstant = true) (stack : List Frame) :
      reader.run (.operand stack) (other :: rest) =
        reader.run (.operator stack (.constant other)) rest := by
    refine reader.run_of_step ?_ rest
    cases other <;> first | rfl | cases hother
  have hmagnitude : token.magnitude.isConstant = true := by
    cases token <;> first | rfl | cases htoken
  have hword : reader.word token = if reader.takesSignsApart then
      (if token.isNegative then [.operator "-"] else []) ++ [token.magnitude] else [token] := by
    cases token <;> first | rfl | cases htoken
  rw [hword, Reader.constant]
  cases reader.takesSignsApart with
  | false => exact hconstant htoken stack
  | true =>
    cases token.isNegative with
    | false => exact hconstant hmagnitude stack
    | true =>
      have hsign : reader.step (.operand stack) (.operator "-") =
          some (.operand (.sign "-" :: stack)) := rfl
      exact (reader.run_of_step hsign _).trans (hconstant hmagnitude _)

/-- A cast completes what binds more tightly and nothing on the stack. -/
theorem run_cast (segment : Segment) {stack : List Frame} (hstack : reader.Admits stack)
    (type : ValueType) (rest : List Token) :
    reader.run (.operator (segment.frames ++ stack) segment.value)
        (.cast :: .typeName type :: rest) =
      reader.run (.operator (((segment.reduce reader 12).map (.cast · type)).frames ++ stack)
        ((segment.reduce reader 12).map (.cast · type)).value) rest := by
  have hcast : reader.step (.operator (segment.frames ++ stack) segment.value) .cast =
      some (.type ((segment.reduce reader 12).frames ++ stack)
        (segment.reduce reader 12).value) := by
    rw [reader.step_cast, reader.reduce_append hstack]
    rfl
  rw [reader.run_of_step hcast, reader.run_of_step rfl]
  rfl

theorem run_scalar {value : Literal} (hscalar : value.isScalar = true) {stack : List Frame}
    (hstack : reader.Admits stack) (rest : List Token) :
    reader.run (.operand stack) (reader.words value.scalarTokens ++ rest) =
      reader.run (.operator ((reader.scalar value.scalarTokens).frames ++ stack)
        (reader.scalar value.scalarTokens).value) rest := by
  have hplain {token : Token} (htoken : token.isConstant = true) :
      reader.run (.operand stack) (reader.words [token] ++ rest) =
        reader.run (.operator ((reader.constant token).frames ++ stack)
          (reader.constant token).value) rest := by
    rw [Reader.words, List.flatMap_singleton]
    exact run_constant htoken stack rest
  have htyped {token : Token} (htoken : token.isConstant = true) (type : ValueType) :
      reader.run (.operand stack) (reader.words [token, .cast, .typeName type] ++ rest) =
        reader.run (.operator (((reader.constant token).map (.cast · type)).frames ++ stack)
          ((reader.constant token).map (.cast · type)).value) rest := by
    have htail : reader.words [.cast, .typeName type] = [.cast, .typeName type] := by
      simp (disch := rfl) [Reader.words_cons, Reader.words_nil]
    have hwords : reader.words [token, .cast, .typeName type] ++ rest =
        reader.word token ++ .cast :: .typeName type :: rest := by
      rw [← List.singleton_append, reader.words_append, htail, Reader.words,
        List.flatMap_singleton, List.append_assoc]
      rfl
    rw [hwords, run_constant htoken, run_cast _ hstack, reduce_constant]
  cases value with
  | float value => exact htyped rfl .float
  | binary bytes => exact htyped rfl .binary
  | array elements elementType => cases hscalar
  | _ => exact hplain rfl

theorem joinConditions_eq {stack : List Frame}
    (hstack : ∀ frame ∈ stack.head?, ∀ value, frame ≠ .between value) (left : Phrase) :
    Reader.joinConditions stack left = .operand (.infixed (.operator "AND") 2 left :: stack) := by
  unfold Reader.joinConditions
  split
  · exact absurd rfl (hstack _ rfl _)
  · rfl

/-- Neither an operator nor a bracket around whole expressions is an unfinished range test. -/
theorem ne_between_of_mem_head? {frames stack : List Frame}
    (hframes : ∀ frame ∈ frames, 1 ≤ reader.level frame) (hstack : Enclosed stack) :
    ∀ frame ∈ (frames ++ stack).head?, ∀ value, frame ≠ .between value := by
  rintro frame hframe value rfl
  cases frames with
  | nil => cases hstack _ hframe
  | cons first frames =>
    cases hframe
    have hlevel := hframes (.between value) (by simp)
    cases hlevel

/-- An operator between two operands completes what binds as tightly and nothing on the stack. The
word between two conditions also stands between the bounds of a range, so it has a step of its
own. -/
theorem run_infixed {segment : Segment} (hopen : segment.IsOpen reader) {stack : List Frame}
    (hstack : Enclosed stack) {token : Token} {level : Nat} (hlevel : token.level? = some level)
    (hpositive : 1 ≤ level) (rest : List Token) :
    reader.run (.operator (segment.frames ++ stack) segment.value) (token :: rest) =
      reader.run (.operand (.infixed token level (segment.reduce reader level).value ::
        ((segment.reduce reader level).frames ++ stack))) rest := by
  refine reader.run_of_step ?_ rest
  have hreduce := reader.reduce_append (hstack.level_lt reader hpositive) segment.frames
    segment.value
  by_cases hand : token = .operator "AND"
  · subst hand
    obtain rfl : level = 2 := (Option.some.inj hlevel).symm
    have hjoin := joinConditions_eq
      (ne_between_of_mem_head? (hopen.reduce 2) hstack) (segment.reduce reader 2).value
    rw [reader.step_and rfl, hreduce]
    exact congrArg some hjoin
  · have hnot : token.isAnd = false := by
      cases token with
      | keyword heading => cases hlevel
      | operator symbol => simpa [Token.isAnd] using hand
      | _ => rfl
    rw [reader.step_infixed hlevel hnot, hreduce]
    rfl

/-- The second operand of an operator between two operands. -/
theorem Reads.run_right {form : Form} (hreads : form.Reads reader scope) {frame : Frame}
    (hframe : reader.level frame < 12) {stack : List Frame} {rest : List Token}
    (hrest : rest.head? ≠ some .openParen) :
    reader.run (.operand (frame :: stack))
        (reader.words (Expr.grouped form.isBinary (form.tokens scope)) ++ rest) =
      reader.run (.operator
        (((form.segment reader scope).grouped form.isBinary).frames ++ frame :: stack)
        ((form.segment reader scope).grouped form.isBinary).value) rest := by
  refine hreads.run_operand id (fun other hother ↦ ?_) hrest
  cases hother
  exact hframe

/-- A null test completes what binds as tightly and nothing on the stack. -/
theorem run_is {segment : Segment} {stack : List Frame} (hstack : Enclosed stack)
    (rest : List Token) :
    reader.run (.operator (segment.frames ++ stack) segment.value) (.keyword .is :: rest) =
      reader.run (.nullOrNot ((segment.reduce reader 4).frames ++ stack)
        (segment.reduce reader 4).value) rest := by
  refine reader.run_of_step ?_ rest
  rw [reader.step_is, reader.reduce_append (hstack.level_lt reader (by decide))]
  rfl

/-- A range test completes what binds as tightly and nothing on the stack. -/
theorem run_between {segment : Segment} {stack : List Frame} (hstack : Enclosed stack)
    (rest : List Token) :
    reader.run (.operator (segment.frames ++ stack) segment.value) (.keyword .between :: rest) =
      reader.run (.operand (.between (segment.reduce reader 6).value ::
        ((segment.reduce reader 6).frames ++ stack))) rest := by
  refine reader.run_of_step ?_ rest
  rw [reader.step_between, reader.reduce_append (hstack.level_lt reader (by decide))]
  rfl

/-- The word between the bounds of a range completes what the first bound left open. -/
theorem run_and {segment : Segment} (hfronted : segment.IsFronted)
    (hlevel : 2 ≤ reader.negationLevel) (value : Phrase) (stack : List Frame)
    (rest : List Token) :
    reader.run (.operator (segment.frames ++ .between value :: stack) segment.value)
        (.keyword .and :: rest) =
      reader.run (.operand (.betweenAnd value segment.close :: stack)) rest := by
  have hreduce : reader.reduce 2 (segment.frames ++ .between value :: stack) segment.value =
      (.between value :: stack, segment.close) := by
    rw [reader.reduce_append (fun frame hframe ↦ by cases hframe; simp [Reader.level]),
      reader.reduce_eq_close (hfronted.le_level (by omega) (by decide))]
    rfl
  refine reader.run_of_step ?_ rest
  rw [reader.step_and rfl, hreduce]
  rfl

section Kinds

theorem reads_column (position : UInt64) (name : String) :
    (column position name).Reads reader scope := by
  refine ⟨Segment.isOpen_nil _, fun stack _ _ rest _ ↦ ?_⟩
  simp (disch := rfl) only [tokens, columnTokens, Reader.words_cons, Reader.words_nil,
    List.cons_append, List.nil_append]
  rw [reader.run_of_step rfl, reader.run_of_step rfl, reader.run_of_step rfl]
  rfl

theorem Reads.negation {operand : Form} (hoperand : operand.Reads reader scope)
    (hlevel : 1 ≤ reader.negationLevel) : (negation operand).Reads reader scope := by
  refine ⟨fun frame hframe ↦ ?_, fun stack _ _ rest _ ↦ ?_⟩
  · rw [segment, List.mem_singleton] at hframe
    rw [hframe]
    exact hlevel
  · simp (disch := rfl) only [tokens, Token.parenthesized, Reader.words_append, Reader.words_cons,
      Reader.words_space_cons, Reader.words_nil, List.append_assoc, List.cons_append,
      List.nil_append]
    rw [reader.run_of_step rfl, hoperand.run_group]
    rfl

theorem Reads.nullTest {operand : Form} (hoperand : operand.Reads reader scope)
    (negated : Bool) : (nullTest operand negated).Reads reader scope := by
  refine ⟨(hoperand.isOpen.grouped _).reduce _, fun stack hstack hadmits rest _ ↦ ?_⟩
  cases negated with
  | false =>
    simp (disch := rfl) only [tokens, Expr.nullTest, Bool.false_eq_true, ↓reduceIte,
      Reader.words_append, Reader.words_cons, Reader.words_space_cons, Reader.words_nil,
      List.append_assoc, List.cons_append, List.nil_append]
    rw [hoperand.run_operand id hadmits (by simp), run_is (hstack rfl), reader.run_of_step rfl]
    rfl
  | true =>
    simp (disch := rfl) only [tokens, Expr.nullTest, ↓reduceIte, Reader.words_append,
      Reader.words_cons, Reader.words_space_cons, Reader.words_nil, List.append_assoc,
      List.cons_append, List.nil_append]
    rw [hoperand.run_operand id hadmits (by simp), run_is (hstack rfl), reader.run_of_step rfl,
      reader.run_of_step rfl]
    rfl

/-- Two operands with an operator between them. -/
theorem Reads.run_behind {left right : Form} (hleft : left.Reads reader scope)
    (hright : right.Reads reader scope) {stack : List Frame} (hstack : Enclosed stack)
    {token : Token} {level : Nat} (htoken : token.level? = some level) (hpositive : 1 ≤ level)
    (hbelow : level < 12) {rest : List Token} (hrest : rest.head? ≠ some .openParen) :
    reader.run (.operand stack) (reader.words (Expr.grouped left.isBinary (left.tokens scope)) ++
        token :: (reader.words (Expr.grouped right.isBinary (right.tokens scope)) ++ rest)) =
      reader.run (.operator ((Segment.behind (.infixed token level)
        (((left.segment reader scope).grouped left.isBinary).reduce reader level)
        ((right.segment reader scope).grouped right.isBinary)).frames ++ stack)
        ((right.segment reader scope).grouped right.isBinary).value) rest := by
  have hparen : token ≠ .openParen := by
    rintro rfl
    cases htoken
  have hframe (value : Phrase) : reader.level (.infixed token level value) < 12 := hbelow
  rw [hleft.run_operand id hstack.admits (by simpa using hparen),
    run_infixed (hleft.isOpen.grouped _) hstack htoken hpositive,
    hright.run_right (hframe _) hrest]
  simp [Segment.behind]

theorem Reads.equality {left right : Form} (hleft : left.Reads reader scope)
    (hright : right.Reads reader scope) (negated : Bool) :
    (equality left right negated).Reads reader scope := by
  refine ⟨((hleft.isOpen.grouped _).reduce _).behind (hright.isOpen.grouped _)
    fun _ ↦ by simp [Reader.level], fun stack hstack _ rest hrest ↦ ?_⟩
  cases negated <;>
    simp (disch := rfl) only [tokens, Expr.equalityTest, Bool.false_eq_true, ↓reduceIte,
      Reader.words_append, Reader.words_cons, Reader.words_space_cons, List.append_assoc,
      List.cons_append, List.nil_append] <;>
    exact hleft.run_behind hright (hstack rfl) rfl (by decide) (by decide) hrest

theorem Reads.infixed {left right : Form} (hleft : left.Reads reader scope)
    (hright : right.Reads reader scope) {symbol : String} (hsymbol : 1 ≤ symbolLevel symbol) :
    (infixed symbol left right).Reads reader scope := by
  have hlookup : (Token.operator symbol).level? = some (symbolLevel symbol) := by
    unfold symbolLevel at hsymbol ⊢
    cases hfound : symbolLevels.lookup symbol with
    | none => simp [hfound] at hsymbol
    | some level => simpa [Token.level?] using hfound
  refine ⟨((hleft.isOpen.grouped _).reduce _).behind (hright.isOpen.grouped _)
    fun _ ↦ hsymbol, fun stack hstack _ rest hrest ↦ ?_⟩
  simp (disch := rfl) only [tokens, Reader.words_append, Reader.words_cons,
    Reader.words_space_cons, List.append_assoc, List.cons_append, List.nil_append]
  exact hleft.run_behind hright (hstack rfl) hlookup hsymbol (symbolLevel_lt symbol) hrest

/-- A test for membership begins as an equality does; the word after the sign tells them apart. -/
theorem Reads.membership {value collection : Form} (hvalue : value.Reads reader scope)
    (hcollection : collection.Reads reader scope) :
    (membership value collection).Reads reader scope := by
  refine ⟨(hvalue.isOpen.grouped _).reduce _, fun stack hstack hadmits rest _ ↦ ?_⟩
  have henclosed := hstack rfl
  simp (disch := rfl) only [tokens, Expr.anyTest, Token.parenthesized, Reader.words_append,
    Reader.words_cons, Reader.words_space_cons, Reader.words_nil, List.append_assoc,
    List.cons_append, List.nil_append]
  rw [hvalue.run_operand id hadmits (by simp),
    run_infixed (hvalue.isOpen.grouped _) henclosed rfl (by decide), reader.run_of_step rfl,
    reader.run_of_step rfl]
  have hany (left : Phrase) (stack : List Frame) : Enclosed (.any left :: stack) :=
    enclosed_cons rfl stack
  rw [hcollection.run_enclosed (hany _ _) (by simp)]
  refine reader.run_of_step ?_ rest
  rw [reader.step_closing (Or.inl rfl), hcollection.isOpen.reduce_stack (hany _ _)]
  rfl

theorem Reads.between {value first last : Form} (hvalue : value.Reads reader scope)
    (hfirst : first.Reads reader scope) (hlast : last.Reads reader scope)
    (hlevel : 2 ≤ reader.negationLevel) : (between value first last).Reads reader scope := by
  refine ⟨((hvalue.isOpen.grouped _).reduce _).behind (hlast.isOpen.grouped _)
    fun _ ↦ by simp [Reader.level], fun stack hstack hadmits rest hrest ↦ ?_⟩
  have henclosed := hstack rfl
  simp (disch := rfl) only [tokens, Expr.betweenTest, Reader.words_append, Reader.words_cons,
    Reader.words_space_cons, List.append_assoc, List.cons_append, List.nil_append]
  rw [hvalue.run_operand id hadmits (by simp), run_between henclosed,
    hfirst.run_right (by simp [Reader.level]) (by simp),
    run_and (isFronted_operand reader scope first) hlevel,
    hlast.run_right (by simp [Reader.level]) hrest]
  simp [segment, Segment.behind]

theorem Reads.truncation {operand : Form} (hoperand : operand.Reads reader scope)
    (unit : Truncation) : (truncation unit operand).Reads reader scope := by
  refine ⟨(hoperand.isOpen.grouped _).reduce _, fun stack _ hadmits rest _ ↦ ?_⟩
  simp (disch := rfl) only [tokens, Reader.words_append, Reader.words_cons, Reader.words_nil,
    List.append_assoc, List.cons_append, List.nil_append]
  rw [hoperand.run_operand isGrouped_of_isBinary hadmits (by simp), run_cast _ hadmits]
  rfl

theorem Reads.quotient {left right : Form} (hleft : left.Reads reader scope)
    (hright : right.Reads reader scope) : (quotient left right).Reads reader scope := by
  refine ⟨((hleft.isOpen.grouped _).reduce _).behind ((hright.isOpen.grouped _).reduce _)
    fun _ ↦ by simp [Reader.level], fun stack hstack hadmits rest _ ↦ ?_⟩
  have hframe (left : Phrase) (stack : List Frame) :
      reader.Admits (.infixed .divide 9 left :: stack) := by
    intro frame hframe
    cases hframe
    simp [Reader.level]
  simp (disch := rfl) only [tokens, Expr.quotient, Reader.words_append, Reader.words_cons,
    Reader.words_space_cons, Reader.words_nil, List.append_assoc, List.cons_append,
    List.nil_append]
  rw [hleft.run_operand id hadmits (by simp),
    run_infixed (hleft.isOpen.grouped _) (hstack rfl) rfl (by decide),
    hright.run_operand isGrouped_of_isBinary (hframe _ _) (by simp), run_cast _ (hframe _ _)]
  simp [segment, Segment.behind]

theorem Reads.signed {operand : Form} (hoperand : operand.Reads reader scope) {symbol : String}
    (hsymbol : symbol = "-" ∨ symbol = "+") : (signed symbol operand).Reads reader scope := by
  refine ⟨(hoperand.isOpen.grouped _).before (by simp [Reader.level]),
    fun stack _ hadmits rest hrest ↦ ?_⟩
  have hsign : reader.Admits (.sign symbol :: stack) := by
    intro frame hframe
    cases hframe
    simp [Reader.level]
  have hstep : reader.step (.operand stack) (.operator symbol) =
      some (.operand (.sign symbol :: stack)) := if_pos hsymbol
  simp (disch := rfl) only [tokens, Reader.words_cons, List.cons_append]
  rw [reader.run_of_step hstep, hoperand.run_operand isGrouped_of_isBinary hsign hrest]
  simp [segment, Segment.before]

theorem reads_word (name : String) : (word name).Reads reader scope := by
  refine ⟨Segment.isOpen_nil _, fun stack _ _ rest hrest ↦ ?_⟩
  simp (disch := rfl) only [tokens, Reader.words_cons, Reader.words_nil, List.cons_append,
    List.nil_append]
  rw [reader.run_of_step rfl, reader.run_arguments stack name hrest]
  rfl

theorem reads_function {name : String} {arguments : List Form}
    (harguments : ∀ argument ∈ arguments, argument.Reads reader scope) :
    (function name arguments).Reads reader scope := by
  refine ⟨Segment.isOpen_nil _, fun stack _ _ rest _ ↦ ?_⟩
  simp (disch := rfl) only [tokens, Expr.functionCall, Token.parenthesized, Reader.words_cons,
    Reader.words_append, Reader.words_nil, List.append_assoc, List.cons_append, List.nil_append]
  rw [reader.run_of_step rfl, reader.run_of_step rfl]
  cases arguments with
  | nil => exact reader.run_of_step rfl rest
  | cons first others => exact run_items (.call name) harguments [] stack rest

theorem reads_array {first : Form} {others : List Form}
    (helements : ∀ element ∈ first :: others, element.Reads reader scope) :
    (array first others).Reads reader scope := by
  refine ⟨Segment.isOpen_nil _, fun stack _ _ rest _ ↦ ?_⟩
  simp (disch := rfl) only [tokens, Reader.words_cons, Reader.words_append, Reader.words_nil,
    List.append_assoc, List.cons_append, List.nil_append]
  rw [reader.run_of_step rfl, reader.run_of_step rfl]
  exact run_items .array helements [] stack rest

theorem reads_emptyArray (elementType : ValueType) :
    (emptyArray elementType).Reads reader scope := by
  refine ⟨Segment.isOpen_nil _, fun stack _ hadmits rest _ ↦ ?_⟩
  simp (disch := rfl) only [tokens, arrayTokens, Token.commaSeparated, Token.separatedBy,
    List.isEmpty_nil, ↓reduceIte, Reader.words_cons, Reader.words_nil, List.cons_append,
    List.nil_append]
  rw [reader.run_of_step rfl, reader.run_of_step rfl, reader.run_of_step rfl]
  exact run_cast ⟨[], .list .array []⟩ hadmits _ rest

theorem reads_scalar {value : Literal} (hscalar : value.isScalar = true)
    (hlevel : 1 ≤ reader.negationLevel) : (scalar value hscalar).Reads reader scope :=
  ⟨(isFronted_operand reader scope (scalar value hscalar)).le_level hlevel (by decide),
    fun _ _ hadmits rest _ ↦ run_scalar hscalar hadmits rest⟩

end Kinds

/-! ### Reading a whole form -/

/-- A node that a reader can take in: signs are signs, and operators have a level. -/
def IsReadable : Form → Prop
  | wholeSource _ => False
  | bareRange _ _ => False
  | infixed symbol _ _ => 1 ≤ symbolLevel symbol
  | signed symbol _ => symbol = "-" ∨ symbol = "+"
  | _ => True

/-- Reading the tokens of a form amounts to its segment. -/
theorem reads {reader : Reader} (hlevel : 2 ≤ reader.negationLevel) (scope : Scope) (form : Form)
    (hreadable : ∀ node ∈ form.nodes, node.IsReadable) : form.Reads reader scope := by
  induction form using Form.induction with
  | column position name => exact reads_column position name
  | wholeSource position => exact absurd (hreadable _ (mem_nodes_self _)) id
  | negation operand ih =>
    simp only [nodes, List.forall_mem_cons] at hreadable
    exact (ih hreadable.2).negation (Nat.le_of_lt hlevel)
  | nullTest operand negated ih =>
    simp only [nodes, List.forall_mem_cons] at hreadable
    exact (ih hreadable.2).nullTest negated
  | equality left right negated ihleft ihright =>
    simp only [nodes, List.forall_mem_cons, List.forall_mem_append] at hreadable
    exact (ihleft hreadable.2.1).equality (ihright hreadable.2.2) negated
  | membership value collection ihvalue ihcollection =>
    simp only [nodes, List.forall_mem_cons, List.forall_mem_append] at hreadable
    exact (ihvalue hreadable.2.1).membership (ihcollection hreadable.2.2)
  | between value first last ihvalue ihfirst ihlast =>
    simp only [nodes, List.forall_mem_cons, List.forall_mem_append] at hreadable
    exact (ihvalue hreadable.2.1.1).between (ihfirst hreadable.2.1.2) (ihlast hreadable.2.2) hlevel
  | bareRange first last => exact absurd (hreadable _ (mem_nodes_self _)) id
  | quotient left right ihleft ihright =>
    simp only [nodes, List.forall_mem_cons, List.forall_mem_append] at hreadable
    exact (ihleft hreadable.2.1).quotient (ihright hreadable.2.2)
  | truncation unit operand ih =>
    simp only [nodes, List.forall_mem_cons] at hreadable
    exact (ih hreadable.2).truncation unit
  | infixed symbol left right ihleft ihright =>
    simp only [nodes, List.forall_mem_cons, List.forall_mem_append] at hreadable
    exact (ihleft hreadable.2.1).infixed (ihright hreadable.2.2) hreadable.1
  | signed symbol operand ih =>
    simp only [nodes, List.forall_mem_cons] at hreadable
    exact (ih hreadable.2).signed hreadable.1
  | word name => exact reads_word name
  | function name arguments ih =>
    simp only [nodes, List.forall_mem_cons, forall_mem_nodesOfEach] at hreadable
    exact reads_function fun argument hmem ↦ ih argument hmem (hreadable.2 argument hmem)
  | scalar value hscalar => exact reads_scalar hscalar (Nat.le_of_lt hlevel)
  | array first rest ih =>
    simp only [nodes, List.forall_mem_cons, List.forall_mem_append,
      forall_mem_nodesOfEach] at hreadable
    refine reads_array fun element hmem ↦ ih element hmem ?_
    rcases List.mem_cons.mp hmem with rfl | hmem
    · exact hreadable.2.1
    · exact hreadable.2.2 element hmem
  | emptyArray elementType => exact reads_emptyArray elementType

/-- A form by itself is read as its closed segment. -/
theorem read_tokens {reader : Reader} (hlevel : 2 ≤ reader.negationLevel) (scope : Scope)
    {form : Form} (hreadable : ∀ node ∈ form.nodes, node.IsReadable) :
    reader.read (form.tokens scope) = some (form.segment reader scope).close := by
  have hreads := reads hlevel scope form hreadable
  have hempty : Enclosed [] := by
    intro frame hframe
    cases hframe
  have hrun := hreads.run_eq [] (fun _ ↦ hempty) hempty.admits [] (by simp)
  rw [List.append_nil] at hrun
  rw [Reader.read, hrun, Reader.run, Reader.finish, hreads.isOpen.reduce_stack hempty]

end Form

end SqlCompose
