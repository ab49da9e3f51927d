import SqlCompose.Proofs.Origin
import SqlCompose.Proofs.Reading

/-!
Which operands an operator gets when the written expression is read again. The phrase of a form
gives every operator the operands that it has in the form. Parentheses are written around operands
with an operator between operands, and around signed ones where a sign or a cast is next to them,
but never around a negation. A negation binds less tightly than most operators, so an operator
behind it takes the operand of the negation away: `NOT (a) IS NULL` is the negation of a null test,
whether or not it was written as the null test of a negation.

`Form.close_segment_eq_phrase_iff` shows that this is the only way in which an operand gets lost:
reading gives back the phrase of a form exactly if no operator that binds more tightly than a
negation stands behind an open one. The same holds of the expressions that can be composed.
-/

set_option autoImplicit false
set_option relaxedAutoImplicit false

namespace SqlCompose

/-! ### Phrases of forms -/

namespace Form

mutual

/-- The phrase of a form: every operator has the operands that it has in the form. A negative number
is a sign before a number if the reader takes signs apart. -/
def phrase (reader : Reader) (scope : Scope) : Form → Phrase
  | column position name => .column (scope.aliases.getD position.toNat "") name
  | negation operand => .negation (phrase reader scope operand)
  | nullTest operand negated => .nullTest (phrase reader scope operand) negated
  | equality left right negated =>
    .infixed (if negated then .notEqual else .equal) (phrase reader scope left)
      (phrase reader scope right)
  | membership value collection =>
    .membership (phrase reader scope value) (phrase reader scope collection)
  | between value first last =>
    .between (phrase reader scope value) (phrase reader scope first) (phrase reader scope last)
  | quotient left right =>
    .infixed .divide (phrase reader scope left) (.cast (phrase reader scope right) .decimal)
  | truncation unit operand => .cast (phrase reader scope operand) unit.valueType
  | infixed symbol left right =>
    .infixed (.operator symbol) (phrase reader scope left) (phrase reader scope right)
  | signed symbol operand => .sign symbol (phrase reader scope operand)
  | word name => .word name
  | function name arguments => .list (.call name) (phrases reader scope arguments)
  | scalar value _ => (reader.scalar value.scalarTokens).close
  | array first rest =>
    .list .array (phrase reader scope first :: phrases reader scope rest)
  | emptyArray elementType => .cast (.list .array []) (.array elementType)
  -- The remaining forms have no phrase of their own.
  | wholeSource _ => .list .array []
  | bareRange _ _ => .list .array []

/-- The phrases of each of several forms. -/
def phrases (reader : Reader) (scope : Scope) : List Form → List Phrase
  | [] => []
  | form :: rest => phrase reader scope form :: phrases reader scope rest

end

/-! ### Operands before an operator -/

/-- Keeps together when an operator of the given level follows. -/
def staysWhole (level : Nat) (operand : Form) (bound : Nat) : Bool :=
  !operand.opensNegation level || decide (bound ≤ level)

/-- The operands of this node that have an operator behind them keep together. -/
def keepsOperands (level : Nat) : Form → Bool
  | nullTest operand _ => operand.staysWhole level 4
  | equality left _ _ => left.staysWhole level 5
  | membership value _ => value.staysWhole level 5
  | between value _ _ => value.staysWhole level 6
  | quotient left right =>
    left.staysWhole level 9 && (right.isGrouped || right.staysWhole level 12)
  | truncation _ operand => operand.isGrouped || operand.staysWhole level 12
  | infixed symbol left _ => left.staysWhole level (symbolLevel symbol)
  | _ => true

end Form

/-! ### Closing a segment -/

/-- A sign or a negation before an operand. -/
def Phrase.isFront : Phrase → Bool
  | sign _ _ | negation _ => true
  | _ => false

namespace Segment

theorem close_append (first second : List Frame) (value : Phrase) :
    close ⟨first ++ second, value⟩ = close ⟨second, close ⟨first, value⟩⟩ :=
  List.foldl_append

theorem close_grouped (group : Bool) (segment : Segment) :
    (segment.grouped group).close = segment.close := by
  cases group <;> rfl

theorem close_before (frame : Frame) (segment : Segment) :
    (segment.before frame).close = frame.complete segment.close :=
  close_append segment.frames [frame] segment.value

theorem close_behind (frame : Phrase → Frame) (left right : Segment) :
    (behind frame left right).close =
      close ⟨left.frames, (frame left.value).complete right.close⟩ :=
  close_append right.frames (frame left.value :: left.frames) right.value

/-- Where an operator in front is open, the closed segment begins with such an operator. -/
theorem IsFronted.isFront_close {segment : Segment} (hfronted : segment.IsFronted)
    (hframes : segment.frames ≠ []) (value : Phrase) :
    (close ⟨segment.frames, value⟩).isFront = true := by
  have hlast := hfronted _ (List.getLast_mem hframes)
  rw [← List.dropLast_append_getLast hframes, close_append]
  generalize segment.frames.getLast hframes = frame at hlast
  cases frame with
  | sign | negation => rfl
  | _ => cases hlast

/-- An operand before an operator: if it is kept it has become a single value, and otherwise an
operator in front is still open. -/
def Keeps (kept : Bool) (value : Phrase) (segment : Segment) : Prop :=
  if kept then segment = ⟨[], value⟩ else segment.IsFronted ∧ segment.frames ≠ []

/-- A negation that binds less tightly than the next operator is all that keeps an operand open;
signs are less tight than casts only. -/
theorem OpensFront.keeps {reader : Reader} {opens : Bool} {symbols : List String}
    {segment : Segment} (hopens : segment.OpensFront opens symbols) {bound : Nat}
    (hsymbols : symbols = [] ∨ bound ≤ 11) :
    (segment.reduce reader bound).Keeps (!opens || decide (bound ≤ reader.negationLevel))
      segment.close := by
  have hsigns : ∀ frame ∈ symbols.map Frame.sign, bound ≤ reader.level frame := by
    rintro frame hframe
    obtain ⟨symbol, hsymbol, rfl⟩ := List.mem_map.mp hframe
    exact hsymbols.resolve_left (List.ne_nil_of_mem hsymbol)
  cases opens with
  | false =>
    have hframes : segment.frames = symbols.map .sign := hopens
    rw [Keeps, reduce, reader.reduce_eq_close (hframes ▸ hsigns)]
    rfl
  | true =>
    have hframes : segment.frames = .negation :: symbols.map .sign := hopens
    by_cases hbound : bound ≤ reader.negationLevel
    · have hall : ∀ frame ∈ segment.frames, bound ≤ reader.level frame := by
        rw [hframes, List.forall_mem_cons]
        exact ⟨hbound, hsigns⟩
      rw [Keeps, reduce, reader.reduce_eq_close hall, decide_eq_true hbound]
      rfl
    · have hstop : segment.reduce reader bound = segment := by
        have hlevel : ¬ bound ≤ reader.level .negation := hbound
        rw [reduce, hframes, Reader.reduce, if_neg hlevel, ← hframes]
      rw [hstop, decide_eq_false hbound]
      exact ⟨hopens.isFronted, by rw [hframes]; exact List.cons_ne_nil _ _⟩

/-- An operator behind an operand makes the expected phrase exactly if the operand is kept and
that phrase is made from the whole operand. Otherwise what is left open ends up around the operator,
so that the phrase begins with a sign or a negation. -/
theorem Keeps.close_eq_iff {kept : Bool} {value : Phrase} {segment : Segment}
    (hkeeps : segment.Keeps kept value) (change : Phrase → Phrase) {expected : Phrase}
    (hexpected : expected.isFront = false) :
    close ⟨segment.frames, change segment.value⟩ = expected ↔
      kept = true ∧ change value = expected := by
  cases kept with
  | true =>
    obtain rfl : segment = ⟨[], value⟩ := hkeeps
    exact (and_iff_right rfl).symm
  | false =>
    obtain ⟨hfronted, hframes⟩ := hkeeps
    have hfront := hfronted.isFront_close hframes (change segment.value)
    refine iff_of_false (fun heq ↦ ?_) (fun hkept ↦ ?_)
    · rw [heq, hexpected] at hfront
      cases hfront
    · cases hkept.1

end Segment

namespace Form

variable {reader : Reader} {scope : Scope}

/-- An operand before an operator between operands. -/
theorem keeps_operand (operand : Form) {bound : Nat} (hbound : bound ≤ 11) :
    (((operand.segment reader scope).grouped operand.isBinary).reduce reader bound).Keeps
      (operand.staysWhole reader.negationLevel bound)
      (operand.segment reader scope).close := by
  cases hbinary : operand.isBinary with
  | true =>
    have hclosed : operand.opensNegation reader.negationLevel = false := by
      cases operand <;> first | rfl | cases hbinary
    rw [staysWhole, hclosed]
    rfl
  | false =>
    obtain ⟨symbols, hopens⟩ := opensFront_of_not_isBinary reader scope hbinary
    exact hopens.keeps (Or.inr hbound)

/-- An operand before a cast. -/
theorem keeps_castOperand (operand : Form) :
    (((operand.segment reader scope).grouped operand.isGrouped).reduce reader 12).Keeps
      (operand.isGrouped || operand.staysWhole reader.negationLevel 12)
      (operand.segment reader scope).close := by
  cases hgrouped : operand.isGrouped with
  | true => rfl
  | false =>
    have hopens : (operand.segment reader scope).OpensFront
        (operand.opensNegation reader.negationLevel) [] := by
      rw [Segment.OpensFront, frames_of_not_isGrouped hgrouped, List.map_nil, List.append_nil]
    exact hopens.keeps (Or.inl rfl)

/-! ### Reading back -/

theorem closedSegments_eq_phrases_iff (forms : List Form) (hforms : ∀ form ∈ forms,
      (form.segment reader scope).close = form.phrase reader scope ↔
        ∀ node ∈ form.nodes, node.keepsOperands reader.negationLevel = true) :
    closedSegments reader scope forms = phrases reader scope forms ↔
      ∀ node ∈ nodesOfEach forms, node.keepsOperands reader.negationLevel = true := by
  induction forms with
  | nil => simp [closedSegments, phrases, nodesOfEach]
  | cons form rest ih =>
    rw [List.forall_mem_cons] at hforms
    rw [closedSegments, phrases, List.cons.injEq, nodesOfEach, List.forall_mem_append, hforms.1,
      ih hforms.2]

/-- A form is read as its phrase exactly if all its nodes keep their operands. -/
theorem close_segment_eq_phrase_iff (reader : Reader) (scope : Scope) {form : Form}
    (hreadable : ∀ node ∈ form.nodes, node.IsReadable) :
    (form.segment reader scope).close = form.phrase reader scope ↔
      ∀ node ∈ form.nodes, node.keepsOperands reader.negationLevel = true := by
  induction form using Form.induction with
  | column | wholeSource | word | scalar | emptyArray =>
    exact iff_of_true rfl (by simp [nodes, keepsOperands])
  | bareRange first last => exact absurd (hreadable _ (mem_nodes_self _)) id
  | negation operand ih =>
    simp only [nodes, List.forall_mem_cons] at hreadable ⊢
    have hclose : ((negation operand).segment reader scope).close =
        .negation (operand.segment reader scope).close := rfl
    rw [hclose, phrase, Phrase.negation.injEq, ih hreadable.2]
    exact (and_iff_right rfl).symm
  | nullTest operand negated ih =>
    simp only [nodes, List.forall_mem_cons] at hreadable ⊢
    rw [segment, phrase, Segment.map]
    refine ((keeps_operand operand (by decide)).close_eq_iff (.nullTest · negated) rfl).trans ?_
    simp [keepsOperands, ih hreadable.2]
  | equality left right negated ihleft ihright =>
    simp only [nodes, List.forall_mem_cons, List.forall_mem_append] at hreadable ⊢
    rw [segment, phrase, Segment.close_behind, Segment.close_grouped]
    refine ((keeps_operand left (by decide)).close_eq_iff
      (.infixed (if negated then .notEqual else .equal) · (right.segment reader scope).close)
      rfl).trans ?_
    simp [keepsOperands, ihleft hreadable.2.1, ihright hreadable.2.2]
  | membership value collection ihvalue ihcollection =>
    simp only [nodes, List.forall_mem_cons, List.forall_mem_append] at hreadable ⊢
    rw [segment, phrase, Segment.map]
    refine ((keeps_operand value (by decide)).close_eq_iff
      (.membership · (collection.segment reader scope).close) rfl).trans ?_
    simp [keepsOperands, ihvalue hreadable.2.1, ihcollection hreadable.2.2]
  | between value first last ihvalue ihfirst ihlast =>
    simp only [nodes, List.forall_mem_cons, List.forall_mem_append] at hreadable ⊢
    rw [segment, phrase, Segment.close_behind, Segment.close_grouped, Segment.close_grouped]
    refine ((keeps_operand value (by decide)).close_eq_iff
      (.between · (first.segment reader scope).close (last.segment reader scope).close)
      rfl).trans ?_
    simp [keepsOperands, ihvalue hreadable.2.1.1, ihfirst hreadable.2.1.2, ihlast hreadable.2.2,
      and_assoc]
  | quotient left right ihleft ihright =>
    simp only [nodes, List.forall_mem_cons, List.forall_mem_append] at hreadable ⊢
    rw [segment, phrase, Segment.close_behind, Segment.map]
    refine ((keeps_operand left (by decide)).close_eq_iff
      (.infixed .divide · (Segment.close ⟨_, _⟩)) rfl).trans ?_
    rw [Phrase.infixed.injEq, (keeps_castOperand right).close_eq_iff (.cast · .decimal) rfl]
    simp [keepsOperands, ihleft hreadable.2.1, ihright hreadable.2.2, and_assoc, and_left_comm]
  | truncation unit operand ih =>
    simp only [nodes, List.forall_mem_cons] at hreadable ⊢
    rw [segment, phrase, Segment.map]
    refine ((keeps_castOperand operand).close_eq_iff (.cast · unit.valueType) rfl).trans ?_
    simp [keepsOperands, ih hreadable.2]
  | infixed symbol left right ihleft ihright =>
    have hbound : symbolLevel symbol ≤ 11 := Nat.le_of_lt_succ (symbolLevel_lt symbol)
    simp only [nodes, List.forall_mem_cons, List.forall_mem_append] at hreadable ⊢
    rw [segment, phrase, Segment.close_behind, Segment.close_grouped]
    refine ((keeps_operand left hbound).close_eq_iff
      (.infixed (.operator symbol) · (right.segment reader scope).close) rfl).trans ?_
    simp [keepsOperands, ihleft hreadable.2.1, ihright hreadable.2.2]
  | signed symbol operand ih =>
    simp only [nodes, List.forall_mem_cons] at hreadable ⊢
    rw [segment, phrase, Segment.close_before, Segment.close_grouped]
    simp [Frame.complete, keepsOperands, ih hreadable.2]
  | function name arguments ih =>
    rw [nodes, List.forall_mem_cons, forall_mem_nodesOfEach] at hreadable
    have harguments := closedSegments_eq_phrases_iff arguments fun argument hmem ↦
      ih argument hmem (hreadable.2 argument hmem)
    rw [nodes, List.forall_mem_cons, ← harguments]
    simp [segment, phrase, Segment.close, keepsOperands]
  | array first rest ih =>
    have hnodes : (array first rest).nodes = array first rest :: nodesOfEach (first :: rest) := rfl
    rw [hnodes, List.forall_mem_cons, forall_mem_nodesOfEach] at hreadable
    have helements := closedSegments_eq_phrases_iff (first :: rest) fun element hmem ↦
      ih element hmem (hreadable.2 element hmem)
    rw [hnodes, List.forall_mem_cons, ← helements]
    simp [segment, phrase, closedSegments, phrases, Segment.close, keepsOperands]

end Form

/-! ### Expressions -/

/-- A reader can take in what a rule makes of a call. -/
def CallRule.isReadable : CallRule → Bool
  | between symbol => decide (1 ≤ symbolLevel symbol)
  | before symbol => symbol == "-" || symbol == "+"
  | _ => true

theorem isReadable_form_callRule (name : String) (arguments : List Form) :
    ((callRule name arguments.length).form arguments).IsReadable := by
  have hcatalog : ∀ entry ∈ catalog, entry.rule.isReadable = true := by decide
  have hrule : (callRule name arguments.length).isReadable = true := by
    rcases callRule_eq_fallback_or_mem name arguments.length with hrule | ⟨entry, hmem, -, -, hrule⟩
    · rw [hrule]
      rfl
    · rw [hrule]
      exact hcatalog entry hmem
  rcases callRule_cases name arguments with ⟨symbol, left, right, rfl, heq⟩ |
    ⟨symbol, operand, rfl, heq⟩ | ⟨bare, rfl, heq⟩ | ⟨function, heq⟩ | heq
  · rw [heq] at hrule ⊢
    have hlevel : 1 ≤ symbolLevel symbol := of_decide_eq_true hrule
    exact hlevel
  · rw [heq, CallRule.isReadable, Bool.or_eq_true, beq_iff_eq, beq_iff_eq] at hrule
    rw [heq]
    exact hrule
  · rw [heq]
    exact trivial
  · rw [heq]
    exact trivial
  · rw [heq]
    exact trivial

/-- An expression that can be composed and refers to no whole source can be read. -/
theorem Expr.isReadable_form {expr : Expr} (hranges : expr.rangesInPlace = true)
    (hsources : ∀ position, source position ∉ expr.nodes) :
    ∀ node ∈ expr.form.nodes, node.IsReadable := by
  have hplain (form : Form) (hform : form.isPlain = true) : form.IsReadable := by
    cases form <;> first | exact trivial | cases hform
  refine Expr.forall_mem_nodes_form hplain hranges fun origin horigin ↦ ?_
  cases origin with
  | source position => exact absurd horigin (hsources position)
  | call name arguments =>
    have hform := isReadable_form_callRule name (formOfEach arguments)
    rwa [formOfEach_eq_map, List.length_map, ← formOfEach_eq_map] at hform
  | literal value => exact fun _ _ _ ↦ trivial
  | _ => exact trivial

/-- Whenever an expression without whole sources is composed, the tokens can be read. Every operator
then has the operands that it has in the expression, exactly if no operator that binds more tightly
than a negation stands behind an open one. -/
theorem Expr.read_tokens_eq_phrase_iff {scope : Scope} {expr : Expr} {tokens : List Token}
    (hok : expr.tokens scope = .ok tokens) (hsources : ∀ position, source position ∉ expr.nodes) :
    (∃ phrase, Reader.postgres.read tokens = some phrase) ∧
      (Reader.postgres.read tokens = some (expr.form.phrase .postgres scope) ↔
        ∀ node ∈ expr.form.nodes, node.keepsOperands Reader.postgres.negationLevel = true) := by
  obtain ⟨rfl, hcomposable⟩ := tokens_eq_of_ok hok
  have hreadable := isReadable_form hcomposable.2.2.2 hsources
  have hlevel : 2 ≤ Reader.postgres.negationLevel := by decide
  have hread := Form.read_tokens hlevel scope hreadable
  refine ⟨⟨_, hread⟩, ?_⟩
  rw [hread, Option.some.injEq]
  exact Form.close_segment_eq_phrase_iff .postgres scope hreadable

/-- The null test of a quotient with a negative number and a cast, below a negation. -/
theorem Expr.read_tokens_eq_phrase_quotient :
    ∃ tokens, (not (isNull (div (literal (.integer (-1))) (field 0 "a")))).tokens
        ⟨[], ["u0"], 10⟩ = .ok tokens ∧
      Reader.postgres.read tokens = some (.negation (.nullTest (.infixed .divide
        (.sign "-" (.constant (.count 1))) (.cast (.column "u0" "a") .decimal)) false)) := by
  obtain ⟨tokens, hok⟩ : ∃ tokens,
      (not (isNull (div (literal (.integer (-1))) (field 0 "a")))).tokens ⟨[], ["u0"], 10⟩ =
        .ok tokens := ⟨_, rfl⟩
  have hread := read_tokens_eq_phrase_iff hok (by simp [nodes, isNull, eq, null])
  exact ⟨tokens, hok, hread.2.mpr (by decide)⟩

/-- A null test takes the operand of the negation before it away: what was written as the null test
of a negation is understood as the negation of a null test. -/
theorem Expr.read_tokens_isNull_not :
    ∃ tokens, (isNull (not (field 0 "a"))).tokens ⟨[], ["u0"], 10⟩ = .ok tokens ∧
      Reader.postgres.read tokens = some (.negation (.nullTest (.column "u0" "a") false)) ∧
      (isNull (not (field 0 "a"))).form.phrase .postgres ⟨[], ["u0"], 10⟩ =
        .nullTest (.negation (.column "u0" "a")) false :=
  ⟨_, rfl, rfl, rfl⟩

end SqlCompose
