import SqlCompose.Proofs.Form
import SqlCompose.Proofs.Phrase

/-!
What is open after an operand. When a reader has gone through an operand, it has a number of
operators open that the operand began, and a value; both together are a segment. The segment of a
form is put together from those of its parts, in the way in which the reader goes through them: an
operator completes what binds more tightly, and parentheses complete everything.

Only operators in front of their operands stay open at the end of a form that needs no parentheses
beside an operator: signs, and at most one negation (`Form.opensFront_of_not_isBinary`).
-/

set_option autoImplicit false
set_option relaxedAutoImplicit false

namespace SqlCompose

/-! ### Segments -/

/-- An operand that has been read: the operators it opened, innermost first, and its value. -/
structure Segment where
  frames : List Frame
  value : Phrase

namespace Segment

/-- The phrase when all open operators are completed. -/
def close (segment : Segment) : Phrase :=
  segment.frames.foldl (fun value frame ↦ frame.complete value) segment.value

/-- The segment when the operators are completed that bind as tightly as the given level. -/
def reduce (reader : Reader) (bound : Nat) (segment : Segment) : Segment :=
  ⟨(reader.reduce bound segment.frames segment.value).1,
    (reader.reduce bound segment.frames segment.value).2⟩

/-- The segment of an operand that may stand between parentheses. -/
def grouped (group : Bool) (segment : Segment) : Segment :=
  if group then ⟨[], segment.close⟩ else segment

/-- The segment with another value. -/
def map (change : Phrase → Phrase) (segment : Segment) : Segment :=
  ⟨segment.frames, change segment.value⟩

/-- The segment behind an operator in front. -/
def before (frame : Frame) (segment : Segment) : Segment :=
  ⟨segment.frames ++ [frame], segment.value⟩

/-- The segment behind an operator that already has its first operands. -/
def behind (frame : Phrase → Frame) (left right : Segment) : Segment :=
  ⟨right.frames ++ frame left.value :: left.frames, right.value⟩

end Segment

/-! ### Segments of forms -/

/-- A constant, with its sign open if that is taken apart. -/
def Reader.constant (reader : Reader) (token : Token) : Segment :=
  if reader.takesSignsApart then
    ⟨if token.isNegative then [.sign "-"] else [], .constant token.magnitude⟩
  else ⟨[], .constant token⟩

/-- The segment of a scalar: a constant, possibly with the type it is cast to. -/
def Reader.scalar (reader : Reader) : List Token → Segment
  | [token] => reader.constant token
  | [token, .cast, .typeName type] => (reader.constant token).map (.cast · type)
  | _ => ⟨[], .list .array []⟩

/-- The level of an operator of the catalog. -/
def symbolLevel (symbol : String) : Nat :=
  (symbolLevels.lookup symbol).getD 0

theorem symbolLevel_lt (symbol : String) : symbolLevel symbol < 12 := by
  have hall : ∀ entry ∈ symbolLevels, entry.2 < 12 := by decide
  unfold symbolLevel
  cases hfound : symbolLevels.lookup symbol with
  | none => decide
  | some level =>
    obtain ⟨first, last, hsplit, -⟩ := List.lookup_eq_some_iff.mp hfound
    exact hall (symbol, level) (by rw [hsplit]; simp)

namespace Form

mutual

/-- The segment of a form. -/
def segment (reader : Reader) (scope : Scope) : Form → Segment
  | column position name => ⟨[], .column (scope.aliases.getD position.toNat "") name⟩
  | negation operand => ⟨[.negation], (segment reader scope operand).close⟩
  | nullTest operand negated =>
    (((segment reader scope operand).grouped operand.isBinary).reduce reader 4).map
      (.nullTest · negated)
  | equality left right negated =>
    .behind (.infixed (if negated then .notEqual else .equal) 5)
      (((segment reader scope left).grouped left.isBinary).reduce reader 5)
      ((segment reader scope right).grouped right.isBinary)
  | membership value collection =>
    (((segment reader scope value).grouped value.isBinary).reduce reader 5).map
      (.membership · (segment reader scope collection).close)
  | between value first last =>
    .behind (.betweenAnd · ((segment reader scope first).grouped first.isBinary).close)
      (((segment reader scope value).grouped value.isBinary).reduce reader 6)
      ((segment reader scope last).grouped last.isBinary)
  | quotient left right =>
    .behind (.infixed .divide 9)
      (((segment reader scope left).grouped left.isBinary).reduce reader 9)
      ((((segment reader scope right).grouped right.isGrouped).reduce reader 12).map
        (.cast · .decimal))
  | truncation unit operand =>
    (((segment reader scope operand).grouped operand.isGrouped).reduce reader 12).map
      (.cast · unit.valueType)
  | infixed symbol left right =>
    .behind (.infixed (.operator symbol) (symbolLevel symbol))
      (((segment reader scope left).grouped left.isBinary).reduce reader (symbolLevel symbol))
      ((segment reader scope right).grouped right.isBinary)
  | signed symbol operand =>
    ((segment reader scope operand).grouped operand.isGrouped).before (.sign symbol)
  | word name => ⟨[], .word name⟩
  | function name arguments => ⟨[], .list (.call name) (closedSegments reader scope arguments)⟩
  | scalar value _ => reader.scalar value.scalarTokens
  | array first rest =>
    ⟨[], .list .array ((segment reader scope first).close :: closedSegments reader scope rest)⟩
  | emptyArray elementType => ⟨[], .cast (.list .array []) (.array elementType)⟩
  -- The remaining forms are never read back.
  | wholeSource _ => ⟨[], .list .array []⟩
  | bareRange _ _ => ⟨[], .list .array []⟩

/-- The closed segments of each of several forms. -/
def closedSegments (reader : Reader) (scope : Scope) : List Form → List Phrase
  | [] => []
  | form :: rest => (segment reader scope form).close :: closedSegments reader scope rest

end

end Form

/-! ### Completing operators -/

namespace Reader

variable (reader : Reader)

/-- An operator on top of the stack that does not bind so tightly stays open. -/
theorem reduce_append {bound : Nat} {stack : List Frame}
    (hstack : ∀ frame ∈ stack.head?, reader.level frame < bound) (frames : List Frame)
    (value : Phrase) :
    reader.reduce bound (frames ++ stack) value =
      ((reader.reduce bound frames value).1 ++ stack, (reader.reduce bound frames value).2) := by
  induction frames generalizing value with
  | nil =>
    cases stack with
    | nil => rfl
    | cons frame stack =>
      have hframe := hstack frame rfl
      have hstop : reader.reduce bound (frame :: stack) value = (frame :: stack, value) := by
        rw [reduce, if_neg (by omega)]
      rw [List.nil_append, hstop]
      rfl
  | cons frame frames ih =>
    rw [List.cons_append, reduce, reduce]
    split
    · exact ih (frame.complete value)
    · rfl

/-- Operators that all bind so tightly are completed. -/
theorem reduce_eq_close {bound : Nat} {frames : List Frame}
    (hframes : ∀ frame ∈ frames, bound ≤ reader.level frame) (value : Phrase) :
    reader.reduce bound frames value = ([], Segment.close ⟨frames, value⟩) := by
  induction frames generalizing value with
  | nil => rfl
  | cons frame frames ih =>
    rw [List.forall_mem_cons] at hframes
    rw [reduce, if_pos hframes.1, ih hframes.2]
    rfl

theorem mem_of_mem_reduce {bound : Nat} {frames : List Frame} {value : Phrase} {frame : Frame}
    (hmem : frame ∈ (reader.reduce bound frames value).1) : frame ∈ frames := by
  induction frames generalizing value with
  | nil => exact hmem
  | cons other frames ih =>
    rw [reduce] at hmem
    split at hmem
    · exact List.mem_cons_of_mem _ (ih hmem)
    · exact hmem

end Reader

namespace Segment

variable {reader : Reader}

/-- All open operators of a segment are operators, not brackets. -/
def IsOpen (reader : Reader) (segment : Segment) : Prop :=
  ∀ frame ∈ segment.frames, 1 ≤ reader.level frame

theorem isOpen_nil (value : Phrase) : Segment.IsOpen reader ⟨[], value⟩ := by
  intro frame hframe
  cases hframe

theorem IsOpen.reduce {segment : Segment} (hopen : segment.IsOpen reader) (bound : Nat) :
    (segment.reduce reader bound).IsOpen reader :=
  fun frame hframe ↦ hopen frame (reader.mem_of_mem_reduce hframe)

theorem IsOpen.grouped {segment : Segment} (hopen : segment.IsOpen reader) (group : Bool) :
    (segment.grouped group).IsOpen reader := by
  cases group with
  | false => exact hopen
  | true => exact isOpen_nil _

theorem IsOpen.before {segment : Segment} (hopen : segment.IsOpen reader) {frame : Frame}
    (hframe : 1 ≤ reader.level frame) : (segment.before frame).IsOpen reader := by
  intro other hother
  rcases List.mem_append.mp hother with hother | hother
  · exact hopen other hother
  · rw [List.mem_singleton.mp hother]
    exact hframe

theorem IsOpen.behind {left right : Segment} (hleft : left.IsOpen reader)
    (hright : right.IsOpen reader) {frame : Phrase → Frame}
    (hframe : ∀ value, 1 ≤ reader.level (frame value)) :
    (Segment.behind frame left right).IsOpen reader := by
  intro other hother
  rcases List.mem_append.mp hother with hother | hother
  · exact hright other hother
  · rcases List.mem_cons.mp hother with rfl | hother
    · exact hframe _
    · exact hleft other hother

end Segment

/-- An operator in front of its operand. -/
def Frame.isFront : Frame → Bool
  | sign _ | negation => true
  | _ => false

namespace Segment

/-- All open operators of a segment stand in front of their operands. -/
def IsFronted (segment : Segment) : Prop :=
  ∀ frame ∈ segment.frames, frame.isFront = true

theorem IsFronted.le_level {reader : Reader} {segment : Segment} (hfronted : segment.IsFronted)
    {bound : Nat} (hnegation : bound ≤ reader.negationLevel) (hsign : bound ≤ 11) :
    ∀ frame ∈ segment.frames, bound ≤ reader.level frame := by
  intro frame hframe
  have hfront := hfronted frame hframe
  cases frame with
  | sign symbol => exact hsign
  | negation => exact hnegation
  | _ => cases hfront

/-- At most a negation is open, and signs before it. -/
def OpensFront (opens : Bool) (symbols : List String) (segment : Segment) : Prop :=
  segment.frames = (if opens then [.negation] else []) ++ symbols.map .sign

theorem OpensFront.isFronted {opens : Bool} {symbols : List String} {segment : Segment}
    (hopens : segment.OpensFront opens symbols) : segment.IsFronted := by
  intro frame hframe
  rw [hopens] at hframe
  rcases List.mem_append.mp hframe with hframe | hframe
  · cases opens with
    | false => cases hframe
    | true =>
      rw [List.mem_singleton.mp hframe]
      rfl
  · obtain ⟨symbol, -, rfl⟩ := List.mem_map.mp hframe
    rfl

end Segment

/-! ### What a form leaves open -/

namespace Form

/-- Written with a negation at the front that nothing closes, given the level of negations. -/
def opensNegation (level : Nat) : Form → Bool
  | negation _ => true
  | signed _ operand => !operand.isGrouped && opensNegation level operand
  | truncation _ operand =>
    !operand.isGrouped && opensNegation level operand && decide (level < 12)
  | _ => false

variable {reader : Reader} {scope : Scope}

theorem frames_scalar {value : Literal} (hscalar : value.isScalar = true) :
    (reader.scalar value.scalarTokens).frames =
      if reader.takesSignsApart && value.isNegative then [.sign "-"] else [] := by
  have hconstant (token : Token) : (reader.constant token).frames =
      if reader.takesSignsApart && token.isNegative then [.sign "-"] else [] := by
    rw [Reader.constant]
    cases reader.takesSignsApart <;> rfl
  cases value with
  | array => cases hscalar
  | _ => exact hconstant _

/-- An operand of a sign or a cast leaves at most a negation open. -/
theorem frames_grouped {operand : Form} (hframes : operand.isGrouped = false →
      (operand.segment reader scope).frames =
        if operand.opensNegation reader.negationLevel then [.negation] else []) :
    ((operand.segment reader scope).grouped operand.isGrouped).frames =
      if !operand.isGrouped && operand.opensNegation reader.negationLevel then [.negation]
      else [] := by
  cases hgrouped : operand.isGrouped with
  | true => rfl
  | false => exact hframes hgrouped

/-- A form that is no operator leaves at most a negation open, which a cast behind it completes if
the negation binds as tightly. -/
theorem frames_of_not_isGrouped {form : Form} (hgrouped : form.isGrouped = false) :
    (form.segment reader scope).frames =
      if form.opensNegation reader.negationLevel then [.negation] else [] := by
  induction form using Form.induction with
  | nullTest | equality | membership | between | quotient | infixed | signed => cases hgrouped
  | truncation unit operand ih =>
    rw [segment, Segment.map, Segment.reduce, frames_grouped ih, opensNegation]
    cases !operand.isGrouped && operand.opensNegation reader.negationLevel with
    | false => rfl
    | true =>
      by_cases hlevel : 12 ≤ reader.negationLevel
      · simp [Reader.reduce, Reader.level, hlevel, Nat.not_lt_of_le hlevel]
      · simp [Reader.reduce, Reader.level, hlevel, Nat.lt_of_not_le hlevel]
  | scalar value hscalar =>
    have hnegative : value.isNegative = false := hgrouped
    rw [segment, frames_scalar hscalar, hnegative, Bool.and_false]
    rfl
  | _ => rfl

/-- An operand that needs no parentheses beside an operator. -/
theorem opensFront_of_not_isBinary (reader : Reader) (scope : Scope) {form : Form}
    (hbinary : form.isBinary = false) : ∃ symbols : List String,
      (form.segment reader scope).OpensFront (form.opensNegation reader.negationLevel) symbols := by
  cases hsigned : form.isSigned with
  | false =>
    have hgrouped : form.isGrouped = false := by rw [isGrouped, hbinary, hsigned, Bool.or_false]
    refine ⟨[], ?_⟩
    rw [Segment.OpensFront, frames_of_not_isGrouped hgrouped, List.map_nil, List.append_nil]
  | true =>
    cases form with
    | signed symbol operand =>
      refine ⟨[symbol], ?_⟩
      rw [Segment.OpensFront, segment, Segment.before, frames_grouped frames_of_not_isGrouped]
      rfl
    | scalar value hscalar =>
      rw [segment]
      cases hsign : reader.takesSignsApart && value.isNegative with
      | false => exact ⟨[], by rw [Segment.OpensFront, frames_scalar hscalar, hsign]; rfl⟩
      | true => exact ⟨["-"], by rw [Segment.OpensFront, frames_scalar hscalar, hsign]; rfl⟩
    | _ => cases hsigned

theorem isFronted_operand (reader : Reader) (scope : Scope) (form : Form) :
    ((form.segment reader scope).grouped form.isBinary).IsFronted := by
  cases hbinary : form.isBinary with
  | false =>
    obtain ⟨symbols, hopens⟩ := opensFront_of_not_isBinary reader scope hbinary
    exact hopens.isFronted
  | true =>
    intro frame hframe
    cases hframe

end Form

end SqlCompose
