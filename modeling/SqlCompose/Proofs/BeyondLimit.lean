import Mathlib.Data.List.Forall2
import SqlCompose.Proofs.Catalog
import SqlCompose.Proofs.NestingLimit

/-!
Nothing beyond the nesting limit is looked at. `Expr.ReplacedBeyond` relates an expression to every
other one that comes from it by putting arbitrary expressions, or arbitrary elements of literal
arrays, in the place of such as lie at a level beyond the limit. Composing gives the same outcome
for both, the failure included (`Expr.tokens_eq_of_replacedBeyond`).

An operand beyond the limit is refused as soon as it is composed, but the expression around it has
asked it some questions by then: whether it is the null constant, a range, an operator between two
operands or a sign in front of one. Within the limit the answers are the same for both expressions
(`Expr.LooksLike`). Beyond it they may differ, but whatever they are, an operand is composed next
and refused, and no other failure comes before that.
-/

set_option autoImplicit false
set_option relaxedAutoImplicit false

namespace SqlCompose

/-! ### Levels beyond the limit -/

theorem checkDepth_within {limit level : Nat} (hlevel : level ≤ limit) :
    checkDepth limit level = .ok () :=
  if_pos hlevel

theorem checkDepth_beyond {limit level : Nat} (hlevel : limit < level) :
    checkDepth limit level = .error (.depthExceeded limit) :=
  if_neg (Nat.not_le_of_lt hlevel)

/-- What follows a check matters only if the level is within the limit. -/
theorem checkDepth_bind_congr {α : Type} {limit level : Nat}
    {next other : Unit → Except CompileError α} (hnext : level ≤ limit → other () = next ()) :
    (checkDepth limit level >>= other) = (checkDepth limit level >>= next) := by
  by_cases hlevel : level ≤ limit
  · rw [checkDepth_within hlevel]
    exact hnext hlevel
  · rw [checkDepth_beyond (Nat.lt_of_not_le hlevel)]
    rfl

/-- A failure for want of levels stays what it is behind a check. -/
theorem checkDepth_bind_depthExceeded {α : Type} (limit level : Nat) :
    (checkDepth limit level >>= fun _ ↦ (.error (.depthExceeded limit) : Except CompileError α)) =
      .error (.depthExceeded limit) := by
  unfold checkDepth
  split <;> rfl

theorem mapM_eq_of_forall₂ {α β : Type} {step : α → Except CompileError β} {items others : List α}
    (hsteps : List.Forall₂ (fun item other ↦ step other = step item) items others) :
    others.mapM step = items.mapM step := by
  induction hsteps with
  | nil => rfl
  | cons hfirst _ ih => rw [List.mapM_cons, List.mapM_cons, hfirst, ih]

namespace Expr

variable {scope : Scope} {depth : Nat}

/-- Every expression begins with the check of its own level. -/
theorem tokensBelow_beyond (hdepth : scope.limit ≤ depth) (expr : Expr) :
    expr.tokensBelow scope depth = .error (.depthExceeded scope.limit) := by
  have hcheck := checkDepth_beyond (Nat.lt_succ_of_le hdepth)
  induction expr using Expr.induction with
  | isIn value collection hrange _ _ =>
    rw [tokensBelow, hcheck]
    · rfl
    · exact fun first last heq ↦ hrange first last heq
  | _ =>
    rw [tokensBelow, hcheck]
    rfl

theorem tokensOfEach_beyond (hdepth : scope.limit ≤ depth) (expr : Expr) (rest : List Expr) :
    tokensOfEach scope depth (expr :: rest) = .error (.depthExceeded scope.limit) := by
  rw [tokensOfEach, tokensBelow_beyond hdepth]
  rfl

end Expr

/-! ### Literals -/

namespace Literal

/-- The second literal, at the given level, comes from the first by replacing elements of arrays
that lie beyond the limit. -/
inductive ReplacedBeyond (limit : Nat) : Nat → Literal → Literal → Prop
  | beyond {level : Nat} (hlevel : limit < level) (value other : Literal) :
    ReplacedBeyond limit level value other
  | same (level : Nat) (value : Literal) : ReplacedBeyond limit level value value
  | array {level : Nat} {elements others : List Literal} (elementType : ValueType)
    (hlength : elements.length = others.length)
    (heach : ∀ element other, (element, other) ∈ elements.zip others →
      ReplacedBeyond limit (level + 1) element other) :
    ReplacedBeyond limit level (.array elements elementType) (.array others elementType)

namespace ReplacedBeyond

variable {limit level : Nat} {value other : Literal}

theorem isNull_eq (hreplaced : ReplacedBeyond limit level value other) (hlevel : level ≤ limit) :
    other.isNull = value.isNull := by
  cases hreplaced with
  | beyond hbeyond => exact absurd hlevel (Nat.not_le_of_lt hbeyond)
  | same => rfl
  | array => rfl

theorem isNegative_eq (hreplaced : ReplacedBeyond limit level value other)
    (hlevel : level ≤ limit) : other.isNegative = value.isNegative := by
  cases hreplaced with
  | beyond hbeyond => exact absurd hlevel (Nat.not_le_of_lt hbeyond)
  | same => rfl
  | array => rfl

/-- A literal at a level within the limit is written in the same way. -/
theorem tokensAt_eq (hreplaced : ReplacedBeyond limit level value other) (hlevel : level ≤ limit) :
    other.tokensAt limit level = value.tokensAt limit level := by
  induction hreplaced with
  | beyond hbeyond => exact absurd hlevel (Nat.not_le_of_lt hbeyond)
  | same => rfl
  | array elementType hlength heach ih =>
    rw [tokensAt, tokensAt, tokensOfEach_eq_mapM, tokensOfEach_eq_mapM]
    refine checkDepth_bind_congr fun hwithin ↦ ?_
    rw [mapM_eq_of_forall₂ (List.forall₂_iff_zip.mpr ⟨hlength, fun hmem ↦ ih _ _ hmem hwithin⟩)]

end ReplacedBeyond

end Literal

/-! ### Expressions -/

namespace Expr

/-- The second expression, at the given level, comes from the first by replacing expressions and
elements of literal arrays that lie beyond the limit. The bounds of a range on the right of a
membership test lie at the level at which the range stands; elsewhere they lie one level deeper. -/
inductive ReplacedBeyond (limit : Nat) : Nat → Expr → Expr → Prop
  | beyond {level : Nat} (hlevel : limit < level) (expr other : Expr) :
    ReplacedBeyond limit level expr other
  | same (level : Nat) (expr : Expr) : ReplacedBeyond limit level expr expr
  | not {level : Nat} {operand operand' : Expr}
    (hoperand : ReplacedBeyond limit (level + 1) operand operand') :
    ReplacedBeyond limit level (.not operand) (.not operand')
  | equals {level : Nat} {left left' right right' : Expr} (negated : Bool)
    (hleft : ReplacedBeyond limit (level + 1) left left')
    (hright : ReplacedBeyond limit (level + 1) right right') :
    ReplacedBeyond limit level (.equals left right negated) (.equals left' right' negated)
  | between {level : Nat} {value value' first first' last last' : Expr}
    (hvalue : ReplacedBeyond limit (level + 1) value value')
    (hfirst : ReplacedBeyond limit (level + 1) first first')
    (hlast : ReplacedBeyond limit (level + 1) last last') :
    ReplacedBeyond limit level (.isIn value (.range first last))
      (.isIn value' (.range first' last'))
  /-- Within the limit the collection is not a range, beyond it it may be anything. -/
  | isIn {level : Nat} {value value' collection collection' : Expr}
    (hrange : level < limit → ∀ first last, collection ≠ .range first last)
    (hvalue : ReplacedBeyond limit (level + 1) value value')
    (hcollection : ReplacedBeyond limit (level + 1) collection collection') :
    ReplacedBeyond limit level (.isIn value collection) (.isIn value' collection')
  | range {level : Nat} {first first' last last' : Expr}
    (hfirst : ReplacedBeyond limit (level + 1) first first')
    (hlast : ReplacedBeyond limit (level + 1) last last') :
    ReplacedBeyond limit level (.range first last) (.range first' last')
  | div {level : Nat} {left left' right right' : Expr}
    (hleft : ReplacedBeyond limit (level + 1) left left')
    (hright : ReplacedBeyond limit (level + 1) right right') :
    ReplacedBeyond limit level (.div left right) (.div left' right')
  | truncate {level : Nat} (unit : Truncation) {operand operand' : Expr}
    (hoperand : ReplacedBeyond limit (level + 1) operand operand') :
    ReplacedBeyond limit level (.truncate unit operand) (.truncate unit operand')
  | call {level : Nat} (name : String) {arguments others : List Expr}
    (hlength : arguments.length = others.length)
    (heach : ∀ argument other, (argument, other) ∈ arguments.zip others →
      ReplacedBeyond limit (level + 1) argument other) :
    ReplacedBeyond limit level (.call name arguments) (.call name others)
  | literal {level : Nat} {value other : Literal}
    (hvalue : Literal.ReplacedBeyond limit level value other) :
    ReplacedBeyond limit level (.literal value) (.literal other)
  | array {level : Nat} {elements others : List Expr} (elementType : ValueType)
    (hlength : elements.length = others.length)
    (heach : ∀ element other, (element, other) ∈ elements.zip others →
      ReplacedBeyond limit (level + 1) element other) :
    ReplacedBeyond limit level (.array elements elementType) (.array others elementType)

/-! ### What an enclosing expression sees -/

/-- What an enclosing expression asks of an operand is the same for both expressions. -/
structure LooksLike (expr other : Expr) : Prop where
  isBinary : other.isBinary = expr.isBinary
  isSigned : other.isSigned = expr.isSigned
  isNullLiteral : other.isNullLiteral = expr.isNullLiteral

namespace LooksLike

variable {expr other : Expr}

theorem asOperand (hlooks : LooksLike expr other) : other.asOperand = expr.asOperand := by
  funext tokens
  rw [Expr.asOperand, Expr.asOperand, hlooks.isBinary]

theorem asUnaryOperand (hlooks : LooksLike expr other) :
    other.asUnaryOperand = expr.asUnaryOperand := by
  funext tokens
  rw [Expr.asUnaryOperand, Expr.asUnaryOperand, hlooks.isBinary, hlooks.isSigned]

end LooksLike

/-- A call asks no more of its arguments than how many there are and how they look. -/
theorem callTokens_eq_of_looksLike (name : String) {arguments others : List Expr}
    (hlooks : List.Forall₂ LooksLike arguments others) :
    callTokens name others = callTokens name arguments := by
  funext written
  have hlength : others.length = arguments.length := hlooks.length_eq.symm
  unfold callTokens
  rw [hlength]
  rcases callRule_cases name arguments with ⟨symbol, left, right, rfl, hrule⟩ |
    ⟨symbol, operand, rfl, hrule⟩ | ⟨bare, rfl, hrule⟩ | ⟨function, hrule⟩ | hrule
  · obtain ⟨left', right', rfl⟩ := List.length_eq_two.mp hlength
    rw [List.forall₂_cons, List.forall₂_cons] at hlooks
    rw [hrule]
    rcases written with _ | ⟨leftTokens, _ | ⟨rightTokens, _ | ⟨further, rest⟩⟩⟩
    · rfl
    · rfl
    · simp only [hlooks.1.asOperand, hlooks.2.1.asOperand]
    · rfl
  · obtain ⟨operand', rfl⟩ := List.length_eq_one_iff.mp hlength
    rw [List.forall₂_cons] at hlooks
    rw [hrule]
    rcases written with _ | ⟨operandTokens, _ | ⟨further, rest⟩⟩
    · rfl
    · simp only [hlooks.1.asUnaryOperand]
    · rfl
  · rw [List.eq_nil_of_length_eq_zero hlength]
  · rw [hrule]
  · rw [hrule]

namespace ReplacedBeyond

variable {limit level : Nat} {expr other : Expr}

theorem looksLike (hreplaced : ReplacedBeyond limit level expr other) (hlevel : level ≤ limit) :
    LooksLike expr other := by
  cases hreplaced with
  | beyond hbeyond => exact absurd hlevel (Nat.not_le_of_lt hbeyond)
  | call name hlength _ =>
    constructor
    · rw [isBinary, isBinary, hlength]
    · rw [isSigned, isSigned, hlength]
    · rfl
  | literal hvalue => exact ⟨rfl, hvalue.isNegative_eq hlevel, hvalue.isNull_eq hlevel⟩
  | _ => exact ⟨rfl, rfl, rfl⟩

/-- An expression within the limit that is not a range is not replaced by one. -/
theorem ne_range (hreplaced : ReplacedBeyond limit level expr other) (hlevel : level ≤ limit)
    (hrange : ∀ first last, expr ≠ .range first last) (first last : Expr) :
    other ≠ .range first last := by
  rintro rfl
  cases hreplaced with
  | beyond hbeyond => exact absurd hlevel (Nat.not_le_of_lt hbeyond)
  | same => exact hrange first last rfl
  | range => exact hrange _ _ rfl

end ReplacedBeyond

/-! ### Composing -/

section

variable {scope : Scope} {depth : Nat}

/-- What follows an operand matters only if the operand is within the limit. -/
theorem tokensBelow_bind_congr {α : Type} {expr other : Expr}
    (hsame : other.tokensBelow scope depth = expr.tokensBelow scope depth)
    {next next' : List Token → Except CompileError α} (hnext : depth < scope.limit → next' = next) :
    (other.tokensBelow scope depth >>= next') = (expr.tokensBelow scope depth >>= next) := by
  by_cases hdepth : depth < scope.limit
  · rw [hsame, hnext hdepth]
  · have hbeyond : scope.limit ≤ depth := Nat.le_of_not_lt hdepth
    rw [tokensBelow_beyond hbeyond, tokensBelow_beyond hbeyond]
    rfl

/-- Whichever side is tested for null, it is beyond the limit. -/
theorem tokensBelow_equals_beyond (hdepth : scope.limit ≤ depth + 1) (left right : Expr)
    (negated : Bool) :
    (equals left right negated).tokensBelow scope depth =
      .error (.depthExceeded scope.limit) := by
  rw [tokensBelow, tokensBelow_beyond hdepth left, tokensBelow_beyond hdepth right]
  refine Eq.trans ?_ (checkDepth_bind_depthExceeded scope.limit (depth + 1))
  congr 1
  funext _
  split
  · rfl
  · split <;> rfl

/-- Whatever the collection is, the value is composed first and is beyond the limit. -/
theorem tokensBelow_isIn_beyond (hdepth : scope.limit ≤ depth + 1) (value collection : Expr) :
    (isIn value collection).tokensBelow scope depth = .error (.depthExceeded scope.limit) := by
  by_cases hrange : ∃ first last, collection = .range first last
  · obtain ⟨first, last, rfl⟩ := hrange
    rw [tokensBelow, tokensBelow_beyond hdepth value]
    exact checkDepth_bind_depthExceeded _ _
  · rw [tokensBelow, tokensBelow_beyond hdepth value]
    · exact checkDepth_bind_depthExceeded _ _
    · exact fun first last heq ↦ hrange ⟨first, last, heq⟩

/-- Expressions side by side give the same outcome when each of them does. -/
theorem tokensOfEach_eq_of_zip {exprs others : List Expr} (hlength : exprs.length = others.length)
    (heach : ∀ expr other, (expr, other) ∈ exprs.zip others →
      other.tokensBelow scope depth = expr.tokensBelow scope depth) :
    tokensOfEach scope depth others = tokensOfEach scope depth exprs := by
  rw [tokensOfEach_eq_mapM, tokensOfEach_eq_mapM]
  exact mapM_eq_of_forall₂ (List.forall₂_iff_zip.mpr ⟨hlength, fun hmem ↦ heach _ _ hmem⟩)

/-- Beyond the limit a call without arguments has nothing to replace, and in any other the first
argument is refused. -/
theorem tokensBelow_call_eq_of_zip {name : String} {arguments others : List Expr}
    (hlength : arguments.length = others.length)
    (heach : ∀ argument other, (argument, other) ∈ arguments.zip others →
      ReplacedBeyond scope.limit (depth + 2) argument other)
    (hsame : ∀ argument other, (argument, other) ∈ arguments.zip others →
      other.tokensBelow scope (depth + 1) = argument.tokensBelow scope (depth + 1)) :
    (call name others).tokensBelow scope depth = (call name arguments).tokensBelow scope depth := by
  rw [tokensBelow, tokensBelow, tokensOfEach_eq_of_zip hlength hsame]
  refine checkDepth_bind_congr fun _ ↦ ?_
  by_cases hwithin : depth + 2 ≤ scope.limit
  · have hlooks : List.Forall₂ LooksLike arguments others :=
      List.forall₂_iff_zip.mpr ⟨hlength, fun hmem ↦ (heach _ _ hmem).looksLike hwithin⟩
    rw [callTokens_eq_of_looksLike name hlooks]
  · cases arguments with
    | nil => rw [List.eq_nil_of_length_eq_zero hlength.symm]
    | cons argument rest =>
      rw [tokensOfEach_beyond (by omega)]
      rfl

/-- Composing an expression gives the same outcome whatever stands beyond the limit. Operands that
stand there may make one expression a null test or a test for a range and not the other, but then
both are refused. -/
theorem ReplacedBeyond.tokensBelow_eq {level : Nat} {expr other : Expr}
    (hreplaced : ReplacedBeyond scope.limit level expr other) :
    ∀ depth, level = depth + 1 → other.tokensBelow scope depth = expr.tokensBelow scope depth := by
  induction hreplaced with
  | beyond hlevel expr other =>
    rintro depth rfl
    have hdepth : scope.limit ≤ depth := Nat.le_of_lt_succ hlevel
    rw [tokensBelow_beyond hdepth, tokensBelow_beyond hdepth]
  | same level expr =>
    intro depth _
    rfl
  | not hoperand ih =>
    rintro depth rfl
    rw [tokensBelow, tokensBelow, ih _ rfl]
  | equals negated hleft hright ihleft ihright =>
    rintro depth rfl
    by_cases hwithin : depth + 2 ≤ scope.limit
    · have hleftLooks := hleft.looksLike hwithin
      have hrightLooks := hright.looksLike hwithin
      rw [tokensBelow, tokensBelow, ihleft _ rfl, ihright _ rfl, hleftLooks.isNullLiteral,
        hrightLooks.isNullLiteral, hleftLooks.asOperand, hrightLooks.asOperand]
    · rw [tokensBelow_equals_beyond (by omega), tokensBelow_equals_beyond (by omega)]
  | between hvalue hfirst hlast ihvalue ihfirst ihlast =>
    rintro depth rfl
    rw [tokensBelow, tokensBelow]
    refine checkDepth_bind_congr fun _ ↦ tokensBelow_bind_congr (ihvalue _ rfl) fun hwithin ↦ ?_
    rw [ihfirst _ rfl, ihlast _ rfl, (hvalue.looksLike hwithin).asOperand,
      (hfirst.looksLike hwithin).asOperand, (hlast.looksLike hwithin).asOperand]
  | isIn hrange hvalue hcollection ihvalue ihcollection =>
    rintro depth rfl
    by_cases hwithin : depth + 2 ≤ scope.limit
    · have hplain := hrange hwithin
      have hother := hcollection.ne_range hwithin hplain
      rw [tokensBelow, tokensBelow, ihvalue _ rfl, ihcollection _ rfl,
        (hvalue.looksLike hwithin).asOperand]
      · exact fun first last heq ↦ hplain first last heq
      · exact fun first last heq ↦ hother first last heq
    · rw [tokensBelow_isIn_beyond (by omega), tokensBelow_isIn_beyond (by omega)]
  | range hfirst hlast _ _ =>
    rintro depth rfl
    rw [tokensBelow, tokensBelow]
  | div hleft hright ihleft ihright =>
    rintro depth rfl
    rw [tokensBelow, tokensBelow]
    refine checkDepth_bind_congr fun _ ↦ tokensBelow_bind_congr (ihleft _ rfl) fun hwithin ↦ ?_
    rw [ihright _ rfl, (hleft.looksLike hwithin).asOperand,
      (hright.looksLike hwithin).asUnaryOperand]
  | truncate unit hoperand ih =>
    rintro depth rfl
    rw [tokensBelow, tokensBelow]
    refine checkDepth_bind_congr fun _ ↦ tokensBelow_bind_congr (ih _ rfl) fun hwithin ↦ ?_
    rw [(hoperand.looksLike hwithin).asUnaryOperand]
  | call name hlength heach ih =>
    rintro depth rfl
    refine tokensBelow_call_eq_of_zip hlength heach fun argument other hmem ↦ ?_
    exact ih argument other hmem _ rfl
  | literal hvalue =>
    rintro depth rfl
    rw [tokensBelow, tokensBelow]
    exact checkDepth_bind_congr fun hlevel ↦ hvalue.tokensAt_eq hlevel
  | array elementType hlength heach ih =>
    rintro depth rfl
    rw [tokensBelow, tokensBelow, tokensOfEach_eq_of_zip hlength fun element other hmem ↦
      ih element other hmem _ rfl]

end

/-- Whatever lies deeper than the nesting limit may be replaced by anything else: the outcome of
composing, be it tokens or a failure, stays the same. -/
theorem tokens_eq_of_replacedBeyond {scope : Scope} {expr other : Expr}
    (hreplaced : ReplacedBeyond scope.limit 1 expr other) :
    other.tokens scope = expr.tokens scope :=
  hreplaced.tokensBelow_eq 0 rfl

theorem ReplacedBeyond.binary {limit level : Nat} (name : String) {left left' right right' : Expr}
    (hleft : ReplacedBeyond limit (level + 1) left left')
    (hright : ReplacedBeyond limit (level + 1) right right') :
    ReplacedBeyond limit level (Expr.binary name left right) (Expr.binary name left' right') := by
  refine .call name rfl fun argument other hmem ↦ ?_
  simp only [List.zip_cons_cons, List.zip_nil_right, List.mem_cons, Prod.mk.injEq,
    List.not_mem_nil, or_false] at hmem
  rcases hmem with ⟨rfl, rfl⟩ | ⟨rfl, rfl⟩
  · exact hleft
  · exact hright

/-- With two levels, the operands of a membership test and of a null test on the second one may be
anything, also when that makes them a test in an array and an equality test. A reference to a
missing source on the second level is reported as before, whatever the elements of an array beside
it are. -/
theorem tokens_eq_of_replacedBeyond_two_levels :
    let scope : Scope := ⟨[], ["u0"], 2⟩
    let number : Literal := .float ⟨0x7ff8000000000000⟩
    let tests := ((field 0 "age").between (literal (.integer 18)) (literal (.integer 65))).and
      (field 0 "name").isNull
    let otherTests := ((literal number).isIn (field 7 "ages")).and ((range null null).eq now)
    let condition := (field 3 "name").and (literal (.array [.array [.null] .text] (.array .text)))
    let otherCondition := (field 3 "name").and (literal (.array [number] (.array .text)))
    (ReplacedBeyond scope.limit 1 tests otherTests ∧
        otherTests.tokens scope = tests.tokens scope ∧
        tests.tokens scope = .error (.depthExceeded 2)) ∧
      ReplacedBeyond scope.limit 1 condition otherCondition ∧
        otherCondition.tokens scope = condition.tokens scope ∧
        condition.tokens scope = .error (.sourceOutOfRange 3 1) := by
  intro scope number tests otherTests condition otherCondition
  have hdeep (expr other : Expr) : ReplacedBeyond scope.limit 3 expr other :=
    .beyond (Nat.lt_succ_self 2) expr other
  have htests : ReplacedBeyond scope.limit 1 tests otherTests :=
    .binary "and" (.isIn (fun hlt ↦ absurd hlt (Nat.lt_irrefl 2)) (hdeep _ _) (hdeep _ _))
      (.equals false (hdeep _ _) (hdeep _ _))
  have hcondition : ReplacedBeyond scope.limit 1 condition otherCondition :=
    .binary "and" (.same 2 _) (.literal (.array _ rfl fun element other _ ↦
      .beyond (Nat.lt_succ_self 2) element other))
  exact ⟨⟨htests, tokens_eq_of_replacedBeyond htests, rfl⟩,
    hcondition, tokens_eq_of_replacedBeyond hcondition, rfl⟩

end Expr

end SqlCompose
