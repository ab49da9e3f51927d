import SqlCompose.Proofs.BeyondLimit
import SqlCompose.Proofs.CalendarText
import SqlCompose.Proofs.Constants

/-!
Times as they are written. The text of a leap second inside a minute is that of the second after
it, so composing does not tell the two apart: an expression and the one that has the second shown in
the place of every such leap second are composed to the same tokens (`Expr.tokens_asWritten`). There
is nothing to replace if and only if every leap second ends a minute (`Expr.asWritten_eq_self_iff`);
times that are put together from parts or read from texts are all of this kind.
-/

set_option autoImplicit false
set_option relaxedAutoImplicit false

namespace SqlCompose

/-! ### Literals -/

namespace Literal

/-- Not a leap second inside a minute. -/
def LeapsAtEnd : Literal → Prop
  | time value => value.LeapsAtEnd
  | timestamp value => value.LeapsAtEnd
  | _ => True

/-- A scalar as its text shows it. -/
def scalarAsWritten : Literal → Literal
  | time value => time value.asWritten
  | timestamp value => timestamp value.asWritten
  | value => value

/-- The literal with the second that is shown in the place of every leap second inside a minute. -/
def asWritten (value : Literal) : Literal :=
  value.mapScalars scalarAsWritten

theorem scalarAsWritten_eq_self_iff (value : Literal) :
    value.scalarAsWritten = value ↔ value.LeapsAtEnd := by
  cases value with
  | time value =>
    rw [scalarAsWritten, time.injEq]
    exact value.asWritten_eq_self_iff
  | timestamp value =>
    rw [scalarAsWritten, timestamp.injEq]
    exact value.asWritten_eq_self_iff
  | _ => exact iff_of_true rfl trivial

theorem leapsAtEnd_scalarAsWritten (value : Literal) : value.scalarAsWritten.LeapsAtEnd := by
  cases value with
  | time value => exact value.leapsAtEnd_asWritten
  | timestamp value => exact value.time.leapsAtEnd_asWritten
  | _ => exact trivial

theorem scalarAsWritten_of_not_isScalar (value : Literal) (harray : value.isScalar = false) :
    value.scalarAsWritten = value := by
  cases value <;> first | rfl | cases harray

theorem isScalar_scalarAsWritten (value : Literal) :
    value.scalarAsWritten.isScalar = value.isScalar := by
  cases value <;> rfl

theorem scalarAsWritten_scalarAsWritten :
    scalarAsWritten ∘ scalarAsWritten = scalarAsWritten := by
  funext value
  exact (scalarAsWritten_eq_self_iff _).mpr value.leapsAtEnd_scalarAsWritten

theorem asWritten_eq_self_iff (value : Literal) :
    value.asWritten = value ↔ ∀ node ∈ value.nodes, node.LeapsAtEnd := by
  rw [asWritten, mapScalars_eq_self_iff scalarAsWritten_of_not_isScalar]
  exact forall₂_congr fun node _ ↦ node.scalarAsWritten_eq_self_iff

theorem leapsAtEnd_of_mem_asWritten (value : Literal) :
    ∀ node ∈ value.asWritten.nodes, node.LeapsAtEnd := by
  rw [← asWritten_eq_self_iff, asWritten, asWritten, mapScalars_mapScalars,
    scalarAsWritten_scalarAsWritten]
  exact fun value hscalar ↦ value.isScalar_scalarAsWritten.trans hscalar

theorem tokensAt_asWritten (limit depth : Nat) (value : Literal) :
    value.asWritten.tokensAt limit depth = value.tokensAt limit depth := by
  induction value using induction generalizing depth with
  | scalar value hscalar =>
    rw [asWritten, mapScalars_of_isScalar hscalar]
    cases value with
    | time value => rw [scalarAsWritten, tokensAt, tokensAt, value.text_asWritten]
    | timestamp value => rw [scalarAsWritten, tokensAt, tokensAt, value.text_asWritten]
    | _ => rfl
  | array elements elementType ih =>
    have helements : tokensOfEach limit (depth + 1) (mapScalarsOfEach scalarAsWritten elements) =
        tokensOfEach limit (depth + 1) elements := by
      clear elementType
      induction elements with
      | nil => rfl
      | cons first rest ihrest =>
        rw [List.forall_mem_cons] at ih
        have hfirst : (mapScalars scalarAsWritten first).tokensAt limit (depth + 1) =
          first.tokensAt limit (depth + 1) := ih.1 (depth + 1)
        rw [mapScalarsOfEach, tokensOfEach, tokensOfEach, hfirst, ihrest ih.2]
    rw [asWritten, mapScalars, tokensAt, tokensAt, helements]

/-- Writing a literal does not tell a leap second inside a minute from the second that is shown. -/
theorem tokens_asWritten (limit : Nat) (value : Literal) :
    value.asWritten.tokens limit = value.tokens limit := by
  rw [tokens, tokens, tokensAt_asWritten]

end Literal

/-! ### Expressions -/

namespace Expr

/-- The expression with the second that is shown in the place of every leap second inside a
minute. -/
def asWritten (expr : Expr) : Expr :=
  expr.mapScalars Literal.scalarAsWritten

theorem asWritten_eq_self_iff (expr : Expr) :
    expr.asWritten = expr ↔ ∀ value ∈ expr.constants, value.LeapsAtEnd := by
  rw [asWritten, mapScalars_eq_self_iff Literal.scalarAsWritten_of_not_isScalar]
  exact forall₂_congr fun value _ ↦ value.scalarAsWritten_eq_self_iff

theorem leapsAtEnd_of_mem_asWritten (expr : Expr) :
    ∀ value ∈ expr.asWritten.constants, value.LeapsAtEnd := by
  rw [← asWritten_eq_self_iff, asWritten, asWritten, mapScalars_mapScalars,
    Literal.scalarAsWritten_scalarAsWritten]
  exact fun value hscalar ↦ value.isScalar_scalarAsWritten.trans hscalar

theorem looksLike_asWritten (expr : Expr) : LooksLike expr expr.asWritten := by
  cases expr with
  | call name arguments =>
    have hlength : (mapScalarsOfEach Literal.scalarAsWritten arguments).length =
        arguments.length := by
      rw [mapScalarsOfEach_eq_map, List.length_map]
    refine ⟨?_, ?_, rfl⟩
    · rw [asWritten, mapScalars, isBinary, isBinary, hlength]
    · rw [asWritten, mapScalars, isSigned, isSigned, hlength]
  | literal value => cases value <;> exact ⟨rfl, rfl, rfl⟩
  | _ => exact ⟨rfl, rfl, rfl⟩

theorem tokensOfEach_asWritten {scope : Scope} {depth : Nat} {exprs : List Expr}
    (hexprs : ∀ expr ∈ exprs,
      expr.asWritten.tokensBelow scope depth = expr.tokensBelow scope depth) :
    tokensOfEach scope depth (mapScalarsOfEach Literal.scalarAsWritten exprs) =
      tokensOfEach scope depth exprs := by
  induction exprs with
  | nil => rfl
  | cons expr rest ih =>
    rw [List.forall_mem_cons] at hexprs
    rw [mapScalarsOfEach, tokensOfEach, tokensOfEach, ih hexprs.2, ← hexprs.1]
    rfl

theorem tokensBelow_asWritten (scope : Scope) (depth : Nat) (expr : Expr) :
    expr.asWritten.tokensBelow scope depth = expr.tokensBelow scope depth := by
  have hoperand (operand : Expr) : operand.asWritten.asOperand = operand.asOperand :=
    operand.looksLike_asWritten.asOperand
  have hunary (operand : Expr) : operand.asWritten.asUnaryOperand = operand.asUnaryOperand :=
    operand.looksLike_asWritten.asUnaryOperand
  have hnull (operand : Expr) : operand.asWritten.isNullLiteral = operand.isNullLiteral :=
    operand.looksLike_asWritten.isNullLiteral
  unfold asWritten at *
  induction expr using induction generalizing depth with
  | field | source => rfl
  | not operand ih => rw [mapScalars, tokensBelow, tokensBelow, ih]
  | equals left right negated ihleft ihright =>
    simp only [mapScalars, tokensBelow, ihleft, ihright, hoperand, hnull]
  | between value first last ihvalue ihfirst ihlast =>
    simp only [mapScalars, tokensBelow, ihvalue, ihfirst, ihlast, hoperand]
  | isIn value collection hrange ihvalue ihcollection =>
    have hmapped : ∀ first last,
        collection.mapScalars Literal.scalarAsWritten ≠ .range first last := by
      intro first last heq
      cases collection with
      | range => exact hrange _ _ rfl
      | _ => cases heq
    rw [mapScalars, tokensBelow, tokensBelow, ihvalue, ihcollection, hoperand]
    · exact hrange
    · exact hmapped
  | range first last => rfl
  | div left right ihleft ihright =>
    simp only [mapScalars, tokensBelow, ihleft, ihright, hoperand, hunary]
  | truncate unit operand ih => simp only [mapScalars, tokensBelow, ih, hunary]
  | call name arguments ih =>
    have hlooks : List.Forall₂ LooksLike arguments
        (mapScalarsOfEach Literal.scalarAsWritten arguments) := by
      rw [mapScalarsOfEach_eq_map, List.forall₂_map_right_iff, List.forall₂_same]
      exact fun argument _ ↦ argument.looksLike_asWritten
    rw [mapScalars, tokensBelow, tokensBelow, callTokens_eq_of_looksLike name hlooks,
      tokensOfEach_asWritten fun argument hmem ↦ ih argument hmem (depth + 1)]
  | literal value =>
    have hvalue := value.tokensAt_asWritten scope.limit (depth + 1)
    rw [Literal.asWritten] at hvalue
    rw [mapScalars, tokensBelow, tokensBelow, hvalue]
  | array elements elementType ih =>
    rw [mapScalars, tokensBelow, tokensBelow,
      tokensOfEach_asWritten fun element hmem ↦ ih element hmem (depth + 1)]

/-- Composing does not tell a leap second inside a minute from the second that is shown. -/
theorem tokens_asWritten (scope : Scope) (expr : Expr) :
    expr.asWritten.tokens scope = expr.tokens scope :=
  expr.tokensBelow_asWritten scope 0

end Expr

end SqlCompose
