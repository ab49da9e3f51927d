import SqlCompose.Proofs.JsonForms
import SqlCompose.Proofs.JsonText

/-!
What the constants of a value decide about its exchange. A scalar comes back from its written form
if and only if it is neither a decimal zero with a minus sign nor a leap second inside a minute
(`Literal.scalarAsRead_eq_self_iff`); for such a leap second the second that is shown is written in
the same way (`Expr.toJson_mapScalars_scalarAsWritten`). The text of a value can be taken apart
again if the digits of each double in it are read as that double (`Expr.allReread_toJson`): all
other parts of a written value are names, strings and integers of at most sixty-four bits.
-/

set_option autoImplicit false
set_option relaxedAutoImplicit false

namespace SqlCompose

/-! ### Scalars that are read as they are -/

theorem Decimal.withSignOfValue_eq_self_iff (number : Decimal) :
    number.withSignOfValue = number ↔ number.HasSignOfValue := by
  refine ⟨fun hself hzero ↦ ?_, withSignOfValue_eq_self⟩
  have hnegative : (number.negative && number.mantissa != 0) = number.negative :=
    congrArg Decimal.negative hself
  rw [hzero, bne_self_eq_false, Bool.and_false] at hnegative
  exact hnegative.symm

namespace Literal

/-- Not a decimal zero with a minus sign. -/
def HasSignOfValue : Literal → Prop
  | decimal number => number.HasSignOfValue
  | _ => True

theorem scalarAsRead_eq_self_iff (value : Literal) :
    value.scalarAsRead = value ↔ value.HasSignOfValue ∧ value.LeapsAtEnd := by
  cases value with
  | decimal number =>
    rw [scalarAsRead, decimal.injEq, number.withSignOfValue_eq_self_iff]
    exact (and_iff_left trivial).symm
  | time value =>
    have hsign : (time value).HasSignOfValue := trivial
    rw [and_iff_right hsign, ← scalarAsWritten_eq_self_iff]
    rfl
  | timestamp value =>
    have hsign : (timestamp value).HasSignOfValue := trivial
    rw [and_iff_right hsign, ← scalarAsWritten_eq_self_iff]
    rfl
  | _ => exact iff_of_true rfl ⟨trivial, trivial⟩

theorem scalarAsRead_of_not_isScalar (value : Literal) (harray : value.isScalar = false) :
    value.scalarAsRead = value := by
  cases value <;> first | rfl | cases harray

theorem scalarAsRead_eq_scalarAsWritten {value : Literal} (hsign : value.HasSignOfValue) :
    value.scalarAsRead = value.scalarAsWritten := by
  cases value with
  | decimal number => exact congrArg decimal (Decimal.withSignOfValue_eq_self hsign)
  | _ => rfl

theorem toJson_mapScalars_scalarAsWritten (value : Literal) :
    (value.mapScalars scalarAsWritten).toJson = value.toJson := by
  induction value using induction with
  | scalar value hscalar =>
    rw [mapScalars_of_isScalar hscalar]
    cases value with
    | time value => rw [scalarAsWritten, toJson, toJson, value.text_asWritten]
    | timestamp value => rw [scalarAsWritten, toJson, toJson, value.text_asWritten]
    | _ => rfl
  | array elements elementType ih =>
    have helements : listToJson (mapScalarsOfEach scalarAsWritten elements) =
        listToJson elements := by
      rw [mapScalarsOfEach_eq_map, listToJson_eq_map, listToJson_eq_map, List.map_map]
      exact List.map_congr_left ih
    rw [mapScalars, toJson, toJson, helements]

end Literal

namespace Expr

theorem listToJson_mapScalarsOfEach {exprs : List Expr} (hexprs : ∀ expr ∈ exprs,
      (expr.mapScalars Literal.scalarAsWritten).toJson = expr.toJson) :
    listToJson (mapScalarsOfEach Literal.scalarAsWritten exprs) = listToJson exprs := by
  rw [mapScalarsOfEach_eq_map, listToJson_eq_map, listToJson_eq_map, List.map_map]
  exact List.map_congr_left hexprs

theorem toJson_mapScalars_scalarAsWritten (expr : Expr) :
    (expr.mapScalars Literal.scalarAsWritten).toJson = expr.toJson := by
  induction expr using induction with
  | field | source => rfl
  | call name arguments harguments =>
    rw [mapScalars, toJson, toJson, listToJson_mapScalarsOfEach harguments]
  | literal value =>
    rw [mapScalars, toJson, toJson, value.toJson_mapScalars_scalarAsWritten]
  | array elements elementType helements =>
    rw [mapScalars, toJson, toJson, listToJson_mapScalarsOfEach helements]
  | _ => simp only [mapScalars, toJson, *]

end Expr

/-! ### Texts that can be taken apart again -/

namespace Json

/-- Every node of the value can come back from a text. -/
def AllReread (value : Json) : Prop :=
  ∀ node ∈ value.nodes, node.Rereads

theorem allReread_array {items : List Json} :
    (array items).AllReread ↔ ∀ item ∈ items, item.AllReread := by
  rw [AllReread, forall_mem_nodes_array]
  exact and_iff_right trivial

theorem allReread_object {members : List (String × Json)} :
    (object members).AllReread ↔ ∀ entry ∈ members, entry.2.AllReread := by
  rw [AllReread, forall_mem_nodes_object]
  exact and_iff_right trivial

theorem allReread_scalar {value : Json} (hscalar : value.isScalar = true) (hvalue : value.Rereads) :
    value.AllReread := by
  have hnodes : value.nodes = [value] := by
    cases value with
    | array | object => cases hscalar
    | _ => rfl
  rw [AllReread, hnodes, List.forall_mem_singleton]
  exact hvalue

@[simp] theorem allReread_null : null.AllReread := allReread_scalar rfl trivial

@[simp] theorem allReread_boolean (value : Bool) : (boolean value).AllReread :=
  allReread_scalar rfl trivial

@[simp] theorem allReread_string (value : String) : (string value).AllReread :=
  allReread_scalar rfl trivial

theorem allReread_integer {value : Int} (hlow : -9223372036854775808 ≤ value)
    (hhigh : value < 18446744073709551616) : (integer value).AllReread :=
  allReread_scalar rfl ⟨hlow, hhigh⟩

@[simp] theorem allReread_byte (byte : UInt8) : (integer byte.toNat).AllReread := by
  have hbyte := byte.toNat_lt
  exact allReread_integer (by omega) (by omega)

@[simp] theorem allReread_uint64 (number : UInt64) : (integer number.toNat).AllReread := by
  have hnumber := number.toNat_lt
  exact allReread_integer (by omega) (by omega)

@[simp] theorem allReread_int32 (number : Int32) : (integer number.toInt).AllReread := by
  have hlow := number.le_toInt
  have hhigh := number.toInt_lt
  exact allReread_integer (by omega) (by omega)

@[simp] theorem allReread_int64 (number : Int64) : (integer number.toInt).AllReread := by
  have hlow := number.le_toInt
  have hhigh := number.toInt_lt
  exact allReread_integer (by omega) (by omega)

end Json

theorem ValueType.allReread_toJson (type : ValueType) : type.toJson.AllReread := by
  induction type with
  | array element ih => simpa [toJson, Json.allReread_object] using ih
  | _ => exact Json.allReread_string _

theorem Interval.allReread_toJson (interval : Interval) : interval.toJson.AllReread := by
  simp [toJson, fieldNames, Json.allReread_object]

/-- The digits of a double are read as that double; other literals are not concerned. -/
def Literal.DigitsReread : Literal → Prop
  | float x => (Json.float x).Rereads
  | _ => True

theorem Literal.DigitsReread.isNumber {value : Literal} (hvalue : value.DigitsReread) :
    value.IsNumber := by
  cases value with
  | float x => exact Json.isFinite_of_rereads hvalue
  | _ => exact trivial

theorem Literal.allReread_toJson (value : Literal)
    (hvalue : ∀ node ∈ value.nodes, node.DigitsReread) : value.toJson.AllReread := by
  induction value using induction with
  | scalar value hscalar =>
    rw [nodes_of_isScalar hscalar, List.forall_mem_singleton] at hvalue
    cases value with
    | array => cases hscalar
    | float x =>
      have hx : (Json.float x).AllReread := Json.allReread_scalar rfl hvalue
      simpa [toJson, Json.allReread_object, Json.ofBinary64, Json.isFinite_of_rereads hvalue]
        using hx
    | interval interval =>
      simpa [toJson, Json.allReread_object] using interval.allReread_toJson
    | _ => simp [toJson, Json.allReread_object, Json.allReread_array]
  | array elements elementType ih =>
    have helements : ∀ element ∈ elements, element.toJson.AllReread :=
      fun element helement ↦ ih element helement fun node hnode ↦
        hvalue node (mem_nodes_array.mpr (Or.inr ⟨element, helement, hnode⟩))
    simpa [toJson, listToJson_eq_map, Json.allReread_object, Json.allReread_array,
      elementType.allReread_toJson] using helements

namespace Expr

theorem allReread_listToJson {exprs : List Expr} (hexprs : ∀ expr ∈ exprs, expr.toJson.AllReread) :
    (Json.array (listToJson exprs)).AllReread := by
  simpa [listToJson_eq_map, Json.allReread_array] using hexprs

theorem allReread_toJson (expr : Expr) (hexpr : ∀ value ∈ expr.constants, value.DigitsReread) :
    expr.toJson.AllReread := by
  induction expr using induction with
  | field position name => simp [toJson, Json.allReread_object]
  | source position => simp [toJson, Json.allReread_object]
  | not operand hoperand => simpa [toJson, Json.allReread_object] using hoperand hexpr
  | equals left right negated hleft hright =>
    rw [constants_equals, List.forall_mem_append] at hexpr
    simp [toJson, Json.allReread_object, hleft hexpr.1, hright hexpr.2]
  | between value first last hvalue hfirst hlast =>
    rw [constants_isIn, constants_range, List.forall_mem_append, List.forall_mem_append] at hexpr
    simp [toJson, Json.allReread_object, hvalue hexpr.1, hfirst hexpr.2.1, hlast hexpr.2.2]
  | isIn value collection _ hvalue hcollection =>
    rw [constants_isIn, List.forall_mem_append] at hexpr
    simp [toJson, Json.allReread_object, hvalue hexpr.1, hcollection hexpr.2]
  | range first last hfirst hlast =>
    rw [constants_range, List.forall_mem_append] at hexpr
    simp [toJson, Json.allReread_object, hfirst hexpr.1, hlast hexpr.2]
  | div left right hleft hright =>
    rw [constants_div, List.forall_mem_append] at hexpr
    simp [toJson, Json.allReread_object, hleft hexpr.1, hright hexpr.2]
  | truncate unit operand hoperand =>
    have hunit : unit.toJson.AllReread := by cases unit <;> exact Json.allReread_string _
    simp [toJson, Json.allReread_object, hunit, hoperand hexpr]
  | call name arguments harguments =>
    rw [constants_call, forall_mem_constantsOfEach] at hexpr
    have hall := allReread_listToJson fun argument hmem ↦
      harguments argument hmem (hexpr argument hmem)
    simp [toJson, Json.allReread_object, hall]
  | literal value =>
    rw [constants_literal] at hexpr
    simpa [toJson, Json.allReread_object] using value.allReread_toJson hexpr
  | array elements elementType helements =>
    rw [constants_array, forall_mem_constantsOfEach] at hexpr
    have hall := allReread_listToJson fun element hmem ↦
      helements element hmem (hexpr element hmem)
    simp [toJson, Json.allReread_object, hall, elementType.allReread_toJson]

end Expr

end SqlCompose
