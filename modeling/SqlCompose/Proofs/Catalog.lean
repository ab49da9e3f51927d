import SqlCompose.Catalog
import Mathlib.Data.List.Basic

/-!
What the catalog promises. Every entry fits the number of arguments under which it is listed: a
symbol between operands is listed for two arguments, a symbol in front for one and a bare word for
none. Hence a call always has the operands that its rule asks for (`callRule_cases`).
-/

set_option autoImplicit false
set_option relaxedAutoImplicit false

namespace SqlCompose

/-- The number of arguments that a rule asks for, where it asks for one. -/
def CallRule.operands? : CallRule → Option Nat
  | between _ => some 2
  | before _ => some 1
  | word _ => some 0
  | _ => none

/-- A rule is either the fallback under the name itself or that of an entry for the name and the
number of arguments. -/
theorem callRule_eq_fallback_or_mem (name : String) (arity : Nat) :
    callRule name arity = .fallback name ∨
      ∃ entry ∈ catalog, entry.name = name ∧ entry.arity = arity ∧
        callRule name arity = entry.rule := by
  unfold callRule
  cases hfind : catalog.find? fun entry ↦ entry.name == name && entry.arity == arity with
  | none => exact Or.inl rfl
  | some entry =>
    have hmatch := List.find?_some hfind
    simp only [Bool.and_eq_true, beq_iff_eq] at hmatch
    exact Or.inr ⟨entry, List.mem_of_find?_eq_some hfind, hmatch.1, hmatch.2, rfl⟩

/-- Every entry is listed for as many arguments as its rule asks for. -/
theorem arity_eq_of_mem_catalog {entry : CatalogEntry} (hmem : entry ∈ catalog) {operands : Nat}
    (hoperands : entry.rule.operands? = some operands) : entry.arity = operands := by
  have hall : ∀ entry ∈ catalog, entry.rule.operands?.all (· == entry.arity) = true := by decide
  have hentry := hall entry hmem
  rw [hoperands, Option.all_some, beq_iff_eq] at hentry
  exact hentry.symm

/-- A call has as many arguments as its rule asks for. -/
theorem arity_eq_of_callRule {name : String} {arity operands : Nat}
    (hoperands : (callRule name arity).operands? = some operands) : arity = operands := by
  rcases callRule_eq_fallback_or_mem name arity with hrule | ⟨entry, hmem, -, harity, hrule⟩
  · rw [hrule] at hoperands
    cases hoperands
  · rw [hrule] at hoperands
    rw [← harity]
    exact arity_eq_of_mem_catalog hmem hoperands

/-- The five ways of writing a call, each with the arguments it has. -/
theorem callRule_cases {α : Type} (name : String) (arguments : List α) :
    (∃ symbol left right, arguments = [left, right] ∧
        callRule name arguments.length = .between symbol) ∨
      (∃ symbol operand, arguments = [operand] ∧
        callRule name arguments.length = .before symbol) ∨
      (∃ bare, arguments = [] ∧ callRule name arguments.length = .word bare) ∨
      (∃ function, callRule name arguments.length = .function function) ∨
      callRule name arguments.length = .fallback name := by
  cases hrule : callRule name arguments.length with
  | between symbol =>
    have hlength : arguments.length = 2 := arity_eq_of_callRule (by rw [hrule]; rfl)
    obtain ⟨left, right, rfl⟩ := List.length_eq_two.mp hlength
    exact Or.inl ⟨symbol, left, right, rfl, rfl⟩
  | before symbol =>
    have hlength : arguments.length = 1 := arity_eq_of_callRule (by rw [hrule]; rfl)
    obtain ⟨operand, rfl⟩ := List.length_eq_one_iff.mp hlength
    exact Or.inr (Or.inl ⟨symbol, operand, rfl, rfl⟩)
  | word bare =>
    have hlength : arguments.length = 0 := arity_eq_of_callRule (by rw [hrule]; rfl)
    exact Or.inr (Or.inr (Or.inl ⟨bare, List.eq_nil_of_length_eq_zero hlength, rfl⟩))
  | function function => exact Or.inr (Or.inr (Or.inr (Or.inl ⟨function, rfl⟩)))
  | fallback other =>
    rcases callRule_eq_fallback_or_mem name arguments.length with hfallback |
      ⟨entry, hmem, -, -, hentry⟩
    · rw [hrule] at hfallback
      rw [hfallback]
      exact Or.inr (Or.inr (Or.inr (Or.inr rfl)))
    · rw [hrule] at hentry
      have hall : ∀ entry ∈ catalog, ∀ other, entry.rule ≠ .fallback other := by
        simp [catalog]
      exact absurd hentry.symm (hall entry hmem other)

end SqlCompose
