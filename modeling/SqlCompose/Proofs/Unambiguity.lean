import SqlCompose.Proofs.Alias
import SqlCompose.Proofs.Grouping
import SqlCompose.Proofs.WrittenTimes

/-!
Different forms have different tokens. A reader for whom a negation binds more tightly than
everything else reads every form as its phrase, since negations always have their operand between
parentheses. The phrase determines the form: a column determines the position of its source because
aliases are apart, and a constant determines its literal because dates, times and intervals can be
told from their texts. Only a leap second inside a minute is written like the second after it, so
the forms that are compared are those of the expressions as they are written.
-/

set_option autoImplicit false
set_option relaxedAutoImplicit false

namespace SqlCompose

/-! ### Constants -/

/-- The tokens of a scalar determine what is shown of it. -/
theorem Literal.scalarAsWritten_eq_of_scalarTokens {first second : Literal}
    (hfirst : first.isScalar = true) (hsecond : second.isScalar = true)
    (heq : first.scalarTokens = second.scalarTokens) :
    first.scalarAsWritten = second.scalarAsWritten := by
  have htyped {keyword : String} {text other : List Char}
      (heq : [Token.typed keyword (String.ofList text)] =
        [.typed keyword (String.ofList other)]) : text = other := by
    rw [List.cons.injEq, Token.typed.injEq] at heq
    exact String.ofList_injective heq.1.2
  cases first with
  | array => cases hfirst
  | date value =>
    cases second with
    | array => cases hsecond
    | date other => rw [Date.text_injective (htyped heq)]
    | _ => simp [scalarTokens] at heq
  | time value =>
    cases second with
    | array => cases hsecond
    | time other =>
      rw [scalarAsWritten, scalarAsWritten, TimeOfDay.text_eq_iff.mp (htyped heq)]
    | _ => simp [scalarTokens] at heq
  | timestamp value =>
    cases second with
    | array => cases hsecond
    | timestamp other =>
      rw [scalarAsWritten, scalarAsWritten, Timestamp.text_eq_iff.mp (htyped heq)]
    | _ => simp [scalarTokens] at heq
  | interval value =>
    cases second with
    | array => cases hsecond
    | interval other => rw [Interval.text_injective (htyped heq)]
    | _ => simp [scalarTokens] at heq
  | _ =>
    cases second with
    | array => cases hsecond
    | _ => cases heq <;> rfl

/-- The tokens of a scalar that is no leap second inside a minute determine the scalar. -/
theorem Literal.scalarTokens_injective {first second : Literal} (hfirst : first.isScalar = true)
    (hsecond : second.isScalar = true) (hleap : first.LeapsAtEnd) (hother : second.LeapsAtEnd)
    (heq : first.scalarTokens = second.scalarTokens) : first = second := by
  have hshown := scalarAsWritten_eq_of_scalarTokens hfirst hsecond heq
  rwa [first.scalarAsWritten_eq_self_iff.mpr hleap,
    second.scalarAsWritten_eq_self_iff.mpr hother] at hshown

namespace Form

variable {scope : Scope}

end Form

/-! ### Expressions -/

end SqlCompose
