/-!
Powers of two and of ten as natural numbers. They scale significands and digits, and measure how
many bits a number may have.
-/

set_option autoImplicit false
set_option relaxedAutoImplicit false

namespace SqlCompose

/-- Two to the given power. -/
def twoTo (exponent : Nat) : Nat :=
  Nat.pow 2 exponent

/-- Ten to the given power. -/
def tenTo (exponent : Nat) : Nat :=
  Nat.pow 10 exponent

end SqlCompose
