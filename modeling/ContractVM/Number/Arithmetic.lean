/-! # Integer operations of the machine

    Division and remainder round toward zero, and so does a shift to the right: it
    divides by a power of two. -/

namespace ContractVM.Arithmetic

/-- The sign of an integer: -1, 0 or 1. -/
def sign (n : Int) : Int :=
  if n < 0 then -1 else if n = 0 then 0 else 1

/-- The quotient rounded toward zero. -/
def quotient (a b : Int) : Int := Int.tdiv a b

/-- The remainder that goes with the quotient; it has the sign of `a`. -/
def remainder (a b : Int) : Int := Int.tmod a b

/-- `a` times the `n`-th power of two. -/
def shiftLeft (a : Int) (n : Nat) : Int := a <<< n

/-- `a` over the `n`-th power of two, rounded toward zero: the absolute value is
    shifted, and the sign is kept. -/
def shiftRight (a : Int) (n : Nat) : Int :=
  if a < 0 then -((-a) >>> n) else a >>> n

/-- The `n`-th power of `a`. -/
def power (a : Int) (n : Nat) : Int := Int.pow a n

end ContractVM.Arithmetic
