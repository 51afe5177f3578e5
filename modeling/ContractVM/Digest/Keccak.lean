/-! # The Keccak permutation

    Keccak-f[1600] on 25 lanes of 64 bits.  The lane in column `x` and row `y`
    stands at index `x + 5 * y`. -/

namespace ContractVM.Keccak

/-- The state of the permutation: five rows of five lanes. -/
abbrev State := Vector UInt64 25

/-- The lane in column `x` and row `y`, both taken modulo 5. -/
def State.lane (a : State) (x y : Nat) : UInt64 :=
  a[x % 5 + 5 * (y % 5)]

/-- The state whose lane in column `x` and row `y` is `f x y`. -/
def State.ofLanes (f : Nat → Nat → UInt64) : State :=
  Vector.ofFn fun i => f (i.val % 5) (i.val / 5)

/-- Rotation towards the high bits. -/
def rotate (w : UInt64) (n : Nat) : UInt64 :=
  if n % 64 = 0 then w
  else (w <<< UInt64.ofNat (n % 64)) ||| (w >>> UInt64.ofNat (64 - n % 64))

/-- The parity of each column, mixed with that of its neighbours. -/
def columnMix (a : State) : Vector UInt64 5 :=
  let parity : Vector UInt64 5 := Vector.ofFn fun x =>
    a.lane x 0 ^^^ a.lane x 1 ^^^ a.lane x 2 ^^^ a.lane x 3 ^^^ a.lane x 4
  Vector.ofFn fun x =>
    parity[(x.val + 4) % 5] ^^^ rotate parity[(x.val + 1) % 5] 1

/-- The step theta: adds the parities of two columns to every lane. -/
def theta (a : State) : State :=
  let d := columnMix a
  State.ofLanes fun x y => a.lane x y ^^^ d[x % 5]

/-- How far each lane is rotated, by index. -/
def offsets : Vector Nat 25 :=
  #v[0, 1, 62, 28, 27, 36, 44, 6, 55, 20, 3, 10, 43, 25, 39, 41, 45, 15, 21, 8, 18, 2, 61, 56, 14]

/-- The steps rho and pi: rotates every lane and moves it to its new place. -/
def rhoPi (a : State) : State :=
  State.ofLanes fun x y =>
    let source := (x + 3 * y) % 5
    rotate (a.lane source x) offsets[source % 5 + 5 * (x % 5)]

/-- The step chi: combines each lane with the next two of its row. -/
def chi (a : State) : State :=
  State.ofLanes fun x y => a.lane x y ^^^ (~~~ a.lane (x + 1) y &&& a.lane (x + 2) y)

/-- The constants of the 24 rounds. -/
def roundConstants : List UInt64 :=
  [0x0000000000000001, 0x0000000000008082, 0x800000000000808a, 0x8000000080008000,
   0x000000000000808b, 0x0000000080000001, 0x8000000080008081, 0x8000000000008009,
   0x000000000000008a, 0x0000000000000088, 0x0000000080008009, 0x000000008000000a,
   0x000000008000808b, 0x800000000000008b, 0x8000000000008089, 0x8000000000008003,
   0x8000000000008002, 0x8000000000000080, 0x000000000000800a, 0x800000008000000a,
   0x8000000080008081, 0x8000000000008080, 0x0000000080000001, 0x8000000080008008]

/-- One round; the step iota adds the constant to the first lane. -/
def round (a : State) (constant : UInt64) : State :=
  let b := chi (rhoPi (theta a))
  b.set 0 (b[0] ^^^ constant)

/-- The whole permutation. -/
def permute (a : State) : State :=
  roundConstants.foldl round a

end ContractVM.Keccak
