/-! # Decoders

    A decoder reads a value from the front of a row of bytes.  It says what is
    left, also when it fails: the bytes at which it stopped. -/

namespace ContractVM

/-- Why a value could not be decoded. -/
inductive DecodeError where
  /-- The input ended inside the value. -/
  | endOfInput
  /-- The bytes are no written form. -/
  | invalidValue
  /-- A length prefix exceeds the limit. -/
  | lengthOverflow
  deriving DecidableEq, Repr

/-- The text shown for a decoding error. -/
def DecodeError.message : DecodeError → String
  | .endOfInput => "unexpected end of input"
  | .invalidValue => "invalid value"
  | .lengthOverflow => "length prefix too large"

/-- Reads a value and returns the bytes that are left. -/
def Decoder (α : Type) : Type :=
  List UInt8 → Except DecodeError α × List UInt8

namespace Decoder

/-- Reads nothing. -/
protected def pure (a : α) : Decoder α :=
  fun input => (.ok a, input)

/-- Fails where the input stands. -/
def fail (e : DecodeError) : Decoder α :=
  fun input => (.error e, input)

/-- Reads with `d` and then with the decoder chosen from its value. -/
protected def bind (d : Decoder α) (f : α → Decoder β) : Decoder β :=
  fun input =>
    match d input with
    | (.ok a, rest) => f a rest
    | (.error e, rest) => (.error e, rest)

instance : Monad Decoder where
  pure := Decoder.pure
  bind := Decoder.bind

/-- Splits a row after `n` elements, if it has that many. -/
def splitExact? : Nat → List α → Option (List α × List α)
  | 0, rest => some ([], rest)
  | _ + 1, [] => none
  | n + 1, a :: rest => (splitExact? n rest).map fun (front, back) => (a :: front, back)

/-- Takes `n` bytes, or none at all. -/
def take (n : Nat) : Decoder (List UInt8) :=
  fun input =>
    match splitExact? n input with
    | some (front, back) => (.ok front, back)
    | none => (.error .endOfInput, input)

/-- Reads `n` values one after another; `done` holds those already read, the
    last one first. -/
def many (d : Decoder α) : Nat → List α → Decoder (List α)
  | 0, done => Decoder.pure done.reverse
  | n + 1, done => d.bind fun a => many d n (a :: done)

/-- Reads a value that must span the whole input. -/
def complete (d : Decoder α) (input : List UInt8) : Except DecodeError α :=
  match d input with
  | (.ok a, []) => .ok a
  | (.ok _, _ :: _) => .error .invalidValue
  | (.error e, _) => .error e

theorem splitExact?_append (front back : List α) :
    splitExact? front.length (front ++ back) = some (front, back) := by
  induction front with
  | nil => rfl
  | cons a front ih => simp [splitExact?, ih]

theorem eq_append_of_splitExact? {n : Nat} {input front back : List α}
    (h : splitExact? n input = some (front, back)) :
    input = front ++ back ∧ front.length = n := by
  induction n generalizing input front with
  | zero => simp_all [splitExact?]
  | succ n ih =>
    cases input with
    | nil => simp [splitExact?] at h
    | cons a rest =>
      simp only [splitExact?, Option.map_eq_some_iff, Prod.mk.injEq, Prod.exists] at h
      obtain ⟨front', back', h, rfl, rfl⟩ := h
      obtain ⟨rfl, rfl⟩ := ih h
      simp

theorem splitExact?_eq_none_iff {n : Nat} {input : List α} :
    splitExact? n input = none ↔ input.length < n := by
  induction n generalizing input with
  | zero => simp [splitExact?]
  | succ n ih => cases input <;> simp [splitExact?, ih]

@[simp] theorem pure_apply (a : α) (input : List UInt8) :
    (Pure.pure a : Decoder α) input = (.ok a, input) := rfl

theorem bind_apply (d : Decoder α) (f : α → Decoder β) (input : List UInt8) :
    (d >>= f) input = match d input with
      | (.ok a, rest) => f a rest
      | (.error e, rest) => (.error e, rest) := rfl

end Decoder

end ContractVM
