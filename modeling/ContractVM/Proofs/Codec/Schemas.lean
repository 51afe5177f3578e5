import ContractVM.Codec.Schema
import ContractVM.Proofs.Codec.Container

/-! # Written forms of all schemas

    A schema puts a type together from words, Booleans, texts, bytes and scripts by lists,
    options, arrays and pairs.  Its written forms are put together in the same way:

    * **Limits** go down into a value: each list, text and row of bytes in it has at most
      `maxLength` elements.  An array has no length prefix, and so no limit of its own.
    * **Exactness** goes up: a codec that is put together from exact ones is exact. -/

namespace ContractVM.Schema

/-! ## Section 1: Limits -/

/-- Do the lists, texts and rows of bytes in a value have lengths that can be read? -/
def WithinLimits : (s : Schema) → s.Carrier → Prop
  | .u8, _ | .u16, _ | .u32, _ | .u64, _ | .i64, _ | .size, _ | .bool, _ => True
  | .string, (text : String) => text.utf8ByteSize ≤ maxLength
  | .bytes, (bs : Array UInt8) => bs.size ≤ maxLength
  | .debug, (d : DebugInfo) => d.WithinLimits
  | .script, (code : Script) => code.WithinLimits
  | .list s, (xs : List s.Carrier) => xs.length ≤ maxLength ∧ ∀ x ∈ xs, s.WithinLimits x
  | .option s, (o : Option s.Carrier) => ∀ x ∈ o, s.WithinLimits x
  | .array s _, (xs : Vector s.Carrier _) => ∀ x ∈ xs, s.WithinLimits x
  | .pair s t, (p : s.Carrier × t.Carrier) => s.WithinLimits p.1 ∧ t.WithinLimits p.2

/-! ## Section 2: Exactness -/

/-- The codec of a schema is exact up to the limits. -/
theorem exact_codec (s : Schema) : s.codec.Exact s.WithinLimits := by
  -- on the schema: each constructor has a codec of its own, or a combinator that keeps exactness
  induction s with
  | u8 => exact Codec.exact_u8
  | u16 => exact Codec.exact_u16
  | u32 => exact Codec.exact_u32
  | u64 => exact Codec.exact_u64
  | i64 => exact Codec.exact_i64
  | size => exact Codec.exact_u64
  | bool => exact Codec.exact_bool
  | string => exact Codec.exact_string
  | bytes => exact Codec.exact_bytes
  | debug => exact DebugInfo.exact_codec
  | script => exact Script.exact_codec
  | list s ih => exact ih.list
  | option s ih => exact ih.option
  | array s n ih => exact ih.array n
  | pair s t ihs iht => exact ihs.pair iht

/-- **Written forms are read back, and nothing else is.** Take any schema.

    A value within the limits is read from its written form, and what follows that form is left;
    if the written form is cut short anywhere, then the input ends too early.  Conversely, if a
    value is read, then the input is its written form and what is left, and the value is within
    the limits. -/
theorem written_forms_are_exact (s : Schema) :
    (∀ x, s.WithinLimits x →
      (∀ rest, s.codec.decode (s.codec.encode x ++ rest) = (.ok x, rest)) ∧
      ∀ front back, front ++ back = s.codec.encode x → back ≠ [] →
        (s.codec.decode front).1 = .error .endOfInput) ∧
    ∀ input x rest, s.codec.decode input = (.ok x, rest) →
      input = s.codec.encode x ++ rest ∧ s.WithinLimits x := by
  have hexact := s.exact_codec
  refine ⟨fun x hx => ?_, fun input x rest hread => ?_⟩
  · have haccepts := hexact.accepts x hx
    exact ⟨haccepts.reads, haccepts.runsOut⟩
  · have hcanonical := hexact.canonical input x rest hread
    exact ⟨hcanonical.2, hcanonical.1⟩

/-- A list of optional pairs of a text and an array: it is read back with a byte behind it, it is
    not read without its last byte, and it is read from this row of bytes only. -/
theorem optional_pairs_are_exact :
    let s : Schema := .list (.option (.pair .string (.array .u16 2)))
    let x : List (Option (String × Vector UInt16 2)) := [none, some ("é", #v[1, 256])]
    let written : List UInt8 :=
      [2, 0, 0, 0, 0, 0, 0, 0, 0, 1, 2, 0, 0, 0, 0, 0, 0, 0, 0xc3, 0xa9, 1, 0, 0, 1]
    s.WithinLimits x ∧ s.codec.encode x = written ∧
      s.codec.decode (written ++ [7]) = (.ok x, [7]) ∧
      (s.codec.decode written.dropLast).1 = .error .endOfInput ∧
      ∀ input, s.codec.decode input = (.ok x, []) → input = written := by
  intro s x written
  have hencode : s.codec.encode x = written := by decide
  have hentry : ∀ p : String × Vector UInt16 2, some p ∈ x → p = ("é", #v[1, 256]) := by
    intro p hp
    simpa [x] using hp
  have hlimits : s.WithinLimits x := by
    refine ⟨by decide, ?_⟩
    rintro _ hp p rfl
    rw [hentry p hp]
    have htext : "é".utf8ByteSize ≤ maxLength := by decide
    exact ⟨htext, fun _ _ => trivial⟩
  obtain ⟨hread, hcanonical⟩ := written_forms_are_exact s
  obtain ⟨hwhole, hcut⟩ := hread x hlimits
  rw [hencode] at hwhole hcut
  refine ⟨hlimits, hencode, hwhole [7], hcut _ [1] (by decide) (by decide), ?_⟩
  intro input hinput
  rw [(hcanonical input x [] hinput).1, hencode, List.append_nil]

end ContractVM.Schema
