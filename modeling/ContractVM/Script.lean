import ContractVM.Codec.Codec
import ContractVM.Digest.Sha3

/-! # Scripts

    A script is code with a table of its public methods and, optionally, debug
    information that leads from offsets back to source lines.  Scripts travel in a
    binary container: a magic word, a version, a tag and the encoded script. -/

namespace ContractVM

/-- A name and the code offset that it stands for. -/
abbrev NamedOffset := String × UInt32

/-- What is known of the source of a script. -/
structure DebugInfo where
  /-- Every label with its offset. -/
  labels : List NamedOffset
  /-- The offset at which an instruction starts, and its source line. -/
  lines : List (UInt32 × UInt32)
  deriving DecidableEq, Repr

/-- Code with its public entry points. -/
structure Script where
  code : Array UInt8
  /-- The public methods, in the order of their declaration. -/
  methods : List NamedOffset
  debug : Option DebugInfo
  deriving DecidableEq, Repr

/-- Bisection: the number of elements, counted from `base`, at which a test stops
    holding, if it holds for a front part of the `size` elements from there on. -/
def bisect (test : Nat → Bool) (base size : Nat) : Nat :=
  if size ≤ 1 then
    if size = 1 && test base then base + 1 else base
  else
    let middle := base + size / 2
    bisect test (if test middle then middle else base) (size - size / 2)
termination_by size
decreasing_by omega

namespace DebugInfo

/-- The source line of the instruction that covers an offset. -/
def lineFor (d : DebugInfo) (offset : Nat) : Option UInt32 :=
  let lines := d.lines.toArray
  if offset < UInt32.size then
    match bisect (fun i => (lines[i]?.any fun line => line.1.toNat ≤ offset)) 0 lines.size with
    | 0 => none
    | i + 1 => lines[i]?.map Prod.snd
  else none

/-- The binary form: the labels, then the lines. -/
def codec : Codec DebugInfo :=
  ((Codec.string.pair Codec.u32).list.pair (Codec.u32.pair Codec.u32).list).convert
    (fun d => (d.labels, d.lines)) (fun p => ⟨p.1, p.2⟩)

end DebugInfo

namespace Script

/-- A script with neither methods nor debug information. -/
def ofCode (code : Array UInt8) : Script := ⟨code, [], none⟩

/-- The offset of a public method. -/
def methodOffset? (s : Script) (name : String) : Option UInt32 :=
  (s.methods.find? fun entry => entry.1 == name).map Prod.snd

/-- The source line of a code offset, if the script carries debug information. -/
def lineFor (s : Script) (offset : Nat) : Option UInt32 :=
  s.debug.bind fun d => d.lineFor offset

/-- The identity of a script: the digest of its code alone. -/
def digest (s : Script) : Sha3.Digest :=
  Sha3.digest s.code.toList

/-- The binary form without header: the code, the methods, the debug information. -/
def codec : Codec Script :=
  (Codec.bytes.pair ((Codec.string.pair Codec.u32).list.pair DebugInfo.codec.option)).convert
    (fun s => (s.code, s.methods, s.debug)) (fun p => ⟨p.1, p.2.1, p.2.2⟩)

/-! ## The container -/

/-- Why bytes are no container of a script. -/
inductive FormatError where
  | truncated
  | badMagic
  | unsupportedVersion
  | badTag
  | trailingBytes
  | malformed (e : DecodeError)
  deriving DecidableEq, Repr

/-- The text shown for a format error. -/
def FormatError.message (e : FormatError) : String :=
  "decoding error: " ++ match e with
    | .truncated => "truncated"
    | .badMagic => "bad magic"
    | .unsupportedVersion => "unsupported version"
    | .badTag => "bad prefix"
    | .trailingBytes => "trailing bytes"
    | .malformed e => e.message

/-- The five bytes with which a container starts. -/
def magic : List UInt8 := "CVMSC".toUTF8.data.toList

/-- The version of the format: major, minor and patch. -/
def version : List UInt8 := [0, 1, 0]

/-- The row of bytes that precedes the encoded script. -/
def tag : Array UInt8 := "SCRIPT".toUTF8.data

/-- The container of a script. -/
def toBytes (s : Script) : List UInt8 :=
  magic ++ version ++ Codec.bytes.encode tag ++ codec.encode s

/-- Reads a part of a container and goes on with the rest. -/
def readPart (d : Decoder α) (input : List UInt8)
    (next : α → List UInt8 → Except FormatError β) : Except FormatError β :=
  match d input with
  | (.ok a, rest) => next a rest
  | (.error e, _) => .error (.malformed e)

/-- The script in a container.  The header is checked part by part, and nothing
    may follow the script. -/
def ofBytes? (input : List UInt8) : Except FormatError Script :=
  if input.length < magic.length then .error .truncated
  else readPart (Decoder.take magic.length) input fun m input =>
    if m ≠ magic then .error .badMagic
    else readPart (Decoder.take version.length) input fun v input =>
      if v ≠ version then .error .unsupportedVersion
      else readPart Codec.bytes.decode input fun t input =>
        if t ≠ tag then .error .badTag
        else readPart codec.decode input fun s input =>
          if input.isEmpty then .ok s else .error .trailingBytes

end Script

end ContractVM
