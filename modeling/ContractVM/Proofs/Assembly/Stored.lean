import Mathlib.Data.List.Perm.Subperm
import ContractVM.Command.Load
import ContractVM.Proofs.Assembly.Labels
import ContractVM.Proofs.Codec.Container

/-! # Assembled scripts in containers

    The assembler takes code that offsets can reach, up to 4 GiB.  A container is read only if
    no length in it exceeds `maxLength`:

    * **Within the limits**: an assembled script is read back if its code, its table of labels
      and their names can be read.  Its other tables are not longer than these.
    * **Beyond them**: longer code is assembled and written, but its container is refused. -/

namespace ContractVM

namespace Assembly

/-! ## Section 1: The other tables -/

variable {lines : List SourceLine} {source : String} {script : Script} {debug : DebugInfo}

/-- An instruction adds at most one line to the table of lines, and some code. -/
theorem Image.place_lines_le {labels : List (String × Nat)} {image image' : Image} {s : Statement}
    (hplace : image.place labels s = .ok image') (hle : image.lines.length ≤ image.code.size) :
    image'.lines.length ≤ image'.code.size := by
  unfold Image.place at hplace
  split at hplace
  · cases hplace
  · next i hi =>
    cases hplace
    have hpos : 0 < i.encode.length := by
      rw [i.length_encode]
      exact i.encodedLength_pos
    have hsize : (image.code ++ i.encode).size = image.code.size + i.encode.length := by
      rw [← Array.length_toList, Array.toList_appendList, List.length_append, Array.length_toList]
    dsimp only
    rw [hsize]
    split
    · omega
    · rw [List.length_cons]
      omega

theorem foldlM_place_lines_le {labels : List (String × Nat)} {ss : List Statement}
    {image image' : Image} (h : ss.foldlM (Image.place labels) image = .ok image')
    (hle : image.lines.length ≤ image.code.size) : image'.lines.length ≤ image'.code.size := by
  induction ss generalizing image with
  | nil =>
    cases h
    exact hle
  | cons s ss ih =>
    rw [List.foldlM_cons, Except.bind_eq_ok] at h
    obtain ⟨image₁, hplace, hrest⟩ := h
    exact ih hrest (Image.place_lines_le hplace hle)

/-- The table of lines is not longer than the code. -/
theorem assemble_lines_le (h : assemble source = .ok script) (hdebug : script.debug = some debug) :
    debug.lines.length ≤ script.code.size := by
  unfold assemble layout at h
  obtain ⟨names, -, h⟩ := Except.bind_eq_ok.mp h
  obtain ⟨draft, -, h⟩ := Except.bind_eq_ok.mp h
  obtain ⟨image, himage, heq⟩ := Except.bind_eq_ok.mp h
  cases heq
  cases hdebug
  rw [List.length_reverse]
  exact foldlM_place_lines_le himage (Nat.zero_le _)

/-- The table of methods is a part of the table of labels. -/
theorem LaidOut.methods_subperm {program : List Item} {placed : List (Instr UInt32)}
    (h : LaidOut program placed script) (hdebug : script.debug = some debug) :
    script.methods.Subperm debug.labels := by
  obtain ⟨debug', hdebug', hperm, -⟩ := h.labels
  cases hdebug.symm.trans hdebug'
  -- public definitions are some of all definitions, in the same order
  have hsublist := (List.filter_sublist (l := definitions program)
    (p := fun d => d.1.isPublic)).map fun d => (d.1.name, UInt32.ofNat (startOf placed d.2))
  rw [labelOffsets, List.map_map] at hperm
  rw [h.methods]
  exact hsublist.subperm.trans hperm.symm.subperm

/-- An assembled script is within the limits if its code, its labels and their names are. -/
theorem withinLimits_iff (h : assemble source = .ok script) (hdebug : script.debug = some debug) :
    script.WithinLimits ↔ script.code.size ≤ maxLength ∧ debug.labels.length ≤ maxLength ∧
      ∀ l ∈ debug.labels, l.1.utf8ByteSize ≤ maxLength := by
  obtain ⟨own, placed, -, hlaid⟩ := assemble_laidOut h
  have hmethods := hlaid.methods_subperm hdebug
  constructor
  · intro hlimits
    have hd := hlimits.debug debug hdebug
    exact ⟨hlimits.code, hd.labels, hd.names⟩
  · rintro ⟨hcode, hlabels, hnames⟩
    refine ⟨hcode, Nat.le_trans hmethods.length_le hlabels, ?_, ?_⟩
    · intro m hm
      exact hnames m (hmethods.subset hm)
    · intro d hd
      cases hdebug.symm.trans hd
      exact ⟨hlabels, hnames, Nat.le_trans (assemble_lines_le h hdebug) hcode⟩

end Assembly

/-! ## Section 2: Code beyond the limit -/

theorem Decoder.bind_of_error {α β : Type} {d : Decoder α} {f : α → Decoder β}
    {input rest : List UInt8} {e : DecodeError} (h : d input = (.error e, rest)) :
    (d >>= f) input = (.error e, rest) := by
  rw [bind_apply, h]

theorem Codec.decode_length_of_long {n : Nat} (hlong : maxLength < n)
    (hfits : n < LittleEndian.capacity 8) (rest : List UInt8) :
    Codec.length.decode (Codec.length.encode n ++ rest) = (.error .lengthOverflow, rest) := by
  have hword := ((Codec.exact_word 8).accepts n hfits).reads rest
  have hdecode : Codec.length.decode = (Codec.word 8).decode >>= fun n =>
      if maxLength < n then Decoder.fail .lengthOverflow else pure n := rfl
  have hencode : Codec.length.encode n = (Codec.word 8).encode n := rfl
  rw [hdecode, hencode, Decoder.bind_apply, hword]
  dsimp only
  rw [if_pos hlong]
  rfl

/-- A container with too much code is refused as soon as the length of the code is read. -/
theorem Script.ofBytes?_of_long_code {s : Script} (hlong : maxLength < s.code.size)
    (hfits : s.code.size < LittleEndian.capacity 8) :
    ofBytes? s.toBytes = .error (.malformed .lengthOverflow) := by
  -- behind the header, the length of the code comes first
  obtain ⟨more, hencode⟩ : ∃ more, codec.encode s = Codec.length.encode s.code.size ++ more := by
    show ∃ more, Codec.bytes.encode s.code ++ _ = _
    rw [encode_bytes, Array.length_toList, List.append_assoc]
    exact ⟨_, rfl⟩
  have hlength : Codec.length.decode (codec.encode s) = (.error .lengthOverflow, more) := by
    rw [hencode]
    exact Codec.decode_length_of_long hlong hfits more
  have hbytes : Codec.bytes.decode (codec.encode s) = (.error .lengthOverflow, more) :=
    Decoder.bind_of_error (Decoder.bind_of_error hlength)
  have hscript : codec.decode (codec.encode s) = (.error .lengthOverflow, more) :=
    Decoder.bind_of_error (Decoder.bind_of_error hbytes)
  rw [toBytes_eq, ofBytes?_header]
  unfold readPart
  rw [hscript]

namespace Assembly

/-! ## Section 3: A line that loads a text -/

/-- A text of `n` equal letters. -/
def letters (n : Nat) : String :=
  String.ofList (List.replicate n 'a')

theorem toList_letters (n : Nat) : (letters n).toList = List.replicate n 'a' :=
  String.toList_ofList

theorem utf8ByteSize_letters (n : Nat) : (letters n).utf8ByteSize = n := by
  induction n with
  | zero => rfl
  | succ n ih =>
    have hcons : letters (n + 1) = "a" ++ letters n := by
      apply String.toList_inj.mp
      rw [String.toList_append, toList_letters, toList_letters]
      rfl
    rw [hcons, String.utf8ByteSize_append, ih]
    exact Nat.add_comm 1 n

theorem isLabelName_letters {n : Nat} (hn : 0 < n) : isLabelName (letters n) = true := by
  rw [isLabelName_iff, toList_letters]
  refine ⟨'a', List.replicate (n - 1) 'a', ?_, by decide, ?_⟩
  · rw [← List.replicate_succ, Nat.sub_add_cancel hn]
  · intro d hd
    rw [← List.replicate_succ] at hd
    rw [List.eq_of_mem_replicate hd]
    decide

/-- A source of one line, which loads a text of letters. -/
def loadLetters (n : Nat) : String :=
  "LOAD r30, \"" ++ letters n ++ "\""

theorem lines_loadLetters (n : Nat) : Text.lines (loadLetters n) = [loadLetters n] := by
  have htext : (loadLetters n).toList =
      "LOAD r30, \"".toList ++ List.replicate n 'a' ++ "\"".toList := by
    unfold loadLetters
    rw [String.toList_append, String.toList_append, toList_letters]
  have hbreak : '\n' ∉ (loadLetters n).toList := by
    rw [htext, List.mem_append, List.mem_append, List.mem_replicate]
    simp
  have hne : (loadLetters n).toList ≠ [] := by
    rw [htext]
    simp
  exact Text.lines_of_noBreak hne hbreak

/-- The instruction of that line, and its code: eleven bytes and the letters. -/
def loadInstr (A : Type) (n : Nat) : Instr A :=
  ⟨.load, (30, .string (letters n), ())⟩

theorem encodedLength_loadInstr (A : Type) (n : Nat) : (loadInstr A n).encodedLength = n + 11 := by
  have hprefix : (Codec.length.encode (letters n).utf8ByteSize).length = 8 :=
    LittleEndian.length_bytes 8 _
  have hbytes : (letters n).toUTF8.data.toList.length = n :=
    Array.length_toList.trans (utf8ByteSize_letters n)
  have hliteral : (Literal.string (letters n)).encode.length = n + 9 := by
    show (Codec.length.encode (letters n).utf8ByteSize ++
      (letters n).toUTF8.data.toList).length + 1 = n + 9
    rw [List.length_append, hprefix, hbytes]
    omega
  unfold loadInstr
  rw [Instr.encodedLength_load, hliteral]

theorem assemble_loadLetters {n : Nat} (hn : 0 < n) (hfits : n + 11 < UInt32.size) :
    ∃ script, assemble (loadLetters n) = .ok script ∧ script.code.size = n + 11 ∧
      script.debug = some ⟨[], [(0, 1)]⟩ := by
  have hname := isLabelName_letters hn
  have hsmall : ¬UInt32.size ≤ (loadInstr Address n).encodedLength := by
    rw [encodedLength_loadInstr]
    omega
  have hassemble := assemble_statement (lines_loadLetters n) (tokenize_load hname) (by decide)
    (by decide) (parseInstr_load hname) rfl
  refine ⟨_, hassemble.trans (if_neg hsmall), ?_, rfl⟩
  show (loadInstr UInt32 n).encode.toArray.size = n + 11
  rw [List.size_toArray, Instr.length_encode, encodedLength_loadInstr]

end Assembly

/-! ## Section 4: Scripts in files -/

namespace Command

variable {t : Tree} {path : String}

/-- What a command does over the files of a tree, after the events that it has shown. -/
def Work.over {α : Type} (work : Work (StateM Tree) α) (events : Array Event) (t : Tree) :
    (Except Nat α × Array Event) × Tree :=
  (work.run.run events).run t

/-- Asked for a file, a tree gives it and stays the same. -/
theorem Work.over_read {α : Type} (next : Except StorageError (Array UInt8) → Work (StateM Tree) α)
    (events : Array Event) :
    Work.over (Work.ask (Tree.storage.read path) >>= next) events t =
      Work.over (next (t.read path)) events t := rfl

/-- A container is loaded from its file. -/
theorem loadScript_of_container {bytes : List UInt8} (hpath : Path.extension? path = some "bin")
    (hread : t.read path = .ok bytes.toArray) (events : Array Event) :
    (loadScript Tree.storage path).over events t =
      ((.ok ((Script.ofBytes? bytes).mapError .badContainer), events), t) := by
  unfold loadScript
  rw [if_pos hpath, Work.over_read, hread]
  rfl

/-- A source that can be assembled is loaded from its file. -/
theorem loadScript_of_source {source : String} {script : Script}
    (hpath : Path.extension? path ≠ some "bin") (hread : t.read path = .ok source.toUTF8.data)
    (h : Assembly.assemble source = .ok script) (events : Array Event) :
    (loadScript Tree.storage path).over events t = ((.ok (.ok script), events), t) := by
  have htext : String.fromUTF8? ⟨source.toUTF8.data⟩ = some source :=
    Codec.fromUTF8?_eq_some_iff.mpr rfl
  unfold loadScript assembleFile
  rw [if_neg hpath, Work.over_read, hread]
  simp only [htext, h]
  rfl

end Command

namespace Assembly

/-- **Assembled scripts are read back within the limits.** The container of an assembled
    script is read back if and only if its code, its labels and their names are within the
    limits on lengths; then it does not matter whether a file with the container or one with
    the source is loaded.  A container with more code is refused. -/
theorem assembled_script_is_read_back_within_limits {source : String} {script : Script}
    (h : assemble source = .ok script) :
    ∃ debug, script.debug = some debug ∧
      (Script.ofBytes? script.toBytes = .ok script ↔ script.code.size ≤ maxLength ∧
        debug.labels.length ≤ maxLength ∧ ∀ l ∈ debug.labels, l.1.utf8ByteSize ≤ maxLength) ∧
      (maxLength < script.code.size →
        Script.ofBytes? script.toBytes = .error (.malformed .lengthOverflow)) ∧
      (Script.ofBytes? script.toBytes = .ok script →
        ∀ (t : Command.Tree) (stored path : String) (events : Array Command.Event),
          Command.Path.extension? stored = some "bin" →
          Command.Path.extension? path ≠ some "bin" →
          t.read stored = .ok script.toBytes.toArray → t.read path = .ok source.toUTF8.data →
            (Command.loadScript Command.Tree.storage stored).over events t =
              (Command.loadScript Command.Tree.storage path).over events t) := by
  obtain ⟨own, placed, -, hlaid⟩ := assemble_laidOut h
  obtain ⟨debug, hdebug, -⟩ := hlaid.labels
  refine ⟨debug, hdebug, ?_, ?_, ?_⟩
  · rw [← withinLimits_iff h hdebug]
    constructor
    · exact fun hread => (Script.eq_toBytes_of_ofBytes? hread).2
    · intro hlimits
      have hread := Script.ofBytes?_toBytes_append hlimits []
      rwa [List.append_nil] at hread
  · intro hlong
    have hfits : UInt32.size ≤ LittleEndian.capacity 8 := by decide
    exact Script.ofBytes?_of_long_code hlong (Nat.lt_of_lt_of_le hlaid.size_lt hfits)
  · intro hread t stored path events hstored hpath hbytes htext
    rw [Command.loadScript_of_container hstored hbytes events, hread,
      Command.loadScript_of_source hpath htext h events]
    rfl

/-- The longest text of letters that can be loaded and read back. -/
theorem longest_letters_are_read_back : ∃ script,
    assemble (loadLetters 16777205) = .ok script ∧ script.code.size = maxLength ∧
      Script.ofBytes? script.toBytes = .ok script := by
  obtain ⟨script, hassemble, hsize, hdebug⟩ :=
    assemble_loadLetters (n := 16777205) (by decide) (by decide)
  obtain ⟨debug, hdebug', hread, -⟩ := assembled_script_is_read_back_within_limits hassemble
  cases hdebug.symm.trans hdebug'
  have hmax : script.code.size = maxLength := hsize.trans (by decide)
  refine ⟨script, hassemble, hmax, hread.mpr ⟨Nat.le_of_eq hmax, Nat.zero_le _, ?_⟩⟩
  exact fun l hl => absurd hl List.not_mem_nil

/-- With one letter more, the script is assembled, but its container is refused. -/
theorem longer_letters_are_not_read_back : ∃ script,
    assemble (loadLetters 16777206) = .ok script ∧ script.code.size = maxLength + 1 ∧
      Script.ofBytes? script.toBytes = .error (.malformed .lengthOverflow) := by
  obtain ⟨script, hassemble, hsize, -⟩ :=
    assemble_loadLetters (n := 16777206) (by decide) (by decide)
  have hlong : script.code.size = maxLength + 1 := hsize.trans (by decide)
  refine ⟨script, hassemble, hlong, Script.ofBytes?_of_long_code ?_ ?_⟩
  · rw [hlong]
    exact Nat.lt_succ_self _
  · rw [hlong]
    decide

end Assembly

end ContractVM
