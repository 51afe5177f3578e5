import ContractVM.Proofs.Codec.Exact
import ContractVM.Script

/-! # The container of a script

    A container is read if and only if it was written, and only scripts within the limits
    on lengths can be read:

    * **Limits**: code, lists and names of at most `maxLength` bytes or elements.
    * **The body** is exact, because it is put together from exact codecs.
    * **The header** is checked part by part; each departure from it has its own error. -/

namespace ContractVM

/-! ## Section 1: Limits -/

/-- Do the lists and names of the debug information have lengths that can be read? -/
structure DebugInfo.WithinLimits (d : DebugInfo) : Prop where
  labels : d.labels.length ≤ maxLength
  names : ∀ l ∈ d.labels, l.1.utf8ByteSize ≤ maxLength
  lines : d.lines.length ≤ maxLength

/-- Do the code, the lists and the names of the script have lengths that can be read? -/
structure Script.WithinLimits (s : Script) : Prop where
  code : s.code.size ≤ maxLength
  methods : s.methods.length ≤ maxLength
  names : ∀ m ∈ s.methods, m.1.utf8ByteSize ≤ maxLength
  debug : ∀ d ∈ s.debug, d.WithinLimits

/-! ## Section 2: The body -/

/-- Lists of names and offsets are exact up to the limits. -/
theorem exact_namedOffsets : (Codec.string.pair Codec.u32).list.Exact fun entries =>
    entries.length ≤ maxLength ∧ ∀ e ∈ entries, e.1.utf8ByteSize ≤ maxLength := by
  apply (Codec.exact_string.pair Codec.exact_u32).list.congr
  intro entries
  constructor
  · rintro ⟨hlen, hentries⟩
    exact ⟨hlen, fun e he => (hentries e he).1⟩
  · rintro ⟨hlen, hnames⟩
    exact ⟨hlen, fun e he => ⟨hnames e he, trivial⟩⟩

theorem DebugInfo.exact_codec : DebugInfo.codec.Exact DebugInfo.WithinLimits := by
  have hlines := (Codec.exact_u32.pair Codec.exact_u32).list
  have hparts := (exact_namedOffsets.pair hlines).convert
    (fun d : DebugInfo => (d.labels, d.lines)) (fun p => ⟨p.1, p.2⟩)
    (fun _ => rfl) (fun _ _ => rfl)
  apply hparts.congr
  intro d
  constructor
  · rintro ⟨⟨hlabels, hnames⟩, hlines, -⟩
    exact ⟨hlabels, hnames, hlines⟩
  · rintro ⟨hlabels, hnames, hlines⟩
    exact ⟨⟨hlabels, hnames⟩, hlines, fun _ _ => ⟨trivial, trivial⟩⟩

namespace Script

theorem exact_codec : codec.Exact WithinLimits := by
  have htables := exact_namedOffsets.pair DebugInfo.exact_codec.option
  have hparts := (Codec.exact_bytes.pair htables).convert
    (fun s : Script => (s.code, s.methods, s.debug)) (fun p => ⟨p.1, p.2.1, p.2.2⟩)
    (fun _ => rfl) (fun _ _ => rfl)
  apply hparts.congr
  intro s
  constructor
  · rintro ⟨hcode, ⟨hmethods, hnames⟩, hdebug⟩
    exact ⟨hcode, hmethods, hnames, hdebug⟩
  · rintro ⟨hcode, hmethods, hnames, hdebug⟩
    exact ⟨hcode, ⟨hmethods, hnames⟩, hdebug⟩

/-! ## Section 3: Parts of a container -/

section Parts

variable {α β : Type} {d : Decoder α} {next : α → List UInt8 → Except FormatError β}

theorem readPart_eq_ok {input : List UInt8} {b : β} :
    readPart d input next = .ok b ↔ ∃ a rest, d input = (.ok a, rest) ∧ next a rest = .ok b := by
  unfold readPart
  constructor
  · intro h
    split at h
    · next a rest ha => exact ⟨a, rest, ha, h⟩
    · cases h
  · rintro ⟨a, rest, ha, hb⟩
    rw [ha]
    exact hb

/-- After an accepted part, reading goes on behind it. -/
theorem readPart_of_accepts {bytes : List UInt8} {a : α} (h : d.Accepts bytes a)
    (rest : List UInt8) : readPart d (bytes ++ rest) next = next a rest := by
  unfold readPart
  rw [h.reads]

/-- Input that ends inside an accepted part is malformed; else reading goes on with what
    it has behind that part. -/
theorem readPart_of_cut {bytes front back more : List UInt8} {a : α} (h : d.Accepts bytes a)
    (heq : front ++ back = bytes ++ more) :
    readPart d front next = .error (.malformed .endOfInput) ∨
      ∃ front', front' ++ back = more ∧ readPart d front next = next a front' := by
  rcases h.cut heq with hshort | ⟨front', rfl, hmore⟩
  · left
    unfold readPart
    split
    · next b rest hb =>
      rw [hb] at hshort
      cases hshort
    · next e rest he =>
      rw [he] at hshort
      cases hshort
      rfl
  · right
    exact ⟨front', hmore, readPart_of_accepts h front'⟩

end Parts

theorem accepts_magic : (Decoder.take magic.length).Accepts magic magic :=
  Decoder.accepts_take magic

theorem accepts_version : (Decoder.take version.length).Accepts version version :=
  Decoder.accepts_take version

theorem accepts_tag : Codec.bytes.decode.Accepts (Codec.bytes.encode tag) tag :=
  Codec.exact_bytes.accepts tag (by decide)

/-- What reading the container does once the header was found in order. -/
theorem ofBytes?_header (body : List UInt8) :
    ofBytes? (magic ++ (version ++ (Codec.bytes.encode tag ++ body))) =
      readPart codec.decode body fun s rest =>
        if rest.isEmpty then .ok s else .error .trailingBytes := by
  unfold ofBytes?
  rw [if_neg (by simp), readPart_of_accepts accepts_magic, if_neg (not_not_intro rfl),
    readPart_of_accepts accepts_version, if_neg (not_not_intro rfl),
    readPart_of_accepts accepts_tag, if_neg (not_not_intro rfl)]

theorem toBytes_eq (s : Script) :
    s.toBytes = magic ++ (version ++ (Codec.bytes.encode tag ++ codec.encode s)) := by
  unfold toBytes
  simp only [List.append_assoc]

/-! ## Section 4: What is read was written -/

/-- A script is read from its container only, and it is within the limits. -/
theorem eq_toBytes_of_ofBytes? {input : List UInt8} {s : Script} (h : ofBytes? input = .ok s) :
    input = s.toBytes ∧ s.WithinLimits := by
  unfold ofBytes? at h
  split at h
  · cases h
  · obtain ⟨m, behindMagic, hm, h₁⟩ := readPart_eq_ok.mp h
    split at h₁
    · cases h₁
    · next hmagic =>
      obtain ⟨v, behindVersion, hv, h₂⟩ := readPart_eq_ok.mp h₁
      split at h₂
      · cases h₂
      · next hversion =>
        obtain ⟨t, body, ht, h₃⟩ := readPart_eq_ok.mp h₂
        split at h₃
        · cases h₃
        · next htag =>
          obtain ⟨s', rest, hs, h₄⟩ := readPart_eq_ok.mp h₃
          split at h₄
          · next hrest =>
            cases h₄
            -- each part stands in front of the next, and nothing is left in the end
            obtain ⟨rfl, -⟩ := Decoder.eq_append_of_take hm
            obtain ⟨rfl, -⟩ := Decoder.eq_append_of_take hv
            obtain ⟨-, rfl⟩ := Codec.exact_bytes.canonical _ _ _ ht
            obtain ⟨hlimits, rfl⟩ := exact_codec.canonical _ _ _ hs
            rw [List.isEmpty_iff.mp hrest, List.append_nil, toBytes_eq,
              Decidable.not_not.mp hmagic, Decidable.not_not.mp hversion,
              Decidable.not_not.mp htag]
            exact ⟨rfl, hlimits⟩
          · cases h₄

/-- Behind the container of a script there may be nothing. -/
theorem ofBytes?_toBytes_append {s : Script} (hs : s.WithinLimits) (rest : List UInt8) :
    ofBytes? (s.toBytes ++ rest) = if rest.isEmpty then .ok s else .error .trailingBytes := by
  rw [toBytes_eq]
  simp only [List.append_assoc]
  rw [ofBytes?_header, readPart_of_accepts (exact_codec.accepts s hs)]

/-- A container that lacks its end is truncated or runs out inside a part. -/
theorem ofBytes?_of_cut {s : Script} (hs : s.WithinLimits) {front back : List UInt8}
    (heq : front ++ back = s.toBytes) (hback : back ≠ []) :
    ofBytes? front = .error .truncated ∨ ofBytes? front = .error (.malformed .endOfInput) := by
  rw [toBytes_eq] at heq
  unfold ofBytes?
  by_cases hshort : front.length < magic.length
  · left
    rw [if_pos hshort]
  · right
    rw [if_neg hshort]
    -- the end is missing from one of the four parts; those before it are in order
    rcases readPart_of_cut accepts_magic heq with h | ⟨front₁, heq₁, h⟩
    · exact h
    · rw [h, if_neg (not_not_intro rfl)]
      rcases readPart_of_cut accepts_version heq₁ with h | ⟨front₂, heq₂, h⟩
      · exact h
      · rw [h, if_neg (not_not_intro rfl)]
        rcases readPart_of_cut accepts_tag heq₂ with h | ⟨front₃, heq₃, h⟩
        · exact h
        · rw [h, if_neg (not_not_intro rfl)]
          have hout := (exact_codec.accepts s hs).runsOut front₃ back heq₃ hback
          unfold readPart
          split
          · next s' rest hs' =>
            rw [hs'] at hout
            cases hout
          · next e rest he =>
            rw [he] at hout
            cases hout
            rfl

/-! ## Section 5: Wrong headers -/

theorem ofBytes?_of_short {input : List UInt8} (h : input.length < magic.length) :
    ofBytes? input = .error .truncated := by
  unfold ofBytes?
  rw [if_pos h]

theorem ofBytes?_of_ne_magic {m : List UInt8} (hlen : m.length = magic.length) (hm : m ≠ magic)
    (rest : List UInt8) : ofBytes? (m ++ rest) = .error .badMagic := by
  have htake := Decoder.accepts_take m
  rw [hlen] at htake
  unfold ofBytes?
  rw [if_neg (by simp [hlen]), readPart_of_accepts htake, if_pos hm]

theorem ofBytes?_of_ne_version {v : List UInt8} (hlen : v.length = version.length)
    (hv : v ≠ version) (rest : List UInt8) :
    ofBytes? (magic ++ v ++ rest) = .error .unsupportedVersion := by
  have htake := Decoder.accepts_take v
  rw [hlen] at htake
  unfold ofBytes?
  rw [List.append_assoc, if_neg (by simp), readPart_of_accepts accepts_magic,
    if_neg (not_not_intro rfl), readPart_of_accepts htake, if_pos hv]

theorem ofBytes?_of_ne_tag {t : Array UInt8} (hlen : t.size ≤ maxLength) (ht : t ≠ tag)
    (rest : List UInt8) :
    ofBytes? (magic ++ version ++ Codec.bytes.encode t ++ rest) = .error .badTag := by
  unfold ofBytes?
  simp only [List.append_assoc]
  rw [if_neg (by simp), readPart_of_accepts accepts_magic, if_neg (not_not_intro rfl),
    readPart_of_accepts accepts_version, if_neg (not_not_intro rfl),
    readPart_of_accepts (Codec.exact_bytes.accepts t hlen), if_pos ht]

/-- **The container is canonical.** Bytes load as a script if and only if they are its
    container and the script is within the limits on lengths.  So writing and reading
    undo each other, and no script has two containers.  Containers that are cut short or go
    on behind the script, and those with another magic word, version or tag, are format
    errors. -/
theorem container_canonical :
    (∀ input s, ofBytes? input = .ok s ↔ input = s.toBytes ∧ s.WithinLimits) ∧
    (∀ s : Script, s.WithinLimits → ofBytes? s.toBytes = .ok s) ∧
    (∀ input input' s, ofBytes? input = .ok s → ofBytes? input' = .ok s → input = input') ∧
    (∀ s : Script, s.WithinLimits → ∀ front back, front ++ back = s.toBytes → back ≠ [] →
      ofBytes? front = .error .truncated ∨ ofBytes? front = .error (.malformed .endOfInput)) ∧
    (∀ s : Script, s.WithinLimits → ∀ rest, rest ≠ [] →
      ofBytes? (s.toBytes ++ rest) = .error .trailingBytes) ∧
    (∀ input, input.length < magic.length → ofBytes? input = .error .truncated) ∧
    (∀ m, m.length = magic.length → m ≠ magic →
      ∀ rest, ofBytes? (m ++ rest) = .error .badMagic) ∧
    (∀ v, v.length = version.length → v ≠ version →
      ∀ rest, ofBytes? (magic ++ v ++ rest) = .error .unsupportedVersion) ∧
    (∀ t : Array UInt8, t.size ≤ maxLength → t ≠ tag →
      ∀ rest, ofBytes? (magic ++ version ++ Codec.bytes.encode t ++ rest) = .error .badTag) := by
  have hreads : ∀ s : Script, s.WithinLimits → ofBytes? s.toBytes = .ok s := by
    intro s hs
    have h := ofBytes?_toBytes_append hs []
    rwa [List.append_nil] at h
  refine ⟨?_, hreads, ?_, ?_, ?_, ?_, ?_, ?_, ?_⟩
  · intro input s
    constructor
    · exact eq_toBytes_of_ofBytes?
    · rintro ⟨rfl, hs⟩
      exact hreads s hs
  · intro input input' s h h'
    rw [(eq_toBytes_of_ofBytes? h).1, (eq_toBytes_of_ofBytes? h').1]
  · intro s hs front back heq hback
    exact ofBytes?_of_cut hs heq hback
  · intro s hs rest hrest
    have hnonempty : rest.isEmpty = false := by simpa using hrest
    rw [ofBytes?_toBytes_append hs, hnonempty]
    rfl
  · intro input h
    exact ofBytes?_of_short h
  · intro m hlen hm rest
    exact ofBytes?_of_ne_magic hlen hm rest
  · intro v hlen hv rest
    exact ofBytes?_of_ne_version hlen hv rest
  · intro t hlen ht rest
    exact ofBytes?_of_ne_tag hlen ht rest

/-- The container of a script with a public method and debug information is read back,
    but not with a byte behind it, without its last byte, or with another version. -/
theorem transfer_container_canonical :
    let d : DebugInfo := ⟨[("transfer", 1)], [(0, 1), (1, 3)]⟩
    let s : Script := ⟨#[0x00, 0x14], [("transfer", 1)], some d⟩
    s.WithinLimits ∧ ofBytes? s.toBytes = .ok s ∧
      ofBytes? (s.toBytes ++ [0]) = .error .trailingBytes ∧
      (ofBytes? s.toBytes.dropLast = .error .truncated ∨
        ofBytes? s.toBytes.dropLast = .error (.malformed .endOfInput)) ∧
      ofBytes? (magic ++ [0, 9, 0] ++ s.toBytes.drop 8) = .error .unsupportedVersion := by
  intro d s
  have hname : "transfer".utf8ByteSize ≤ maxLength := by decide
  have hd : d.WithinLimits := by
    refine ⟨by decide, ?_, by decide⟩
    intro l hl
    cases List.mem_singleton.mp hl
    exact hname
  have hs : s.WithinLimits := by
    refine ⟨by decide, by decide, ?_, ?_⟩
    · intro m hm
      cases List.mem_singleton.mp hm
      exact hname
    · intro d' hd'
      cases Option.mem_some.mp hd'
      exact hd
  obtain ⟨hiff, -, -, hcut, htrailing, -, -, hversion, -⟩ := container_canonical
  refine ⟨hs, (hiff _ s).mpr ⟨rfl, hs⟩, htrailing s hs [0] (by simp), ?_, ?_⟩
  · have hne : s.toBytes ≠ [] := by
      rw [toBytes_eq]
      exact List.append_ne_nil_of_left_ne_nil (by decide) _
    exact hcut s hs _ [s.toBytes.getLast hne] (List.dropLast_concat_getLast hne) (by simp)
  · exact hversion [0, 9, 0] (by decide) (by decide) _

end Script

end ContractVM
