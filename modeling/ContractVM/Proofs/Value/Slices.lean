import ContractVM.Proofs.Codec.Exact
import ContractVM.Proofs.Result
import ContractVM.Value.Sequence

/-! # Slices of texts and bytes

    Texts and rows of bytes are cut and joined by their bytes.

    * **Bytes**: a text or a row of bytes is determined by its type and its bytes, so the laws of
      slices follow from those of arrays.
    * **Cuts**: rows of bytes are cut anywhere, texts where they fall into two texts.
    * **Halves**: where a value is cut, both halves exist, and joined they are the value again. -/

namespace ContractVM

/-! ## Section 1: Boundaries of characters -/

/-- The text falls into two texts, the first of which has this number of bytes. -/
def IsBoundary (s : String) (n : Nat) : Prop :=
  ∃ t u, s = t ++ u ∧ t.utf8ByteSize = n

variable {s t : String} {i j n : Nat}

theorem isBoundary_iff_isValid : IsBoundary s n ↔ (⟨n⟩ : String.Pos.Raw).IsValid s := by
  rw [String.Pos.Raw.isValid_iff_exists_append]
  constructor
  · rintro ⟨t, u, rfl, rfl⟩
    exact ⟨t, u, rfl, rfl⟩
  · rintro ⟨t, u, hs, hn⟩
    exact ⟨t, u, hs, congrArg String.Pos.Raw.byteIdx hn.symm⟩

theorem isBoundary_zero (s : String) : IsBoundary s 0 :=
  ⟨"", s, by simp, by simp⟩

theorem isBoundary_end (s : String) : IsBoundary s s.utf8ByteSize :=
  ⟨s, "", by simp, rfl⟩

/-- What stands between two boundaries is a text. -/
theorem exists_text_between (hfirst : IsBoundary s i) (hlast : IsBoundary s j) (hle : i ≤ j) :
    ∃ t : String, t.toUTF8 = s.toUTF8.extract i j := by
  have hend : j ≤ s.utf8ByteSize := by
    obtain ⟨t, u, rfl, rfl⟩ := hlast
    simp [String.utf8ByteSize_append]
  have hvalid : (s.toUTF8.extract i j).IsValidUTF8 := by
    refine (String.Pos.Raw.isValidUTF8_extract_iff ⟨i⟩ ⟨j⟩ hle hend).mpr (.inr ?_)
    exact ⟨isBoundary_iff_isValid.mp hfirst, isBoundary_iff_isValid.mp hlast⟩
  exact ⟨String.fromUTF8 _ hvalid, rfl⟩

/-- A text is cut at boundaries only, and the part has the bytes between them. -/
theorem sliceText?_eq_some_iff :
    sliceText? s i j = some t ↔
      IsBoundary s i ∧ IsBoundary s j ∧ t.toUTF8 = s.toUTF8.extract i j := by
  have hbytes : (⟨s.toUTF8.data.extract i j⟩ : ByteArray) = s.toUTF8.extract i j :=
    ByteArray.ext ByteArray.data_extract.symm
  unfold sliceText?
  rw [isBoundary_iff_isValid, isBoundary_iff_isValid, ← String.Pos.Raw.isValid_eq_true_iff,
    ← String.Pos.Raw.isValid_eq_true_iff, hbytes]
  by_cases hcut : ((⟨i⟩ : String.Pos.Raw).isValid s && (⟨j⟩ : String.Pos.Raw).isValid s) = true
  · rw [if_pos hcut, Codec.fromUTF8?_eq_some_iff]
    simp [Bool.and_eq_true_iff.mp hcut]
  · rw [if_neg hcut]
    simp only [reduceCtorEq, false_iff]
    rintro ⟨hfirst, hlast, -⟩
    exact hcut (Bool.and_eq_true_iff.mpr ⟨hfirst, hlast⟩)

namespace Value

/-! ## Section 2: Values and their bytes -/

variable {v w x : Value} {bs cs ds : Array UInt8} {instruction : String}

/-- The value is a text or a row of bytes, and these are its bytes. -/
def HasBytes (v : Value) (bs : Array UInt8) : Prop :=
  ∀ instruction, v.asBytes instruction = .ok bs

/-- Does the value fall into two parts at this number of bytes?  Bytes always do. -/
def CutsAt (v : Value) (n : Nat) : Prop :=
  ∀ s, v = .string s → IsBoundary s n

theorem hasBytes_iff : v.HasBytes bs ↔ v = .bytes bs ∨ ∃ s, v = .string s ∧ s.toUTF8.data = bs := by
  unfold HasBytes
  cases v with
  | bytes cs => simp [asBytes]
  | string s => simp [asBytes]
  | none | bool | number | timestamp | struct | enum | object => simp [asBytes]

theorem HasBytes.size_eq (h : v.HasBytes bs) : v.size instruction = .ok bs.size := by
  rcases hasBytes_iff.mp h with rfl | ⟨s, rfl, rfl⟩
  · rfl
  · rfl

/-- Texts and rows of bytes have no other types. -/
theorem HasBytes.type_eq (h : v.HasBytes bs) : v.type = .bytes ∨ v.type = .string := by
  rcases hasBytes_iff.mp h with rfl | ⟨s, rfl, -⟩
  · exact .inl rfl
  · exact .inr rfl

/-- Texts and bytes are determined by their type and their bytes. -/
theorem eq_of_hasBytes (hv : v.HasBytes bs) (hw : w.HasBytes bs) (htype : v.type = w.type) :
    v = w := by
  rcases hasBytes_iff.mp hv with rfl | ⟨s, rfl, hs⟩
  · rcases hasBytes_iff.mp hw with rfl | ⟨t, rfl, ht⟩
    · rfl
    · simp [type] at htype
  · rcases hasBytes_iff.mp hw with rfl | ⟨t, rfl, ht⟩
    · simp [type] at htype
    · have hst : s.toUTF8 = t.toUTF8 := ByteArray.ext (hs.trans ht.symm)
      rw [String.toByteArray_inj.mp hst]

theorem cutsAt_string : (string s).CutsAt n ↔ IsBoundary s n := by
  simp [CutsAt]

theorem cutsAt_zero (v : Value) : v.CutsAt 0 :=
  fun s _ => isBoundary_zero s

theorem cutsAt_end (h : v.HasBytes bs) : v.CutsAt bs.size := by
  rintro s rfl
  obtain rfl : s.toUTF8.data = bs := Except.ok.inj (h "")
  exact isBoundary_end s

/-! ## Section 3: Ranges -/

/-- A range of bytes is where it says, if that is inside. -/
theorem range_bytes_eq_ok_iff :
    (bytes bs).range i n instruction = .ok w ↔
      i + n < UInt64.size ∧ i + n ≤ bs.size ∧ w = bytes (bs.extract i (i + n)) := by
  unfold range
  by_cases hword : UInt64.size ≤ i + n
  · simp [hword, Nat.not_lt.mpr hword]
  rw [if_neg hword, Except.bind_eq_ok]
  by_cases hbeyond : bs.size < i + n
  · simp [size, hbeyond, Nat.not_le.mpr hbeyond]
  · simp [size, hbeyond, Nat.not_lt.mp hbeyond, Nat.not_le.mp hword, eq_comm]

/-- A range of a text has to be a text, too. -/
theorem range_string_eq_ok_iff :
    (string s).range i n instruction = .ok w ↔
      i + n < UInt64.size ∧ i + n ≤ s.utf8ByteSize ∧
        ∃ t, sliceText? s i (i + n) = some t ∧ w = string t := by
  unfold range
  by_cases hword : UInt64.size ≤ i + n
  · simp [hword, Nat.not_lt.mpr hword]
  rw [if_neg hword, Except.bind_eq_ok]
  by_cases hbeyond : s.utf8ByteSize < i + n
  · simp [size, hbeyond, Nat.not_le.mpr hbeyond]
  · cases hpart : sliceText? s i (i + n) with
    | none => simp [size, hbeyond, hpart]
    | some part => simp [size, hbeyond, hpart, Nat.not_lt.mp hbeyond, Nat.not_le.mp hword, eq_comm]

/-- A text whose bytes stand somewhere in another one. -/
theorem hasBytes_of_between (ht : t.toUTF8 = s.toUTF8.extract i n) :
    (string t).HasBytes (s.toUTF8.data.extract i n) := by
  intro instruction
  show Except.ok t.toUTF8.data = _
  rw [ht, ByteArray.data_extract]

/-- A range is the part of the value that lies between two cuts. -/
theorem range_eq_ok_iff (hbs : v.HasBytes bs) :
    v.range i n instruction = .ok w ↔
      i + n < UInt64.size ∧ i + n ≤ bs.size ∧ v.CutsAt i ∧ v.CutsAt (i + n) ∧
        w.type = v.type ∧ w.HasBytes (bs.extract i (i + n)) := by
  rcases hasBytes_iff.mp hbs with rfl | ⟨s, rfl, rfl⟩
  · -- bytes are cut anywhere
    rw [range_bytes_eq_ok_iff]
    constructor
    · rintro ⟨hword, hin, rfl⟩
      exact ⟨hword, hin, nofun, nofun, rfl, fun _ => rfl⟩
    · rintro ⟨hword, hin, -, -, htype, hw⟩
      exact ⟨hword, hin, eq_of_hasBytes hw (fun _ => rfl) htype⟩
  · -- the bytes between two boundaries are those of one text only
    rw [range_string_eq_ok_iff, cutsAt_string, cutsAt_string]
    constructor
    · rintro ⟨hword, hin, t, hpart, rfl⟩
      obtain ⟨hfirst, hlast, ht⟩ := sliceText?_eq_some_iff.mp hpart
      exact ⟨hword, hin, hfirst, hlast, rfl, hasBytes_of_between ht⟩
    · rintro ⟨hword, hin, hfirst, hlast, htype, hw⟩
      obtain ⟨t, ht⟩ := exists_text_between hfirst hlast (Nat.le_add_right i n)
      exact ⟨hword, hin, t, sliceText?_eq_some_iff.mpr ⟨hfirst, hlast, ht⟩,
        eq_of_hasBytes hw (hasBytes_of_between ht) htype⟩

/-- There is a range wherever its ends are cuts inside the value. -/
theorem exists_range_iff (hbs : v.HasBytes bs) :
    (∃ w, v.range i n instruction = .ok w) ↔
      i + n < UInt64.size ∧ i + n ≤ bs.size ∧ v.CutsAt i ∧ v.CutsAt (i + n) := by
  constructor
  · rintro ⟨w, h⟩
    obtain ⟨hword, hin, hfirst, hlast, -⟩ := (range_eq_ok_iff hbs).mp h
    exact ⟨hword, hin, hfirst, hlast⟩
  · rintro ⟨hword, hin, hfirst, hlast⟩
    obtain ⟨w, htype, hbytes⟩ :
        ∃ w : Value, w.type = v.type ∧ w.HasBytes (bs.extract i (i + n)) := by
      rcases hasBytes_iff.mp hbs with rfl | ⟨s, rfl, rfl⟩
      · exact ⟨bytes (bs.extract i (i + n)), rfl, fun _ => rfl⟩
      · obtain ⟨t, ht⟩ := exists_text_between (cutsAt_string.mp hfirst) (cutsAt_string.mp hlast)
          (Nat.le_add_right i n)
        exact ⟨string t, rfl, hasBytes_of_between ht⟩
    exact ⟨w, (range_eq_ok_iff hbs).mpr ⟨hword, hin, hfirst, hlast, htype, hbytes⟩⟩

/-! ## Section 4: Halves -/

/-- The first bytes are a range that starts at the start. -/
theorem exists_left_iff (hbs : v.HasBytes bs) (hsize : bs.size < UInt64.size)
    (hn : n ≤ bs.size) : (∃ w, v.left n instruction = .ok w) ↔ v.CutsAt n := by
  unfold left
  rw [exists_range_iff hbs, Nat.zero_add]
  constructor
  · rintro ⟨-, -, -, hcut⟩
    exact hcut
  · intro hcut
    exact ⟨by omega, hn, cutsAt_zero v, hcut⟩

/-- The last bytes are a range that ends at the end. -/
theorem right_eq_range (hbs : v.HasBytes bs) (hn : n ≤ bs.size) :
    v.right (bs.size - n) instruction = v.range n (bs.size - n) instruction := by
  have hinside : ¬bs.size < bs.size - n := by omega
  have hstart : bs.size - (bs.size - n) = n := by omega
  unfold right
  rw [hbs.size_eq]
  show (if _ then _ else v.range (bs.size - (bs.size - n)) _ _) = _
  rw [if_neg hinside, hstart]

theorem exists_right_iff (hbs : v.HasBytes bs) (hsize : bs.size < UInt64.size)
    (hn : n ≤ bs.size) : (∃ w, v.right (bs.size - n) instruction = .ok w) ↔ v.CutsAt n := by
  have hend : n + (bs.size - n) = bs.size := by omega
  rw [right_eq_range hbs hn, exists_range_iff hbs, hend]
  constructor
  · rintro ⟨-, -, hcut, -⟩
    exact hcut
  · intro hcut
    exact ⟨hsize, Nat.le_refl _, hcut, cutsAt_end hbs⟩

/-! ## Section 5: Joining -/

/-- Any two texts or rows of bytes can be joined.  The bytes of both stand in a row, as a text if
    both are texts. -/
theorem exists_cat (hv : v.HasBytes bs) (hw : w.HasBytes cs) :
    ∃ x, v.cat w instruction = .ok x ∧ x.HasBytes (bs ++ cs) ∧
      x.type = if v.type = .bytes ∨ w.type = .bytes then .bytes else .string := by
  have happend (s t : String) : (s ++ t).toUTF8.data = s.toUTF8.data ++ t.toUTF8.data := by
    show (s ++ t).toByteArray.data = _
    rw [String.toByteArray_append, ByteArray.data_append]
    rfl
  rcases hasBytes_iff.mp hv with rfl | ⟨s, rfl, rfl⟩
  · rcases hasBytes_iff.mp hw with rfl | ⟨t, rfl, rfl⟩
    · exact ⟨_, rfl, fun _ => rfl, rfl⟩
    · exact ⟨_, rfl, fun _ => rfl, rfl⟩
  · rcases hasBytes_iff.mp hw with rfl | ⟨t, rfl, rfl⟩
    · exact ⟨_, rfl, fun _ => rfl, rfl⟩
    · exact ⟨_, rfl, fun _ => congrArg Except.ok (happend s t), rfl⟩

/-- Joining again the halves of a value gives the value. -/
theorem cat_halves {onLeft onRight : String} (hbs : v.HasBytes bs) (hn : n ≤ bs.size)
    (hleft : v.left n onLeft = .ok w) (hright : v.right (bs.size - n) onRight = .ok x) :
    w.cat x instruction = .ok v := by
  rw [right_eq_range hbs hn] at hright
  obtain ⟨-, -, -, -, hwtype, hw⟩ := (range_eq_ok_iff hbs).mp hleft
  obtain ⟨-, -, -, -, hxtype, hx⟩ := (range_eq_ok_iff hbs).mp hright
  obtain ⟨y, hy, hybytes, hytype⟩ := exists_cat hw hx
  have hend : n + (bs.size - n) = bs.size := by omega
  have hall : bs.extract 0 (0 + n) ++ bs.extract n (n + (bs.size - n)) = bs := by
    rw [hend, Nat.zero_add, Array.extract_append_extract]
    simp [hn]
  rw [hall] at hybytes
  rw [hy, eq_of_hasBytes hybytes hbs]
  rw [hytype, hwtype, hxtype]
  rcases hbs.type_eq with htype | htype
  · simp [htype]
  · simp [htype]

/-- Joining three values, it makes no difference which two are joined first. -/
theorem cat_assoc (hv : v.HasBytes bs) (hw : w.HasBytes cs) (hx : x.HasBytes ds) :
    (v.cat w instruction >>= fun y => y.cat x instruction) =
      (w.cat x instruction >>= fun y => v.cat y instruction) := by
  obtain ⟨vw, hvw, hvwbytes, hvwtype⟩ := exists_cat hv hw
  obtain ⟨wx, hwx, hwxbytes, hwxtype⟩ := exists_cat hw hx
  obtain ⟨y, hy, hybytes, hytype⟩ := exists_cat hvwbytes hx
  obtain ⟨z, hz, hzbytes, hztype⟩ := exists_cat hv hwxbytes
  rw [hvw, hwx]
  show vw.cat x instruction = v.cat wx instruction
  -- both have the same bytes, and are bytes as soon as one of the three is
  rw [hy, hz, eq_of_hasBytes hybytes (Array.append_assoc ▸ hzbytes)]
  rw [hytype, hztype, hvwtype, hwxtype]
  by_cases hvbytes : v.type = .bytes
  · simp [hvbytes]
  · by_cases hwb : w.type = .bytes
    · simp [hwb]
    · simp [hvbytes, hwb]

theorem cat_none (hv : v.HasBytes bs) :
    Value.none.cat v instruction = .ok v ∧ v.cat .none instruction = .ok v := by
  rcases hasBytes_iff.mp hv with rfl | ⟨s, rfl, -⟩
  · exact ⟨rfl, rfl⟩
  · exact ⟨rfl, rfl⟩

/-- **Parts and joins.**  Let `v` be a text or a row of bytes.  It has a range if and only if the
    end of the range fits 64 bits and is inside, and the value can be cut at both ends; the range
    has the type of `v` and the bytes between them.  Where the first half exists, so does the second
    one, and joined they are `v` again; the bound is the one of sizes on a machine of 64 bits.
    Joining puts bytes in a row, gives bytes if one of the parts is bytes and otherwise a text, adds
    sizes, is associative and leaves `v` as it is if the other part is none. -/
theorem parts_and_joins_follow_the_bytes (hv : v.HasBytes bs) :
    (∀ i n instruction, (∃ w, v.range i n instruction = .ok w) ↔
      i + n < UInt64.size ∧ i + n ≤ bs.size ∧ v.CutsAt i ∧ v.CutsAt (i + n)) ∧
    (∀ i n instruction w, v.range i n instruction = .ok w →
      w.type = v.type ∧ w.HasBytes (bs.extract i (i + n))) ∧
    (bs.size < UInt64.size → ∀ n, n ≤ bs.size →
      (∀ instruction, (∃ w, v.left n instruction = .ok w) ↔ v.CutsAt n) ∧
      (∀ instruction, (∃ x, v.right (bs.size - n) instruction = .ok x) ↔ v.CutsAt n) ∧
      (∀ onLeft onRight instruction w x, v.left n onLeft = .ok w →
        v.right (bs.size - n) onRight = .ok x → w.cat x instruction = .ok v)) ∧
    (∀ instruction, v.size instruction = .ok bs.size) ∧
    (∀ w cs instruction, w.HasBytes cs → ∃ x, v.cat w instruction = .ok x ∧
      x.HasBytes (bs ++ cs) ∧ (x.type = .bytes ↔ v.type = .bytes ∨ w.type = .bytes) ∧
      x.size instruction = .ok (bs.size + cs.size)) ∧
    (∀ w x cs ds instruction, w.HasBytes cs → x.HasBytes ds →
      (v.cat w instruction >>= fun y => y.cat x instruction) =
        (w.cat x instruction >>= fun y => v.cat y instruction)) ∧
    (∀ instruction, Value.none.cat v instruction = .ok v ∧ v.cat .none instruction = .ok v) := by
  refine ⟨fun i n _ => exists_range_iff hv, fun i n _ w hrange => ?_, fun hsize n hn => ?_,
    fun _ => hv.size_eq, fun w cs _ hw => ?_, fun w x cs ds _ => cat_assoc hv, fun _ => cat_none hv⟩
  · obtain ⟨-, -, -, -, htype, hbytes⟩ := (range_eq_ok_iff hv).mp hrange
    exact ⟨htype, hbytes⟩
  · exact ⟨fun _ => exists_left_iff hv hsize hn, fun _ => exists_right_iff hv hsize hn,
      fun _ _ _ _ _ => cat_halves hv hn⟩
  · obtain ⟨x, hx, hbytes, htype⟩ := exists_cat hv hw
    refine ⟨x, hx, hbytes, ?_, ?_⟩
    · rw [htype]
      by_cases hsome : v.type = .bytes ∨ w.type = .bytes
      · simp [hsome]
      · simp [hsome]
    · rw [hbytes.size_eq, Array.size_append]

/-- The accented letter has two bytes, and there is no cut between them. -/
theorem accented_text_is_cut_around_the_accent :
    (∃ w x, (string "héllo").left 3 "LEFT" = .ok w ∧ (string "héllo").right 3 "RIGHT" = .ok x ∧
      w.cat x "CAT" = .ok (string "héllo")) ∧
    (¬∃ w, (string "héllo").left 2 "LEFT" = .ok w) ∧
    (¬∃ x, (string "héllo").right 4 "RIGHT" = .ok x) := by
  have hsize : "héllo".toUTF8.data.size = 6 := by decide +kernel
  have hbytes : (string "héllo").HasBytes "héllo".toUTF8.data := fun _ => rfl
  obtain ⟨-, -, hhalves, -⟩ := parts_and_joins_follow_the_bytes hbytes
  rw [hsize] at hhalves
  have hafter : (string "héllo").CutsAt 3 := cutsAt_string.mpr ⟨"hé", "llo", rfl, rfl⟩
  have hinside : ¬(string "héllo").CutsAt 2 := by
    rw [cutsAt_string, isBoundary_iff_isValid, ← String.Pos.Raw.isValid_eq_true_iff]
    decide +kernel
  obtain ⟨hleft, hright, hcat⟩ := hhalves (by decide) 3 (by omega)
  obtain ⟨hleft', hright', -⟩ := hhalves (by decide) 2 (by omega)
  obtain ⟨w, hw⟩ := (hleft "LEFT").mpr hafter
  obtain ⟨x, hx⟩ := (hright "RIGHT").mpr hafter
  exact ⟨⟨w, x, hw, hx, hcat _ _ _ w x hw hx⟩, mt (hleft' _).mp hinside, mt (hright' _).mp hinside⟩

end Value

end ContractVM
