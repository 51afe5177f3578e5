import ContractVM.Codec.Codec

/-! # Exact codecs

    What is written is read back, and nothing else is read:

    * **Accepted bytes**: `Decoder.Accepts d bytes a` says that `d` reads `a` from exactly
      `bytes`, whatever follows them, and that it runs out of input when they are cut short.
    * **Exactness**: `Codec.Exact c P` says that the written forms of the values with the
      property `P` are accepted, and that a value is read from its written form only.
    * **Combinators** keep exactness, so it follows the shape of a format. -/

namespace ContractVM

/-! ## Section 1: Accepted bytes -/

namespace Decoder

variable {α β : Type}

/-- The decoder reads `a` from the bytes and leaves what follows them; on a part of the
    bytes that lacks the end, it runs out of input. -/
structure Accepts (d : Decoder α) (bytes : List UInt8) (a : α) : Prop where
  reads : ∀ rest, d (bytes ++ rest) = (.ok a, rest)
  runsOut : ∀ front back, front ++ back = bytes → back ≠ [] → (d front).1 = .error .endOfInput

/-- Two decoders in a row have a result if both have one. -/
theorem bind_eq_ok {d : Decoder α} {f : α → Decoder β} {input rest : List UInt8} {b : β} :
    (d >>= f) input = (.ok b, rest) ↔
      ∃ a middle, d input = (.ok a, middle) ∧ f a middle = (.ok b, rest) := by
  rw [bind_apply]
  constructor
  · intro h
    split at h
    · next a middle ha => exact ⟨a, middle, ha, h⟩
    · cases h
  · rintro ⟨a, middle, ha, hb⟩
    rw [ha]
    exact hb

theorem accepts_pure (a : α) : (pure a : Decoder α).Accepts [] a where
  reads _ := rfl
  runsOut _ _ h hback := absurd (List.append_eq_nil_iff.mp h).2 hback

/-- Input that ends before the end of accepted bytes and more either ends inside them, or
    it consists of them and a part of the rest. -/
theorem Accepts.cut {d : Decoder α} {bytes : List UInt8} {a : α} (h : d.Accepts bytes a)
    {front back more : List UInt8} (heq : front ++ back = bytes ++ more) :
    (d front).1 = .error .endOfInput ∨
      ∃ front', front = bytes ++ front' ∧ front' ++ back = more := by
  rcases List.append_eq_append_iff.mp heq with ⟨missing, hbytes, hmore⟩ | ⟨front', hfront, hmore⟩
  · by_cases hmissing : missing = []
    · subst hmissing
      right
      refine ⟨[], ?_, ?_⟩
      · simp [hbytes]
      · simpa using hmore
    · left
      exact h.runsOut front missing hbytes.symm hmissing
  · right
    exact ⟨front', hfront, hmore.symm⟩

/-- A decoder chosen from what the first one read goes on behind it. -/
theorem Accepts.bind {d : Decoder α} {f : α → Decoder β} {bs cs : List UInt8} {a : α} {b : β}
    (hd : d.Accepts bs a) (hf : (f a).Accepts cs b) : (d >>= f).Accepts (bs ++ cs) b where
  reads rest := by
    rw [List.append_assoc, bind_apply, hd.reads]
    exact hf.reads rest
  runsOut front back heq hback := by
    rw [bind_apply]
    rcases hd.cut heq with hshort | ⟨front', rfl, hrest⟩
    · split
      · next a' rest ha =>
        rw [ha] at hshort
        cases hshort
      · next e rest he =>
        rw [he] at hshort
        cases hshort
        rfl
    · rw [hd.reads]
      exact hf.runsOut front' back hrest hback

/-- What follows may be a choice that reads nothing more. -/
theorem Accepts.choice {d : Decoder α} {f : α → Decoder β} {bs : List UInt8} {a : α} {b : β}
    (hd : d.Accepts bs a) (hf : (f a).Accepts [] b) : (d >>= f).Accepts bs b := by
  have h := hd.bind hf
  rwa [List.append_nil] at h

/-- A row of bytes is taken whole or not at all. -/
theorem accepts_take (bs : List UInt8) : (take bs.length).Accepts bs bs where
  reads rest := by
    unfold take
    rw [splitExact?_append]
  runsOut front back heq hback := by
    have hshort : front.length < bs.length := by
      have hpos := List.length_pos_iff.mpr hback
      rw [← heq, List.length_append]
      omega
    unfold take
    rw [splitExact?_eq_none_iff.mpr hshort]

/-- What was taken is what the input starts with. -/
theorem eq_append_of_take {n : Nat} {input bs rest : List UInt8}
    (h : take n input = (.ok bs, rest)) : input = bs ++ rest ∧ bs.length = n := by
  unfold take at h
  split at h
  · next front back hsplit =>
    cases h
    exact eq_append_of_splitExact? hsplit
  · cases h

/-- Values are read one after another; `done` holds those read before, the last first. -/
theorem accepts_many {d : Decoder α} {write : α → List UInt8} (as done : List α)
    (h : ∀ a ∈ as, d.Accepts (write a) a) :
    (many d as.length done).Accepts (as.flatMap write) (done.reverse ++ as) := by
  induction as generalizing done with
  | nil =>
    rw [List.append_nil]
    exact accepts_pure done.reverse
  | cons a as ih =>
    have hfirst : d.Accepts (write a) a := h a List.mem_cons_self
    have hrest := ih (a :: done) fun b hb => h b (List.mem_cons_of_mem a hb)
    rw [List.reverse_cons, List.append_assoc] at hrest
    exact hfirst.bind hrest

/-- The values that were read are those whose written forms the input starts with. -/
theorem eq_append_of_many {d : Decoder α} {write : α → List UInt8} {P : α → Prop}
    (h : ∀ input a rest, d input = (.ok a, rest) → P a ∧ input = write a ++ rest)
    {n : Nat} {done as : List α} {input rest : List UInt8}
    (hmany : many d n done input = (.ok as, rest)) :
    ∃ new, as = done.reverse ++ new ∧ new.length = n ∧ (∀ a ∈ new, P a) ∧
      input = new.flatMap write ++ rest := by
  induction n generalizing done input with
  | zero =>
    cases hmany
    exact ⟨[], by simp⟩
  | succ n ih =>
    obtain ⟨a, middle, hfirst, hrest⟩ := bind_eq_ok.mp hmany
    obtain ⟨hpa, rfl⟩ := h input a middle hfirst
    obtain ⟨new, rfl, hlen, hp, rfl⟩ := ih hrest
    refine ⟨a :: new, ?_, ?_, ?_, ?_⟩
    · simp
    · rw [List.length_cons, hlen]
    · intro b hb
      rcases List.mem_cons.mp hb with rfl | hb
      · exact hpa
      · exact hp b hb
    · rw [List.flatMap_cons, List.append_assoc]

end Decoder

/-! ## Section 2: Exactness -/

namespace Codec

variable {α β : Type}

/-- The codec writes and reads exactly the values with the property: written forms are
    accepted, and what is read has the property and was written. -/
structure Exact (c : Codec α) (P : α → Prop) : Prop where
  accepts : ∀ a, P a → c.decode.Accepts (c.encode a) a
  canonical : ∀ input a rest, c.decode input = (.ok a, rest) → P a ∧ input = c.encode a ++ rest

variable {c : Codec α} {d : Codec β} {P Q : α → Prop} {R : β → Prop}

theorem Exact.congr (h : c.Exact P) (hiff : ∀ a, P a ↔ Q a) : c.Exact Q := by
  have hPQ : P = Q := funext fun a => propext (hiff a)
  rwa [← hPQ]

/-- Conversions that undo each other, back from the values that are read, keep exactness. -/
theorem Exact.convert (h : c.Exact P) (into : β → α) (back : α → β)
    (hback : ∀ b, back (into b) = b) (hinto : ∀ a, P a → into (back a) = a) :
    (c.convert into back).Exact fun b => P (into b) where
  accepts b hb := by
    have hpure := Decoder.accepts_pure (back (into b))
    have hread := (h.accepts (into b) hb).choice (f := fun a => pure (back a)) hpure
    rwa [hback] at hread
  canonical input b rest hread := by
    obtain ⟨a, middle, ha, hb⟩ := Decoder.bind_eq_ok.mp hread
    cases hb
    obtain ⟨hPa, rfl⟩ := h.canonical input a rest ha
    show P (into (back a)) ∧ _ = c.encode (into (back a)) ++ rest
    rw [hinto a hPa]
    exact ⟨hPa, rfl⟩

/-- A word holds the numbers that fit its width. -/
theorem exact_word (width : Nat) : (word width).Exact (· < LittleEndian.capacity width) where
  accepts n hn := by
    have htake := Decoder.accepts_take (LittleEndian.bytes width n)
    rw [LittleEndian.length_bytes] at htake
    have hpure := Decoder.accepts_pure (LittleEndian.value (LittleEndian.bytes width n))
    have hread := htake.choice (f := fun bs => pure (LittleEndian.value bs)) hpure
    rwa [LittleEndian.value_bytes hn] at hread
  canonical input n rest hread := by
    obtain ⟨bs, middle, htake, hvalue⟩ := Decoder.bind_eq_ok.mp hread
    cases hvalue
    obtain ⟨rfl, rfl⟩ := Decoder.eq_append_of_take htake
    constructor
    · exact LittleEndian.value_lt bs
    · show bs ++ rest = LittleEndian.bytes bs.length (LittleEndian.value bs) ++ rest
      rw [LittleEndian.bytes_value]

/-- A type whose values are just the numbers of a width is exact as a whole. -/
theorem exact_unsigned {width : Nat} {into : β → Nat} {back : Nat → β}
    (hback : ∀ b, back (into b) = b)
    (hinto : ∀ n, n < LittleEndian.capacity width → into (back n) = n)
    (hfits : ∀ b, into b < LittleEndian.capacity width) :
    ((word width).convert into back).Exact fun _ => True := by
  apply ((exact_word width).convert into back hback hinto).congr
  intro b
  simp [hfits b]

theorem exact_u8 : u8.Exact fun _ => True :=
  exact_unsigned (fun _ => UInt8.ofNat_toNat) (fun _ hn => UInt8.toNat_ofNat_of_lt hn)
    fun b => b.toNat_lt

theorem exact_u16 : u16.Exact fun _ => True :=
  exact_unsigned (fun _ => UInt16.ofNat_toNat) (fun _ hn => UInt16.toNat_ofNat_of_lt hn)
    fun n => n.toNat_lt

theorem exact_u32 : u32.Exact fun _ => True :=
  exact_unsigned (fun _ => UInt32.ofNat_toNat) (fun _ hn => UInt32.toNat_ofNat_of_lt hn)
    fun n => n.toNat_lt

theorem exact_u64 : u64.Exact fun _ => True :=
  exact_unsigned (fun _ => UInt64.ofNat_toNat) (fun _ hn => UInt64.toNat_ofNat_of_lt hn)
    fun n => n.toNat_lt

/-- A signed word is exact, because each unsigned word has its bits. -/
theorem exact_i64 : i64.Exact fun _ => True :=
  exact_u64.convert _ _ (fun n => by simp) fun n _ => by simp

/-- Of all bytes, only 0 and 1 are Booleans. -/
theorem exact_bool : bool.Exact fun _ => True where
  accepts b _ := by
    cases b with
    | false => exact (exact_u8.accepts 0 trivial).choice (Decoder.accepts_pure false)
    | true => exact (exact_u8.accepts 1 trivial).choice (Decoder.accepts_pure true)
  canonical input b rest hread := by
    obtain ⟨byte, middle, hbyte, hchoice⟩ := Decoder.bind_eq_ok.mp hread
    obtain ⟨-, rfl⟩ := exact_u8.canonical input byte middle hbyte
    by_cases hzero : byte = 0
    · rw [if_pos hzero] at hchoice
      cases hchoice
      exact ⟨trivial, by rw [hzero]; rfl⟩
    · by_cases hone : byte = 1
      · rw [if_neg hzero, if_pos hone] at hchoice
        cases hchoice
        exact ⟨trivial, by rw [hone]; rfl⟩
      · rw [if_neg hzero, if_neg hone] at hchoice
        cases hchoice

/-- Lengths are read up to the limit. -/
theorem exact_length : length.Exact (· ≤ maxLength) where
  accepts n hn := by
    have hfits : n < LittleEndian.capacity 8 := Nat.lt_of_le_of_lt hn (by decide)
    apply ((exact_word 8).accepts n hfits).choice
    rw [if_neg (Nat.not_lt.mpr hn)]
    exact Decoder.accepts_pure n
  canonical input n rest hread := by
    obtain ⟨m, middle, hword, hcheck⟩ := Decoder.bind_eq_ok.mp hread
    by_cases hm : maxLength < m
    · rw [if_pos hm] at hcheck
      cases hcheck
    · rw [if_neg hm] at hcheck
      cases hcheck
      exact ⟨Nat.not_lt.mp hm, ((exact_word 8).canonical input n rest hword).2⟩

/-! ## Section 3: Combinators -/

/-- Of lists, those of limited length are exact if their elements are. -/
theorem Exact.list (h : c.Exact P) :
    c.list.Exact fun as => as.length ≤ maxLength ∧ ∀ a ∈ as, P a where
  accepts as := by
    rintro ⟨hlen, has⟩
    have hmany := Decoder.accepts_many as [] fun a ha => h.accepts a (has a ha)
    exact (exact_length.accepts as.length hlen).bind hmany
  canonical input as rest hread := by
    obtain ⟨n, middle, hlength, hmany⟩ := Decoder.bind_eq_ok.mp hread
    obtain ⟨hn, rfl⟩ := exact_length.canonical input n middle hlength
    obtain ⟨new, heq, rfl, hnew, rfl⟩ := Decoder.eq_append_of_many h.canonical hmany
    rw [List.reverse_nil, List.nil_append] at heq
    subst heq
    refine ⟨⟨hn, hnew⟩, ?_⟩
    show length.encode as.length ++ (as.flatMap c.encode ++ rest) =
      length.encode as.length ++ as.flatMap c.encode ++ rest
    rw [List.append_assoc]

theorem exact_bytes : bytes.Exact fun bs => bs.size ≤ maxLength := by
  have h : bytes.Exact fun bs => bs.toList.length ≤ maxLength ∧ ∀ b ∈ bs.toList, True := by
    apply exact_u8.list.convert
    · intro bs
      exact Array.toArray_toList
    · intro bs _
      rfl
  apply h.congr
  intro bs
  rw [Array.length_toList]
  exact ⟨fun hbs => hbs.1, fun hbs => ⟨hbs, fun _ _ => trivial⟩⟩

/-- Bytes are the UTF-8 form of a text if and only if this form consists of them. -/
theorem fromUTF8?_eq_some_iff {bs : ByteArray} {s : String} :
    String.fromUTF8? bs = some s ↔ s.toUTF8 = bs := by
  constructor
  · intro h
    simp only [String.fromUTF8?] at h
    split at h
    · cases h
      rfl
    · cases h
  · rintro rfl
    have hvalid : s.toUTF8.IsValidUTF8 := s.isValidUTF8
    simp only [String.fromUTF8?, hvalid, dite_true]
    rfl

theorem exact_string : string.Exact fun s => s.utf8ByteSize ≤ maxLength where
  accepts s hs := by
    have htake := Decoder.accepts_take s.toUTF8.data.toList
    have hsize : s.toUTF8.data.toList.length = s.utf8ByteSize := Array.length_toList
    rw [hsize] at htake
    apply (exact_length.accepts s.utf8ByteSize hs).bind
    apply htake.choice
    rw [Array.toArray_toList, fromUTF8?_eq_some_iff.mpr rfl]
    exact Decoder.accepts_pure s
  canonical input s rest hread := by
    obtain ⟨n, middle, hlength, htext⟩ := Decoder.bind_eq_ok.mp hread
    obtain ⟨hn, rfl⟩ := exact_length.canonical input n middle hlength
    obtain ⟨bs, behind, htake, hchoice⟩ := Decoder.bind_eq_ok.mp htext
    obtain ⟨rfl, rfl⟩ := Decoder.eq_append_of_take htake
    cases htext? : String.fromUTF8? ⟨bs.toArray⟩ with
    | none =>
      simp only [htext?] at hchoice
      cases hchoice
    | some t =>
      simp only [htext?] at hchoice
      cases hchoice
      -- the text that was found has exactly these bytes as its form
      have hform : s.toUTF8.data.toList = bs := by
        rw [fromUTF8?_eq_some_iff.mp htext?]
      have hsize : s.utf8ByteSize = bs.length := by
        rw [← hform, Array.length_toList]
        rfl
      constructor
      · rw [hsize]
        exact hn
      · show length.encode bs.length ++ (bs ++ rest) =
          length.encode s.utf8ByteSize ++ s.toUTF8.data.toList ++ rest
        rw [hsize, hform, List.append_assoc]

theorem Exact.option (h : c.Exact P) : (option c).Exact fun o => ∀ a ∈ o, P a where
  accepts o ho := by
    cases o with
    | none => exact (exact_u8.accepts 0 trivial).choice (Decoder.accepts_pure none)
    | some a =>
      have hvalue := (h.accepts a (ho a rfl)).choice
        (f := fun a => pure (some a)) (Decoder.accepts_pure (some a))
      exact (exact_u8.accepts 1 trivial).bind hvalue
  canonical input o rest hread := by
    obtain ⟨tag, middle, htag, hvalue⟩ := Decoder.bind_eq_ok.mp hread
    obtain ⟨-, rfl⟩ := exact_u8.canonical input tag middle htag
    by_cases hzero : tag = 0
    · rw [if_pos hzero] at hvalue
      cases hvalue
      subst hzero
      exact ⟨fun a ha => (Option.not_mem_none a ha).elim, rfl⟩
    · rw [if_neg hzero] at hvalue
      by_cases hone : tag = 1
      · rw [if_pos hone] at hvalue
        obtain ⟨a, behind, ha, hsome⟩ := Decoder.bind_eq_ok.mp hvalue
        cases hsome
        subst hone
        obtain ⟨hPa, rfl⟩ := h.canonical middle a rest ha
        constructor
        · intro b hb
          cases Option.mem_some.mp hb
          exact hPa
        · show u8.encode 1 ++ (c.encode a ++ rest) = u8.encode 1 ++ c.encode a ++ rest
          rw [List.append_assoc]
      · rw [if_neg hone] at hvalue
        cases hvalue

/-- Arrays are exact if their elements are, whatever their size. -/
theorem Exact.array (h : c.Exact P) (n : Nat) :
    (c.array n).Exact fun as => ∀ a ∈ as, P a where
  accepts as has := by
    have hmany := Decoder.accepts_many as.toList [] fun a ha =>
      h.accepts a (has a (Vector.mem_toList_iff.mp ha))
    rw [as.length_toList] at hmany
    apply hmany.choice
    rw [List.reverse_nil, List.nil_append, dif_pos as.length_toList]
    exact Decoder.accepts_pure as
  canonical input as rest hread := by
    obtain ⟨read, middle, hmany, hsize⟩ := Decoder.bind_eq_ok.mp hread
    obtain ⟨new, heq, hlen, hnew, rfl⟩ := Decoder.eq_append_of_many h.canonical hmany
    rw [List.reverse_nil, List.nil_append] at heq
    subst heq
    rw [dif_pos hlen] at hsize
    cases hsize
    refine ⟨fun a ha => hnew a ?_, rfl⟩
    simpa using ha

theorem Exact.pair (hc : c.Exact P) (hd : d.Exact R) :
    (c.pair d).Exact fun p => P p.1 ∧ R p.2 where
  accepts p := by
    obtain ⟨a, b⟩ := p
    rintro ⟨ha, hb⟩
    have hsecond := (hd.accepts b hb).choice
      (f := fun b => pure (a, b)) (Decoder.accepts_pure (a, b))
    exact (hc.accepts a ha).bind hsecond
  canonical input p rest hread := by
    obtain ⟨a, middle, ha, hrest⟩ := Decoder.bind_eq_ok.mp hread
    obtain ⟨b, behind, hb, hpure⟩ := Decoder.bind_eq_ok.mp hrest
    cases hpure
    obtain ⟨hPa, rfl⟩ := hc.canonical input a middle ha
    obtain ⟨hRb, rfl⟩ := hd.canonical middle b rest hb
    refine ⟨⟨hPa, hRb⟩, ?_⟩
    show c.encode a ++ (d.encode b ++ rest) = c.encode a ++ d.encode b ++ rest
    rw [List.append_assoc]

end Codec

end ContractVM
