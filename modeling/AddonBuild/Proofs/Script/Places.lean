import AddonBuild.Proofs.Script.LookAhead

/-!
# Places in a script

Where a part of a script stands is counted in bytes. A part that starts and stops between characters
is cut out as it is, a dot is the byte before a place if it is the character before, and what the
look-ahead finds takes up the bytes of the specifier.
-/

namespace AddonBuild

namespace Script

/-! ### Sizes -/

lemma byteLength_append (s t : List Char) : byteLength (s ++ t) = byteLength s + byteLength t := by
  rw [← length_encode, encode_append, List.length_append, length_encode, length_encode]

lemma utf8ByteSize_ofList (s : List Char) : (String.ofList s).utf8ByteSize = byteLength s := by
  rw [← length_bytes, bytes_ofList, length_encode]

lemma utf8ByteSize_eq (s : String) : s.utf8ByteSize = byteLength s.toList := by
  rw [← utf8ByteSize_ofList, String.ofList_toList]

/-! ### Boundaries of characters -/

lemma isValid_byteLength {contents : String} (before behind : List Char)
    (h : contents.toList = before ++ behind) :
    (⟨byteLength before⟩ : String.Pos.Raw).IsValid contents := by
  rw [String.Pos.Raw.isValid_iff_exists_append]
  refine ⟨String.ofList before, String.ofList behind, ?_, ?_⟩
  · rw [← String.ofList_append, ← h, String.ofList_toList]
  · rw [String.rawEndPos, utf8ByteSize_ofList]

/-- A byte of ASCII is a character of its own. -/
lemma exists_of_getElem?_encode {s : List Char} {k : Nat} {b : UInt8}
    (h : (encode s)[k]? = some b) (hb : b < 0x80) :
    ∃ before c behind, s = before ++ c :: behind ∧ byteLength before = k ∧ c.toNat < 0x80 := by
  induction s generalizing k with
  | nil => cases h
  | cons c s ih =>
    rw [encode_cons] at h
    by_cases hk : k < (String.utf8EncodeChar c).length
    · rw [List.getElem?_append_left hk] at h
      have hc : c.toNat < 0x80 := Nat.lt_of_not_le fun hle =>
        UInt8.not_lt.mpr (le_of_mem_encodeChar hle (List.mem_of_getElem? h)) hb
      rw [encodeChar_of_lt hc, List.length_singleton, Nat.lt_one_iff] at hk
      exact ⟨[], c, s, rfl, hk.symm, hc⟩
    · rw [List.getElem?_append_right (Nat.le_of_not_lt hk)] at h
      obtain ⟨before, d, behind, rfl, hbefore, hd⟩ := ih h
      refine ⟨c :: before, d, behind, rfl, ?_, hd⟩
      rw [String.length_utf8EncodeChar] at hk hbefore
      rw [byteLength, hbefore]
      omega

/-- On either side of a byte of ASCII there is a boundary. -/
lemma isValid_of_ascii {contents : String} {k : Nat} {b : UInt8}
    (h : (bytes contents)[k]? = some b) (hb : b < 0x80) :
    (⟨k⟩ : String.Pos.Raw).IsValid contents ∧ (⟨k + 1⟩ : String.Pos.Raw).IsValid contents := by
  rw [bytes_eq_encode] at h
  obtain ⟨before, c, behind, hcut, rfl, hc⟩ := exists_of_getElem?_encode h hb
  have hbehind : String.Pos.Raw.IsValid contents _ :=
    isValid_byteLength (before ++ [c]) behind (by simp [hcut])
  have hsize : c.utf8Size = 1 := by
    rw [← String.length_utf8EncodeChar, encodeChar_of_lt hc, List.length_singleton]
  rw [byteLength_append, byteLength, byteLength, hsize] at hbehind
  exact ⟨isValid_byteLength before (c :: behind) hcut, hbehind⟩

/-! ### Parts of a script -/

lemma slice_ofList (before middle rest : List Char) :
    slice (String.ofList (before ++ middle ++ rest)) (byteLength before)
      (byteLength before + byteLength middle) = String.ofList middle := by
  have hextract : (String.ofList (before ++ middle ++ rest)).toUTF8.extract (byteLength before)
      (byteLength before + byteLength middle) = (String.ofList middle).toByteArray := by
    have hb := utf8ByteSize_ofList before
    have hm := utf8ByteSize_ofList middle
    rw [← hb, ← hm, List.append_assoc, String.ofList_append, String.ofList_append]
    show (String.ofList before ++
      (String.ofList middle ++ String.ofList rest)).toByteArray.extract _ _ = _
    rw [String.toByteArray_append, String.toByteArray_append, ← String.size_toByteArray,
      ← String.size_toByteArray]
    exact (ByteArray.extract_append_size_add (i := 0)).trans (ByteArray.extract_append_eq_left rfl)
  rw [slice, hextract, String.fromUTF8?, dif_pos (String.ofList middle).isValidUTF8,
    Option.getD_some]
  rfl

/-- A part of a script is cut out where its bytes are. -/
lemma slice_eq {contents : String} (before middle rest : List Char)
    (h : contents.toList = before ++ middle ++ rest) :
    slice contents (byteLength before) (byteLength before + byteLength middle) =
      String.ofList middle := by
  rw [← slice_ofList before middle rest, ← h, String.ofList_toList]

/-! ### The byte before a place -/

lemma getLast?_encode {s : List Char} {d : Char} (hd : d.toNat < 0x80) :
    (encode s).getLast? = some d.toUInt8 ↔ s.getLast? = some d := by
  rcases List.eq_nil_or_concat s with rfl | ⟨init, c, rfl⟩
  · simp
  · rw [List.concat_eq_append, encode_append, List.getLast?_concat]
    by_cases hc : c.toNat < 0x80
    · simp [encode_cons_of_lt hc, toUInt8_inj hc hd]
    · have hc := Nat.le_of_not_lt hc
      have hlast : (encode [c]).getLast? ≠ none := by
        simp [encode_cons]
      obtain ⟨b, hb⟩ := Option.ne_none_iff_exists'.mp hlast
      have hle : 0x80 ≤ b := by
        apply le_of_mem_encodeChar hc
        simpa [encode_cons] using List.mem_of_getLast? hb
      rw [List.getLast?_append, hb, Option.some_or]
      constructor
      · intro h
        exact absurd (Option.some.inj h) (ne_toUInt8_of_le hle hd)
      · intro h
        exact absurd (Option.some.inj h) (ne_of_le hc hd)

/-- The byte before a place is a dot if the character before it is. -/
lemma dotBefore_iff (before s : List Char) :
    (0 < byteLength before ∧
        (encode (before ++ s))[byteLength before - 1]? = some '.'.toUInt8) ↔
      before.getLast? = some '.' := by
  rw [← length_encode, encode_append, ← getLast?_encode (by decide), List.getLast?_eq_getElem?]
  constructor
  · rintro ⟨hpos, h⟩
    rwa [List.getElem?_append_left (Nat.sub_lt hpos Nat.one_pos)] at h
  · intro h
    have hpos : 0 < (encode before).length := by
      rcases Nat.eq_zero_or_pos (encode before).length with h0 | hpos
      · rw [List.eq_nil_of_length_eq_zero h0] at h
        cases h
      · exact hpos
    rw [List.getElem?_append_left (Nat.sub_lt hpos Nat.one_pos)]
    exact ⟨hpos, h⟩

lemma followsDot_iff (before s : List Char) :
    followsDot (encode (before ++ s)) (encode s) = true ↔ before.getLast? = some '.' := by
  have hlength : (encode (before ++ s)).length - (encode s).length = byteLength before := by
    rw [encode_append, List.length_append, Nat.add_sub_cancel, length_encode]
  rw [← dotBefore_iff before s, followsDot, hlength, Bool.and_eq_true, decide_eq_true_eq,
    decide_eq_true_eq]

/-! ### Finds -/

lemma Reads.isQuote_string {s rest content : List Char} {quote : Char} {closed : Bool}
    (h : Reads s (.string quote content closed) rest) : isQuote quote = true := by
  cases h with
  | string hq _ => exact hq

/-- The specifier of a find of which the lexemes start at a given byte. -/
def Found.spanFrom (start : Nat) (f : Found) : Span :=
  let first := start + byteLength (spelling f.lead) + f.specifier.quote.utf8Size
  ⟨first, first + byteLength f.specifier.text.toList, f.specifier⟩

/-- The bytes of a find are those that the specifier takes up behind what comes before it. -/
lemma Found.span_mark {f : Found} (h : Lexed f.lexemes) (before : List Char) :
    f.mark.span (String.ofList (before ++ spelling f.lexemes)) =
      f.spanFrom (byteLength before) := by
  obtain ⟨lead, ⟨kind, quote, text⟩, rest⟩ := f
  have hq : isQuote quote = true := (Lexed.of_append h).reads.isQuote_string
  have hone : byteLength [quote] = quote.utf8Size := rfl
  obtain ⟨hsize, hchar⟩ : quote.utf8Size = 1 ∧ Char.ofNat quote.toUInt8.toNat = quote := by
    obtain rfl | rfl : quote = '"' ∨ quote = '\'' := by simpa [Script.isQuote] using hq
    · decide
    · decide
  have hchars : before ++ spelling (Found.lexemes ⟨lead, ⟨kind, quote, text⟩, rest⟩) =
      before ++ spelling lead ++ [quote] ++ text.toList ++ (quote :: spelling rest) := by
    simp [Found.lexemes, Specifier.lexeme, Lexeme.chars]
  have hslice :=
    slice_ofList (before ++ spelling lead ++ [quote]) text.toList (quote :: spelling rest)
  have hrest : byteLength (quote :: spelling rest) = byteLength (spelling rest) + 1 := by
    rw [byteLength, hsize, Nat.add_comm]
  rw [byteLength_append _ [quote], hone, hsize] at hslice
  rw [hchars, Found.spanFrom, ← byteLength_append]
  simp only [Found.mark, Mark.span, length_encode, utf8ByteSize_ofList, byteLength_append _ [quote],
    byteLength_append _ text.toList, byteLength_append _ (quote :: spelling rest), hone, hsize,
    hrest, hchar]
  rw [Nat.add_assoc _ (byteLength text.toList), Nat.add_sub_cancel, ← Nat.add_assoc,
    Nat.add_sub_cancel, hslice, String.ofList_toList]

end Script

end AddonBuild
