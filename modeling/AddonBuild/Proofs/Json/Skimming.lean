import AddonBuild.Proofs.Json.Reading
import AddonBuild.Proofs.Script.Encoding

/-!
# Strings and numbers that are skimmed

Reading closely accepts less than skimming, in two places. A string has to be legible: its
characters are encoded in UTF-8, and surrogates are escaped in pairs. A number must not be too great
for a floating number. Where a lexeme can be read in both ways, both end at the same place.
-/

namespace AddonBuild

namespace Json

open Script (encode encode_cons encode_append encodeChar_of_lt le_of_mem_encodeChar toUInt8_inj)

variable {s r rest body : List UInt8} {chars : List Char}

/-! ### Legible strings -/

/-- What is behind the opening quote of a legible string, its closing quote included. -/
inductive Legible : List UInt8 → Prop where
  | quote : Legible [0x22]
  | char {c : Char} {rest : List UInt8} (hcontrol : 0x20 ≤ c.toNat) (hquote : c ≠ '"')
      (hslash : c ≠ '\\') (h : Legible rest) : Legible (String.utf8EncodeChar c ++ rest)
  | escape {b value : UInt8} {rest : List UInt8} (hb : shortEscape? b = some value)
      (h : Legible rest) : Legible (0x5C :: b :: rest)
  | unit {digits rest : List UInt8} {n : Nat} (hdigits : hexFour digits = .ok (n, []))
      (hlow : isLowSurrogate n = false) (hhigh : isHighSurrogate n = false) (h : Legible rest) :
      Legible (0x5C :: 0x75 :: (digits ++ rest))
  | pair {digits digits' rest : List UInt8} {high low : Nat}
      (hdigits : hexFour digits = .ok (high, [])) (hhigh : isHighSurrogate high = true)
      (hdigits' : hexFour digits' = .ok (low, [])) (hlow : isLowSurrogate low = true)
      (h : Legible rest) : Legible (0x5C :: 0x75 :: (digits ++ 0x5C :: 0x75 :: (digits' ++ rest)))

/-! ### Bytes of characters -/

/-- A character is encoded by a byte that starts characters, and by others that do not. -/
lemma exists_encodeChar (c : Char) : ∃ b tail, String.utf8EncodeChar c = b :: tail ∧
    b.IsUTF8FirstByte ∧ ∀ t ∈ tail, ¬ t.IsUTF8FirstByte := by
  have hfirst (i : Nat) (hi : i < (String.utf8EncodeChar c).length) :
      (String.utf8EncodeChar c)[i].IsUTF8FirstByte ↔ i = 0 :=
    UInt8.isUTF8FirstByte_getElem_utf8EncodeChar
  cases h : String.utf8EncodeChar c with
  | nil => exact absurd h String.utf8EncodeChar_ne_nil
  | cons b tail =>
    simp only [h] at hfirst
    refine ⟨b, tail, rfl, ?_, fun t ht => ?_⟩
    · exact (hfirst 0 (Nat.zero_lt_succ _)).mpr rfl
    · obtain ⟨i, hi, rfl⟩ := List.getElem_of_mem ht
      have hstart := hfirst (i + 1) (Nat.succ_lt_succ hi)
      rw [List.getElem_cons_succ] at hstart
      exact fun h => absurd (hstart.mp h) (Nat.succ_ne_zero i)

/-- Which character bytes start with does not depend on what follows. -/
lemma encodeChar_append_inj {c d : Char} {t : List UInt8}
    (h : String.utf8EncodeChar c ++ s = String.utf8EncodeChar d ++ t) : c = d ∧ s = t := by
  have hdecode (c : Char) (s : List UInt8) :
      ByteArray.utf8DecodeChar? (String.utf8EncodeChar c ++ s).toByteArray 0 = some c := by
    rw [List.toByteArray_append]
    exact ByteArray.utf8DecodeChar?_utf8EncodeChar_append
  obtain rfl : c = d := Option.some.inj ((hdecode c s).symm.trans (h ▸ hdecode d t))
  exact ⟨rfl, List.append_cancel_left h⟩

/-- The bytes of a character that is neither a control character nor a quote nor a backslash can
stand in a string. -/
lemma plain_of_mem_encodeChar {c : Char} (hcontrol : 0x20 ≤ c.toNat) (hquote : c ≠ '"')
    (hslash : c ≠ '\\') {b : UInt8} (hb : b ∈ String.utf8EncodeChar c) :
    b ≠ 0x22 ∧ b ≠ 0x5C ∧ ¬ b < 0x20 := by
  by_cases hc : c.toNat < 0x80
  · rw [encodeChar_of_lt hc, List.mem_singleton] at hb
    subst hb
    have hne {d : Char} (hd : d.toNat < 0x80) (h : c ≠ d) : c.toUInt8 ≠ d.toUInt8 :=
      mt (toUInt8_inj hc hd).mp h
    refine ⟨hne (d := '"') (by decide) hquote, hne (d := '\\') (by decide) hslash, ?_⟩
    rw [UInt8.lt_iff_toNat_lt]
    show ¬ c.toNat % 256 < 0x20
    omega
  · have hle := UInt8.le_iff_toNat_le.mp (le_of_mem_encodeChar (Nat.le_of_not_lt hc) hb)
    have hhigh : 0x80 ≤ b.toNat := hle
    refine ⟨?_, ?_, ?_⟩
    · rintro rfl
      exact absurd hhigh (by decide)
    · rintro rfl
      exact absurd hhigh (by decide)
    · rw [UInt8.lt_iff_toNat_lt]
      show ¬ b.toNat < 0x20
      omega

/-! ### Reading a legible string -/

lemma hexFour_append_of_nil {digits : List UInt8} {n : Nat} (h : hexFour digits = .ok (n, []))
    (r : List UInt8) : hexFour (digits ++ r) = .ok (n, r) := by
  obtain ⟨_, rfl, happend, -⟩ := hexFour_append h
  rw [List.append_nil]
  exact happend r

lemma stringBytes_plain {b : UInt8} (hb : b ≠ 0x22 ∧ b ≠ 0x5C ∧ ¬ b < 0x20) {more : List UInt8}
    (h : stringBytes s = .ok (more, rest)) : stringBytes (b :: s) = .ok (b :: more, rest) := by
  rw [stringBytes, if_neg hb.1, if_neg hb.2.1, if_neg hb.2.2, h]

lemma stringBytes_append_plain {plain more : List UInt8}
    (hplain : ∀ b ∈ plain, b ≠ 0x22 ∧ b ≠ 0x5C ∧ ¬ b < 0x20)
    (h : stringBytes s = .ok (more, rest)) :
    stringBytes (plain ++ s) = .ok (plain ++ more, rest) := by
  induction plain with
  | nil => exact h
  | cons b plain ih =>
    obtain ⟨hb, hplain⟩ := List.forall_mem_cons.mp hplain
    exact stringBytes_plain hb (ih hplain)

lemma shortEscape?_eq_some {b value : UInt8} (h : shortEscape? b = some value) :
    ∃ c, [value] = String.utf8EncodeChar c := by
  refine ⟨Char.ofNat value.toNat, ?_⟩
  unfold shortEscape? at h
  split at h
  case h_9 => cases h
  all_goals
    obtain rfl := Option.some.inj h
    rfl

lemma escape_short {b value : UInt8} (h : shortEscape? b = some value) (r : List UInt8) :
    Json.escape (b :: r) = .ok ([value], r) := by
  simp only [Json.escape, h]

lemma escape_unit {digits : List UInt8} {n : Nat} (hdigits : hexFour digits = .ok (n, []))
    (hlow : isLowSurrogate n = false) (hhigh : isHighSurrogate n = false) (r : List UInt8) :
    Json.escape (0x75 :: (digits ++ r)) = .ok (String.utf8EncodeChar (Char.ofNat n), r) := by
  have hpoint : pointEscape (digits ++ r) = .ok (encodePoint n, r) := by
    simp [pointEscape, hexFour_append_of_nil hdigits, hlow, hhigh]
  exact hpoint

lemma escape_pair {digits digits' : List UInt8} {high low : Nat}
    (hdigits : hexFour digits = .ok (high, [])) (hhigh : isHighSurrogate high = true)
    (hdigits' : hexFour digits' = .ok (low, [])) (hlow : isLowSurrogate low = true)
    (r : List UInt8) : ∃ c,
      Json.escape (0x75 :: (digits ++ 0x5C :: 0x75 :: (digits' ++ r))) =
        .ok (String.utf8EncodeChar c, r) := by
  have hnot : isLowSurrogate high = false := by
    simp only [isHighSurrogate, isLowSurrogate, Bool.and_eq_true, decide_eq_true_eq] at hhigh ⊢
    rw [Bool.and_eq_false_iff]
    exact .inl (decide_eq_false (by omega))
  have hpoint : pointEscape (digits ++ 0x5C :: 0x75 :: (digits' ++ r)) =
      .ok (encodePoint ((high - 0xD800) * 0x400 + (low - 0xDC00) + 0x10000), r) := by
    simp [pointEscape, lowHalf, hexFour_append_of_nil hdigits, hexFour_append_of_nil hdigits', hnot,
      hhigh, hlow]
  exact ⟨_, hpoint⟩

/-- A legible string is read, whatever follows it. -/
lemma Legible.exists_stringBytes (h : Legible body) (r : List UInt8) :
    ∃ chars, stringBytes (body ++ r) = .ok (encode chars, r) := by
  induction h with
  | quote => exact ⟨[], by simp [stringBytes]⟩
  | @char c rest hcontrol hquote hslash h ih =>
    obtain ⟨chars, hchars⟩ := ih
    refine ⟨c :: chars, ?_⟩
    rw [List.append_assoc, encode_cons]
    exact stringBytes_append_plain
      (fun _ hb => plain_of_mem_encodeChar hcontrol hquote hslash hb) hchars
  | escape hb h ih =>
    obtain ⟨chars, hchars⟩ := ih
    obtain ⟨c, hc⟩ := shortEscape?_eq_some hb
    refine ⟨c :: chars, ?_⟩
    rw [encode_cons, ← hc]
    exact stringBytes_escape (escape_short hb _) hchars
  | @unit digits rest n hdigits hlow hhigh h ih =>
    obtain ⟨chars, hchars⟩ := ih
    refine ⟨Char.ofNat n :: chars, ?_⟩
    rw [List.cons_append, List.cons_append, List.append_assoc]
    exact stringBytes_escape (escape_unit hdigits hlow hhigh _) hchars
  | @pair digits digits' rest high low hdigits hhigh hdigits' hlow h ih =>
    obtain ⟨chars, hchars⟩ := ih
    obtain ⟨c, hc⟩ := escape_pair hdigits hhigh hdigits' hlow (rest ++ r)
    refine ⟨c :: chars, ?_⟩
    simp only [List.cons_append, List.append_assoc]
    exact stringBytes_escape hc hchars

lemma isValidUTF8_iff {content : List UInt8} :
    ByteArray.IsValidUTF8 ⟨content.toArray⟩ ↔ ∃ chars, content = encode chars := by
  have hbytes (chars : List Char) : chars.utf8Encode.data.toList = encode chars := by
    simp [encode, List.utf8Encode]
  constructor
  · rintro ⟨chars, hchars⟩
    exact ⟨chars, by rw [← hbytes, ← hchars]⟩
  · rintro ⟨chars, rfl⟩
    refine ⟨chars, ?_⟩
    rw [ByteArray.ext_iff, ← hbytes]

lemma Legible.exists_quoted (h : Legible body) (r : List UInt8) :
    ∃ text, quoted (body ++ r) = .ok (text, r) := by
  obtain ⟨chars, hchars⟩ := h.exists_stringBytes r
  have hvalid := isValidUTF8_iff.mpr ⟨chars, rfl⟩
  rw [quoted, hchars]
  dsimp only
  rw [String.fromUTF8?, dif_pos hvalid]
  exact ⟨_, rfl⟩

/-! ### What was read is legible -/

lemma hexFour_cases {n : Nat} (h : hexFour s = .ok (n, rest)) :
    ∃ digits, s = digits ++ rest ∧ hexFour digits = .ok (n, []) := by
  obtain ⟨digits, rfl, hdigits, -⟩ := hexFour_append h
  exact ⟨digits, rfl, by simpa using hdigits []⟩

lemma lowHalf_cases {high : Nat} {out : List UInt8} (h : lowHalf high s = .ok (out, rest)) :
    ∃ digits low, s = 0x5C :: 0x75 :: (digits ++ rest) ∧ hexFour digits = .ok (low, []) ∧
      isLowSurrogate low = true ∧ ∃ n, out = encodePoint n := by
  unfold lowHalf at h
  split at h
  case h_1 rest' =>
    split at h
    · cases h
    · next low behind hfour =>
      obtain ⟨digits, rfl, hdigits⟩ := hexFour_cases hfour
      split_ifs at h with hlow
      · obtain ⟨rfl, rfl⟩ := Prod.mk.inj (Except.ok.inj h)
        exact ⟨digits, low, rfl, hdigits, hlow, _, rfl⟩
      · cases h
  all_goals cases h

/-- An escape by numbers is one unit that is no surrogate, or a pair of surrogates. -/
lemma pointEscape_cases {out : List UInt8} (h : pointEscape s = .ok (out, rest)) :
    (∃ n, out = encodePoint n) ∧
      ((∃ digits n, s = digits ++ rest ∧ hexFour digits = .ok (n, []) ∧
          isLowSurrogate n = false ∧ isHighSurrogate n = false) ∨
        ∃ digits digits' high low, s = digits ++ 0x5C :: 0x75 :: (digits' ++ rest) ∧
          hexFour digits = .ok (high, []) ∧ isHighSurrogate high = true ∧
          hexFour digits' = .ok (low, []) ∧ isLowSurrogate low = true) := by
  unfold pointEscape at h
  split at h
  · cases h
  · next n behind hfour =>
    obtain ⟨digits, rfl, hdigits⟩ := hexFour_cases hfour
    split_ifs at h with hlow hhigh
    · cases h
    · obtain ⟨digits', low, rfl, hdigits', hlow', hpoint⟩ := lowHalf_cases h
      exact ⟨hpoint, .inr ⟨digits, digits', n, low, rfl, hdigits, hhigh, hdigits', hlow'⟩⟩
    · obtain ⟨rfl, rfl⟩ := Prod.mk.inj (Except.ok.inj h)
      rw [Bool.not_eq_true] at hlow hhigh
      exact ⟨⟨n, rfl⟩, .inl ⟨digits, n, rfl, hdigits, hlow, hhigh⟩⟩

/-- An escape stands for a character. -/
lemma escape_eq_ok {out : List UInt8} (h : Json.escape s = .ok (out, rest)) :
    ∃ c letters, out = String.utf8EncodeChar c ∧ s = letters ++ rest ∧
      ∀ body, Legible body → Legible (0x5C :: (letters ++ body)) := by
  unfold Json.escape at h
  split at h
  case h_1 => cases h
  case h_2 b behind =>
    split at h
    case h_1 value hvalue =>
      obtain ⟨rfl, rfl⟩ := Prod.mk.inj (Except.ok.inj h)
      obtain ⟨c, hc⟩ := shortEscape?_eq_some hvalue
      exact ⟨c, [b], hc, rfl, fun body => .escape hvalue⟩
    case h_2 hvalue =>
      split_ifs at h with hpoint
      · subst hpoint
        obtain ⟨⟨point, rfl⟩, hunits⟩ := pointEscape_cases h
        rcases hunits with ⟨digits, n, rfl, hdigits, hlow, hhigh⟩ |
          ⟨digits, digits', high, low, rfl, hdigits, hhigh, hdigits', hlow⟩
        · exact ⟨Char.ofNat point, 0x75 :: digits, rfl, rfl, fun body hbody =>
            .unit hdigits hlow hhigh hbody⟩
        · refine ⟨Char.ofNat point, 0x75 :: (digits ++ 0x5C :: 0x75 :: digits'), rfl, by simp,
            fun body hbody => ?_⟩
          simpa using Legible.pair hdigits hhigh hdigits' hlow hbody
      · cases h

/-- What stands in a string at a place: the quote that closes it, an escape, or a byte that stands
for itself. -/
lemma stringBytes_cases {content : List UInt8} (h : stringBytes s = .ok (content, rest)) :
    (s = 0x22 :: rest ∧ content = []) ∨
      (∃ escaped behind out more, s = 0x5C :: escaped ∧ Json.escape escaped = .ok (out, behind) ∧
        stringBytes behind = .ok (more, rest) ∧ content = out ++ more) ∨
      ∃ b behind more, s = b :: behind ∧ (b ≠ 0x22 ∧ b ≠ 0x5C ∧ ¬ b < 0x20) ∧
        stringBytes behind = .ok (more, rest) ∧ content = b :: more := by
  unfold stringBytes at h
  split at h
  · cases h
  · next b behind =>
    split_ifs at h with hquote hslash hcontrol
    · obtain ⟨rfl, rfl⟩ := Prod.mk.inj (Except.ok.inj h)
      exact .inl ⟨by rw [hquote], rfl⟩
    · split at h
      · cases h
      · next out after hescape =>
        split at h
        · cases h
        · next more rest' hmore =>
          obtain ⟨rfl, rfl⟩ := Prod.mk.inj (Except.ok.inj h)
          exact .inr (.inl ⟨behind, after, out, more, by rw [hslash], hescape, hmore, rfl⟩)
    · cases h
    · split at h
      · cases h
      · next more rest' hmore =>
        obtain ⟨rfl, rfl⟩ := Prod.mk.inj (Except.ok.inj h)
        exact .inr (.inr ⟨b, behind, more, rfl, ⟨hquote, hslash, hcontrol⟩, hmore, rfl⟩)

/-- Bytes that start no character were not escaped. -/
lemma stringBytes_of_tail {tail more : List UInt8} (htail : ∀ t ∈ tail, ¬ t.IsUTF8FirstByte)
    (h : stringBytes s = .ok (tail ++ more, rest)) :
    ∃ behind, s = tail ++ behind ∧ stringBytes behind = .ok (more, rest) := by
  induction tail generalizing s with
  | nil => exact ⟨s, rfl, h⟩
  | cons t tail ih =>
    obtain ⟨ht, hothers⟩ := List.forall_mem_cons.mp htail
    obtain ⟨-, hnil⟩ | ⟨_, _, _, _, rfl, hescape, -, hbytes⟩ |
      ⟨b, behind, found, rfl, -, hfound, hbytes⟩ := stringBytes_cases h
    · cases hnil
    · -- the bytes of an escape start with one that starts a character
      obtain ⟨c, -, rfl, -, -⟩ := escape_eq_ok hescape
      obtain ⟨first, others, hc, hfirst, -⟩ := exists_encodeChar c
      rw [hc] at hbytes
      exact absurd ((List.cons.inj hbytes).1 ▸ hfirst) ht
    · obtain ⟨rfl, rfl⟩ := List.cons.inj hbytes
      obtain ⟨behind', rfl, hbehind'⟩ := ih hothers hfound
      exact ⟨behind', rfl, hbehind'⟩

lemma le_of_encodeChar_head {d : Char} {b : UInt8} {tail : List UInt8}
    (hd : String.utf8EncodeChar d = b :: tail) (hb : ¬ b < 0x20) : 0x20 ≤ d.toNat := by
  by_contra hlt
  have hascii : d.toNat < 0x80 := by omega
  rw [encodeChar_of_lt hascii] at hd
  obtain ⟨rfl, -⟩ := List.cons.inj hd
  refine hb (UInt8.lt_iff_toNat_lt.mpr ?_)
  show d.toNat % 256 < 0x20
  omega

/-- A string whose bytes encode characters is legible. The induction is on the characters: each is
either escaped, or stands there byte by byte. -/
lemma legible_of_stringBytes (h : stringBytes s = .ok (encode chars, rest)) :
    ∃ body, s = body ++ rest ∧ Legible body := by
  have hne (c : Char) (more : List UInt8) : String.utf8EncodeChar c ++ more ≠ [] := fun hnil =>
    String.utf8EncodeChar_ne_nil (List.append_eq_nil_iff.mp hnil).1
  induction chars generalizing s with
  | nil =>
    obtain ⟨rfl, -⟩ | ⟨_, _, _, _, rfl, hescape, -, hbytes⟩ | ⟨_, _, _, rfl, -, -, hbytes⟩ :=
      stringBytes_cases h
    · exact ⟨[0x22], rfl, .quote⟩
    · obtain ⟨c, -, rfl, -, -⟩ := escape_eq_ok hescape
      exact absurd hbytes.symm (hne c _)
    · cases hbytes
  | cons d chars ih =>
    obtain ⟨rfl, hbytes⟩ | ⟨_, _, _, _, rfl, hescape, hmore, hbytes⟩ |
      ⟨b, behind, more, rfl, hplain, hmore, hbytes⟩ := stringBytes_cases h
    · exact absurd hbytes (hne d _)
    · obtain ⟨c, letters, rfl, rfl, hletters⟩ := escape_eq_ok hescape
      obtain ⟨rfl, rfl⟩ := encodeChar_append_inj hbytes
      obtain ⟨body, rfl, hbody⟩ := ih hmore
      exact ⟨0x5C :: (letters ++ body), by simp, hletters body hbody⟩
    · obtain ⟨first, tail, hd, -, htail⟩ := exists_encodeChar d
      rw [encode_cons, hd] at hbytes
      obtain ⟨rfl, rfl⟩ := List.cons.inj hbytes
      obtain ⟨after, rfl, hafter⟩ := stringBytes_of_tail htail hmore
      obtain ⟨body, rfl, hbody⟩ := ih hafter
      refine ⟨String.utf8EncodeChar d ++ body, by rw [hd]; simp,
        .char (le_of_encodeChar_head hd hplain.2.2) ?_ ?_ hbody⟩
      · rintro rfl
        exact hplain.1 (List.cons.inj hd).1.symm
      · rintro rfl
        exact hplain.2.1 (List.cons.inj hd).1.symm

lemma legible_of_quoted {text : String} (h : quoted s = .ok (text, rest)) :
    ∃ body, s = body ++ rest ∧ Legible body := by
  unfold quoted at h
  split at h
  · cases h
  · next content behind hbytes =>
    split at h
    · next text' htext =>
      obtain ⟨-, rfl⟩ := Prod.mk.inj (Except.ok.inj h)
      rw [String.fromUTF8?] at htext
      split_ifs at htext with hvalid
      obtain ⟨chars, rfl⟩ := isValidUTF8_iff.mp hvalid
      exact legible_of_stringBytes hbytes
    · cases h

lemma Legible.closed (h : Legible body) : Closed body := by
  obtain ⟨text, hquoted⟩ := h.exists_quoted []
  obtain ⟨_, hbody, -, hclosed⟩ := quoted_append hquoted
  simp only [List.append_nil] at hbody
  exact hbody ▸ hclosed

/-! ### Skimming a legible string -/

lemma skimString_plain {plain : List UInt8}
    (hplain : ∀ b ∈ plain, b ≠ 0x22 ∧ b ≠ 0x5C ∧ ¬ b < 0x20) (s : List UInt8) :
    skimString (plain ++ s) = skimString s := by
  induction plain with
  | nil => rfl
  | cons b plain ih =>
    obtain ⟨hb, hplain⟩ := List.forall_mem_cons.mp hplain
    rw [List.cons_append, skimString, if_neg hb.1, if_neg hb.2.1, if_neg hb.2.2]
    exact ih hplain

lemma skimString_escape {out behind : List UInt8} (h : skimEscape s = .ok (out, behind)) :
    skimString (0x5C :: s) = skimString behind := by
  rw [skimString, if_neg (by decide), if_pos rfl]
  split
  · next herror => cases herror.symm.trans h
  · next hescape =>
    obtain ⟨rfl, rfl⟩ := Prod.mk.inj (Except.ok.inj (hescape.symm.trans h))
    rfl

lemma skimEscape_short {b value : UInt8} (h : shortEscape? b = some value) (r : List UInt8) :
    skimEscape (b :: r) = .ok ([], r) := by
  simp only [skimEscape, h]

lemma skimEscape_unit {digits : List UInt8} {n : Nat} (h : hexFour digits = .ok (n, []))
    (r : List UInt8) : skimEscape (0x75 :: (digits ++ r)) = .ok ([], r) := by
  simp [skimEscape, shortEscape?, hexFour_append_of_nil h]

/-- A legible string ends where it is found to end. -/
lemma Legible.skimString (h : Legible body) (r : List UInt8) :
    skimString (body ++ r) = .ok ((), r) := by
  induction h with
  | quote => simp [Json.skimString]
  | char hcontrol hquote hslash h ih =>
    rw [List.append_assoc,
      skimString_plain fun _ hb => plain_of_mem_encodeChar hcontrol hquote hslash hb]
    exact ih
  | escape hb h ih => exact (skimString_escape (skimEscape_short hb _)).trans ih
  | unit hdigits _ _ h ih =>
    rw [List.cons_append, List.cons_append, List.append_assoc]
    exact (skimString_escape (skimEscape_unit hdigits _)).trans ih
  | pair hdigits _ hdigits' _ h ih =>
    simp only [List.cons_append, List.append_assoc]
    rw [skimString_escape (skimEscape_unit hdigits _),
      skimString_escape (skimEscape_unit hdigits' _)]
    exact ih

/-! ### Numbers -/

/-- What skimming a number comes to, when reading it closely comes to an answer. Reading it may
fail although it is one, but only because it is too great. -/
inductive Skims : Except Halt (Number × List UInt8) → Except Halt (Unit × List UInt8) → Prop where
  | value {n : Number} {rest : List UInt8} : Skims (.ok (n, rest)) (.ok ((), rest))
  | tooGreat {left rest : List UInt8} :
      Skims (.error ⟨.numberOutOfRange, left⟩) (.ok ((), rest))
  | fault {halt halt' : Halt} : Skims (.error halt) (.error halt')

lemma skims_floating (negative : Bool) (significand : Nat) (exponent : Int) (s : List UInt8) :
    Skims (floating negative significand exponent s) (.ok ((), s)) := by
  rw [floating]
  split
  · exact .value
  · exact .tooGreat

lemma skims_exponentPart (negative : Bool) (significand : Nat) (start : Int) (s : List UInt8) :
    Skims (exponentPart negative significand start s) (skimExponent s) := by
  rw [exponentPart, skimExponent]
  generalize exponentSign s = sign
  obtain ⟨down, s⟩ := sign
  dsimp only
  cases s with
  | nil => exact .fault
  | cons b behind =>
    by_cases hdigit : isDigit b = true
    · simp only [hdigit, if_true, List.dropWhile_cons]
      split
      · exact skims_floating _ _ _ _
      · split_ifs
        · exact .tooGreat
        · exact .value
    · simp only [hdigit]
      exact .fault

lemma skims_fractionPart (negative : Bool) (significand : Nat) (start : Int) (s : List UInt8) :
    Skims (fractionPart negative significand start s) (skimFraction s) := by
  rw [fractionPart, skimFraction]
  dsimp only
  split_ifs
  · split <;> exact .fault
  · split
    · split_ifs
      · exact skims_exponentPart _ _ _ _
      · exact skims_floating _ _ _ _
    · exact skims_floating _ _ _ _

lemma skims_numberTail (negative : Bool) (value overflow : Nat) (s : List UInt8) :
    Skims (numberTail negative value overflow s) (skimTail s) := by
  have hplain (s : List UInt8) : Skims (if overflow = 0 then .ok (wholeNumber negative value, s)
      else floating negative value overflow s) (.ok ((), s)) := by
    split_ifs
    · exact .value
    · exact skims_floating _ _ _ _
  unfold numberTail skimTail
  dsimp only
  split
  · next b behind =>
    by_cases hpoint : b = 0x2E
    · rw [if_pos hpoint, if_pos hpoint]
      exact skims_fractionPart _ _ _ _
    rw [if_neg hpoint, if_neg hpoint]
    by_cases hmark : isExponentMark b = true
    · rw [if_pos hmark, if_pos hmark]
      exact skims_exponentPart _ _ _ _
    · rw [if_neg hmark, if_neg hmark]
      exact hplain _
  · exact hplain _

/-- Reading a number closely and skimming it agree, unless it is too great. -/
lemma skims_numeral (negative : Bool) (s : List UInt8) :
    Skims (numeral negative s) (skimNumber s) := by
  unfold numeral skimNumber
  split
  · exact .fault
  · next b behind =>
    split_ifs with hzero hdigit
    · split
      · split_ifs
        · exact .fault
        · exact skims_numberTail _ _ _ _
      · exact skims_numberTail _ _ _ _
    · rw [List.dropWhile_cons_of_pos hdigit]
      exact skims_numberTail _ _ _ _
    · exact .fault

/-! ### Skimming a number and what follows -/

section Words

variable (hr : Ends r)
include hr

lemma skimExponent_append (w : List UInt8) :
    (skimExponent (w ++ r)).toOption = carry r (skimExponent w) := by
  rw [skimExponent, skimExponent, exponentSign_append hr]
  generalize (exponentSign w).2 = s
  cases s with
  | nil =>
    cases r with
    | nil => rfl
    | cons b r => simp [isDigit_of_ends hr rfl]
  | cons b s =>
    simp only [List.cons_append, dropWhile_isDigit_append hr]
    split_ifs <;> rfl

lemma skimFraction_append (w : List UInt8) :
    (skimFraction (w ++ r)).toOption = carry r (skimFraction w) := by
  rw [skimFraction, skimFraction, takeWhile_isDigit_append hr, dropWhile_isDigit_append hr]
  generalize w.dropWhile isDigit = rest
  split_ifs
  · rfl
  · cases rest with
    | nil =>
      cases r with
      | nil => rfl
      | cons b r => simp [isExponentMark_of_ends hr rfl]
    | cons b rest =>
      simp only [List.cons_append]
      split_ifs
      · exact skimExponent_append hr _
      · rfl

lemma skimTail_append (w : List UInt8) :
    (skimTail (w ++ r)).toOption = carry r (skimTail w) := by
  unfold skimTail
  cases w with
  | nil =>
    cases r with
    | nil => rfl
    | cons b r =>
      have hpoint : b ≠ 0x2E := by
        rintro rfl
        cases hr 0x2E rfl
      simp [hpoint, isExponentMark_of_ends hr rfl]
  | cons b w =>
    simp only [List.cons_append]
    split_ifs
    · exact skimFraction_append hr _
    · exact skimExponent_append hr _
    · rfl

lemma skimNumber_append (w : List UInt8) :
    (skimNumber (w ++ r)).toOption = carry r (skimNumber w) := by
  unfold skimNumber
  cases w with
  | nil =>
    cases r with
    | nil => rfl
    | cons b r =>
      have hzero : b ≠ 0x30 := by
        rintro rfl
        cases hr 0x30 rfl
      simp [isDigit_of_ends hr rfl, hzero]
  | cons b w =>
    simp only [List.cons_append]
    split_ifs
    · cases w with
      | nil =>
        have htail := skimTail_append hr []
        cases r with
        | nil => exact htail
        | cons c r =>
          simp only [List.nil_append, isDigit_of_ends hr rfl, Bool.false_eq_true, if_false]
          exact htail
      | cons c w =>
        simp only [List.cons_append]
        split_ifs
        · rfl
        · exact skimTail_append hr (c :: w)
    · rw [dropWhile_isDigit_append hr]
      exact skimTail_append hr _
    · rfl

end Words

/-- A number that is not too great is read closely, if it can be skimmed together with what follows
it. -/
lemma exists_numeral {negative : Bool} {w : List UInt8} (hr : Ends r)
    (hgreat : ∀ left, numeral negative w ≠ .error ⟨.numberOutOfRange, left⟩)
    (h : skimNumber (w ++ r) = .ok ((), rest)) :
    ∃ n, numeral negative (w ++ r) = .ok (n, rest) := by
  have happend := skimNumber_append hr w
  rw [h, toOption_ok, eq_comm, carry_eq_some] at happend
  obtain ⟨left, hleft, rfl⟩ := happend
  have hskims := skims_numeral negative w
  rw [hleft] at hskims
  generalize hanswer : numeral negative w = answer at hskims
  cases hskims with
  | @value n _ =>
    have hlong := numeral_append hr negative w
    rw [hanswer, carry_ok, toOption_eq_some] at hlong
    exact ⟨n, hlong⟩
  | tooGreat => exact absurd hanswer (hgreat _)

end Json

end AddonBuild
