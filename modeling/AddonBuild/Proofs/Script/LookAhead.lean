import AddonBuild.Proofs.Script.Skipping

/-!
# Looking ahead by bytes and by lexemes

The scan looks ahead from a keyword byte by byte. What it finds, or that it finds nothing, is what a
walk over the lexemes behind the keyword finds: every place at which the scan stops and goes on is
the beginning of a lexeme.
-/

namespace AddonBuild

namespace Script

/-! ### First bytes -/

lemma any_head?_encode {p : Char → Bool} {q : UInt8 → Bool}
    (hascii : ∀ c : Char, c.toNat < 0x80 → q c.toUInt8 = p c)
    (hchar : ∀ c : Char, 0x80 ≤ c.toNat → p c = false)
    (hbyte : ∀ b : UInt8, 0x80 ≤ b → q b = false) (s : List Char) :
    (encode s).head?.any q = s.head?.any p := by
  cases s with
  | nil => rfl
  | cons c s =>
    by_cases hc : c.toNat < 0x80
    · rw [encode_cons_of_lt hc]
      exact hascii c hc
    · have hc := Nat.le_of_not_lt hc
      obtain ⟨b, t, hbt⟩ := List.exists_cons_of_ne_nil (String.utf8EncodeChar_ne_nil (c := c))
      have hb : 0x80 ≤ b := le_of_mem_encodeChar hc (by simp [hbt])
      rw [encode_cons, hbt]
      exact (hbyte b hb).trans (hchar c hc).symm

lemma quoteStarts_encode (s : List Char) : quoteStarts (encode s) = s.head?.any isQuote :=
  any_head?_encode (fun _ => isQuoteByte_toUInt8) (fun _ => isQuote_of_le)
    (fun _ => isQuoteByte_of_le) s

lemma startsComment_encode {d : Char} (hd : d.toNat < 0x80) (s : List Char) :
    startsComment d.toUInt8 (encode s) = true ↔ ∃ t, s = '/' :: d :: t := by
  rw [startsComment, Bool.and_eq_true, decide_eq_true_eq, decide_eq_true_eq,
    head?_encode (by decide)]
  constructor
  · rintro ⟨hs, ht⟩
    obtain ⟨t, rfl⟩ := List.head?_eq_some_iff.mp hs
    rw [encode_cons_of_lt (by decide), List.tail_cons, head?_encode hd] at ht
    obtain ⟨u, rfl⟩ := List.head?_eq_some_iff.mp ht
    exact ⟨u, rfl⟩
  · rintro ⟨t, rfl⟩
    rw [encode_cons_of_lt (by decide), List.tail_cons, head?_encode hd]
    exact ⟨rfl, rfl⟩

/-! ### Blanks and comments -/

lemma toNat_lt_of_isBlank {c : Char} (h : isBlank c = true) : c.toNat < 0x80 := by
  simp only [isBlank, Bool.or_eq_true, decide_eq_true_eq] at h
  obtain (((rfl | rfl) | rfl) | rfl) | rfl := h <;> decide

lemma skipTrivia_blank {c : Char} (hc : isBlank c = true) (s : List Char) :
    skipTrivia (encode (c :: s)) = skipTrivia (encode s) := by
  have hlt := toNat_lt_of_isBlank hc
  rw [encode_cons_of_lt hlt, skipTrivia, if_pos (by rw [isBlankByte_toUInt8 hlt, hc])]

lemma skipTrivia_line (s : List Char) :
    skipTrivia (encode ('/' :: '/' :: s)) = skipTrivia (encode (takeLine ('/' :: s)).2) := by
  have hstart := (startsComment_encode (d := '/') (by decide) ('/' :: '/' :: s)).mpr ⟨s, rfl⟩
  rw [← skipLine_encode]
  rw [encode_cons_of_lt (by decide)] at hstart ⊢
  rw [skipTrivia, if_neg (by decide), if_pos hstart]

lemma skipTrivia_block (s : List Char) :
    skipTrivia (encode ('/' :: '*' :: s)) = skipTrivia (encode (takeBlock s).2) := by
  have hstart := (startsComment_encode (d := '*') (by decide) ('/' :: '*' :: s)).mpr ⟨s, rfl⟩
  have hline : ¬ startsComment '/'.toUInt8 (encode ('/' :: '*' :: s)) = true := by
    rw [startsComment_encode (by decide)]
    rintro ⟨t, ht⟩
    simp at ht
  rw [← skipBlock_encode]
  rw [encode_cons_of_lt (by decide)] at hstart hline ⊢
  rw [skipTrivia, if_neg (by decide), if_neg hline, if_pos hstart, encode_cons_of_lt (by decide),
    List.tail_cons]

lemma startsComment_of_ne {c d : Char} {s : List Char} (hd : d.toNat < 0x80)
    (hne : c = '/' → s.head? ≠ some d) : ¬ startsComment d.toUInt8 (encode (c :: s)) = true := by
  rw [startsComment_encode hd]
  rintro ⟨t, ht⟩
  obtain ⟨rfl, rfl⟩ := List.cons.inj ht
  exact hne rfl rfl

lemma skipTrivia_of_ne {c : Char} {s : List Char} (hblank : isBlank c = false)
    (hcomment : c = '/' → s.head? ≠ some '/' ∧ s.head? ≠ some '*') :
    skipTrivia (encode (c :: s)) = encode (c :: s) := by
  have hb : (encode (c :: s)).head?.any isBlankByte = false := by
    rw [any_head?_encode (fun _ => isBlankByte_toUInt8) (fun _ => isBlank_of_le)
      (fun _ => isBlankByte_of_le)]
    exact hblank
  have hline := startsComment_of_ne (d := '/') (by decide) fun h => (hcomment h).1
  have hblock := startsComment_of_ne (d := '*') (by decide) fun h => (hcomment h).2
  cases he : encode (c :: s) with
  | nil => rw [skipTrivia]
  | cons b t =>
    rw [he] at hb hline hblock
    rw [skipTrivia, if_neg (by simpa using hb), if_neg hline, if_neg hblock]

lemma ne_slash_of_isQuote {c : Char} (h : isQuote c = true) : c ≠ '/' := by
  rintro rfl
  exact absurd h (by decide)

lemma isBlank_of_isQuote {c : Char} (h : isQuote c = true) : isBlank c = false := by
  simp only [isQuote, Bool.or_eq_true, decide_eq_true_eq] at h
  obtain rfl | rfl := h <;> decide

lemma ne_of_isWordStart {c d : Char} (h : isWordStart c = true) (hd : isWordStart d = false) :
    c ≠ d := by
  rintro rfl
  exact absurd h (by simp [hd])

lemma isBlank_of_isWordStart {c : Char} (h : isWordStart c = true) : isBlank c = false := by
  cases hb : isBlank c with
  | false => rfl
  | true => exact absurd h (by simp [(not_of_isBlank hb).1])

lemma Reads.skipTrivia_eq {s rest : List Char} {l : Lexeme} (h : Reads s l rest) :
    skipTrivia (encode s) = if l.isTrivia then skipTrivia (encode rest) else encode s := by
  cases h with
  | blank hc => exact skipTrivia_blank hc _
  | line t => exact skipTrivia_line t
  | block t => exact skipTrivia_block t
  | word hc =>
    exact skipTrivia_of_ne (isBlank_of_isWordStart hc)
      fun hs => absurd hs (ne_of_isWordStart hc (by decide))
  | string hq h =>
    exact skipTrivia_of_ne (isBlank_of_isQuote hq) fun hs => absurd hs (ne_slash_of_isQuote hq)
  | template t => exact skipTrivia_of_ne (by decide) fun hs => absurd hs (by decide)
  | mark _ _ _ hblank hcomment => exact skipTrivia_of_ne hblank hcomment

/-- The bytes of a list of lexemes. -/
abbrev bytesOf (ls : List Lexeme) : Bytes :=
  encode (spelling ls)

lemma Lexed.skipTrivia_cons {l : Lexeme} {ls : List Lexeme} (h : Lexed (l :: ls)) :
    skipTrivia (bytesOf (l :: ls)) =
      if l.isTrivia then skipTrivia (bytesOf ls) else bytesOf (l :: ls) :=
  h.reads.skipTrivia_eq

lemma Lexed.skipTrivia_eq {ls : List Lexeme} (h : Lexed ls) :
    skipTrivia (bytesOf ls) = bytesOf (significant ls) := by
  induction ls with
  | nil => rw [bytesOf, spelling_nil, encode_nil, skipTrivia]; rfl
  | cons l ls ih =>
    rw [h.skipTrivia_cons, ih h.tail, significant, significant, List.dropWhile_cons]
    split_ifs <;> rfl

lemma Lexed.dropTrivia {ls : List Lexeme} (h : Lexed ls) : Lexed (significant ls) := by
  rw [← List.takeWhile_append_dropWhile (p := Lexeme.isTrivia) (l := ls)] at h
  exact h.of_append

/-! ### Strings -/

/-- The bytes that the scan has found when the lexemes of a specifier are found. -/
def Found.mark (f : Found) : Mark where
  kind := f.specifier.kind
  quote := f.specifier.quote.toUInt8
  content := encode (f.specifier.text.toList ++ f.specifier.quote :: spelling f.rest)
  rest := bytesOf f.rest

/-- Whether a lexeme is a string, closed or not. -/
def Lexeme.isString : Lexeme → Bool
  | .string .. => true
  | _ => false

lemma Reads.any_isQuote {s rest : List Char} {l : Lexeme} (h : Reads s l rest) :
    s.head?.any isQuote = l.isString := by
  cases h with
  | blank hc => exact (not_of_isBlank hc).2.1
  | line | block | template => rfl
  | word hc =>
    cases hq : isQuote _ with
    | false => exact hq
    | true => exact absurd hc (by simp [isWordStart_of_isQuote hq])
  | string hq _ => exact hq
  | mark _ hquote _ _ _ => exact hquote

lemma literalAt?_of_not {s : List Char} (h : s.head?.any isQuote = false) (kind : Kind) :
    literalAt? kind (encode s) = none := by
  rw [← quoteStarts_encode, quoteStarts] at h
  cases he : encode s with
  | nil => rfl
  | cons b t =>
    rw [he] at h
    exact if_neg (by simpa using h)

lemma Reads.literalAt?_string {s rest content : List Char} {quote : Char} {closed : Bool}
    (h : Reads s (.string quote content closed) rest) (kind : Kind) :
    literalAt? kind (encode s) =
      if closed then
        some ⟨kind, quote.toUInt8, encode (content ++ quote :: rest), encode rest⟩
      else none := by
  have happ := h.eq_append
  cases h with
  | string hq h =>
    have hlt := toNat_lt_of_isQuote hq
    rw [encode_cons_of_lt hlt, literalAt?, if_pos (by rw [isQuoteByte_toUInt8 hlt, hq]),
      closing?_encode hq h]
    cases closed with
    | false => rfl
    | true =>
      obtain ⟨-, rfl⟩ := List.cons.inj happ
      simp

lemma Lexed.literalAt?_eq (kind : Kind) (passed : List Lexeme) {ls : List Lexeme} (h : Lexed ls) :
    literalAt? kind (skipTrivia (bytesOf ls)) = (literal? kind passed ls).map Found.mark := by
  fun_induction literal? kind passed ls with
  | case1 passed quote content rest =>
    rw [h.skipTrivia_cons, if_neg (by simp [Lexeme.isTrivia])]
    refine (h.reads.literalAt?_string kind).trans ?_
    simp [Found.mark]
  | case2 passed l rest _ htrivia ih =>
    rw [h.skipTrivia_cons, if_pos htrivia]
    exact ih h.tail
  | case3 passed l rest hne htrivia =>
    rw [h.skipTrivia_cons, if_neg htrivia]
    cases hl : l.isString with
    | false => exact literalAt?_of_not (h.reads.any_isQuote.trans hl) kind
    | true =>
      cases l with
      | string quote content closed =>
        cases closed with
        | false => exact h.reads.literalAt?_string kind
        | true => exact absurd rfl (hne quote content)
      | _ => simp [Lexeme.isString] at hl
  | case4 passed => rw [bytesOf, spelling_nil, encode_nil, skipTrivia]; rfl

lemma Lexed.quoteStarts_eq {ls : List Lexeme} (h : Lexed ls) :
    quoteStarts (skipTrivia (bytesOf ls)) = stringFollows ls := by
  rw [h.skipTrivia_eq, quoteStarts_encode, stringFollows]
  have hs := h.dropTrivia
  cases hm : significant ls with
  | nil => rfl
  | cons l rest =>
    rw [hm] at hs
    exact hs.reads.any_isQuote.trans (by cases l <;> rfl)

/-! ### Clauses -/

lemma clauseAt?_eq_match (kind : Kind) (depth : Nat) (s : Bytes) :
    clauseAt? kind depth s = match skipTrivia s with
      | [] => none
      | c :: rest =>
        if c = '\x7b'.toUInt8 then if 0 < depth then none else clauseAt? kind (depth + 1) rest
        else if c = '\x7d'.toUInt8 then if depth = 0 then none else clauseAt? kind (depth - 1) rest
        else if c = '*'.toUInt8 ∨ c = ','.toUInt8 then clauseAt? kind depth rest
        else if isQuoteByte c ∧ 0 < depth then clauseAt? kind depth (skipString c rest)
        else if isWordStartByte c then
          if depth = 0 ∧ c :: rest.takeWhile isWordByte = fromWord.map Char.toUInt8
              ∧ quoteStarts (skipTrivia (skipWord rest)) then
            literalAt? kind (skipTrivia (skipWord rest))
          else clauseAt? kind depth (skipWord rest)
        else none := by
  rw [clauseAt?.eq_def]
  split
  · next h => rw [h]
  · next h => rw [h]

/-- A clause starts behind the blanks and comments. -/
lemma clauseAt?_congr {s t : Bytes} (h : skipTrivia s = skipTrivia t) (kind : Kind) (depth : Nat) :
    clauseAt? kind depth s = clauseAt? kind depth t := by
  rw [clauseAt?_eq_match, clauseAt?_eq_match, h]

lemma encode_injective {s t : List Char} (h : encode s = encode t) : s = t := by
  have h : bytes (String.ofList s) = bytes (String.ofList t) := by
    rw [bytes_ofList, bytes_ofList, h]
  have h : (String.ofList s).toByteArray = (String.ofList t).toByteArray :=
    ByteArray.ext (Array.toList_inj.mp h)
  exact String.ofList_injective (String.toByteArray_inj.mp h)

/-- What the scan does at a word, which it reads off the first byte. -/
lemma Reads.exists_word {s rest chars : List Char} (h : Reads s (.word chars) rest) :
    ∃ b t, encode s = b :: t ∧ isWordStartByte b = true
      ∧ b :: t.takeWhile isWordByte = encode chars ∧ skipWord t = encode rest := by
  cases h with
  | @word c s hc =>
    have hw : isWordChar c = true := by simp [isWordChar, hc]
    have htake := takeWhile_isWordByte_encode (c :: s)
    have hskip := skipWord_encode (c :: s)
    have hstart : (encode (c :: s)).head?.any isWordStartByte = true := by
      rcases Nat.lt_or_ge c.toNat 0x80 with hlt | hle
      · rw [encode_cons_of_lt hlt]
        exact (isWordStartByte_toUInt8 hlt).trans hc
      · obtain ⟨b, t, hbt⟩ := List.exists_cons_of_ne_nil (String.utf8EncodeChar_ne_nil (c := c))
        rw [encode_cons, hbt]
        exact isWordStartByte_of_le (le_of_mem_encodeChar hle (by simp [hbt]))
    cases he : encode (c :: s) with
    | nil => rw [he] at hstart; cases hstart
    | cons b t =>
      rw [he] at hstart htake hskip
      have hb : isWordByte b = true := by
        rw [isWordByte, Bool.or_eq_true]
        exact Or.inl hstart
      rw [List.takeWhile_cons_of_pos hb, takeWord, List.takeWhile_cons_of_pos hw] at htake
      rw [skipWord, List.dropWhile_cons_of_pos hb, takeWord, List.dropWhile_cons_of_pos hw] at hskip
      exact ⟨b, t, rfl, hstart, htake, hskip⟩

/-- A mark is one byte. -/
lemma Reads.exists_mark {s rest : List Char} {c : Char} (h : Reads s (.mark c) rest) :
    c.toNat < 0x80 ∧ isWordStart c = false ∧ isQuote c = false ∧ c ≠ '\x60'
      ∧ encode s = c.toUInt8 :: encode rest := by
  cases h with
  | mark hword hquote htemplate =>
    have hlt : c.toNat < 0x80 := by
      by_cases hlt : c.toNat < 0x80
      · exact hlt
      · rw [isWordStart_of_le (Nat.le_of_not_lt hlt)] at hword
        cases hword
    exact ⟨hlt, hword, hquote, htemplate, encode_cons_of_lt hlt _⟩

lemma ne_of_isWordStartByte {b d : UInt8} (h : isWordStartByte b = true)
    (hd : isWordStartByte d = false) : b ≠ d := by
  rintro rfl
  rw [h] at hd
  cases hd

lemma isQuoteByte_of_isWordStartByte {b : UInt8} (h : isWordStartByte b = true) :
    isQuoteByte b = false := by
  cases hq : isQuoteByte b with
  | false => rfl
  | true =>
    simp only [isQuoteByte, Bool.or_eq_true, decide_eq_true_eq] at hq
    obtain rfl | rfl := hq <;> exact absurd h (by decide)

/-- The letters of a keyword are the bytes of the keyword. -/
lemma encode_eq_map_iff {chars : List Char} (word : List Char)
    (h : encode word = word.map Char.toUInt8) :
    encode chars = word.map Char.toUInt8 ↔ chars = word := by
  rw [← h]
  exact ⟨encode_injective, fun hs => by rw [hs]⟩

section Clause

variable {s rest : List Char} (kind : Kind) (depth : Nat)

lemma Reads.clauseAt?_trivia {l : Lexeme} (h : Reads s l rest) (hl : l.isTrivia = true) :
    clauseAt? kind depth (encode s) = clauseAt? kind depth (encode rest) := by
  apply clauseAt?_congr
  rw [h.skipTrivia_eq, if_pos hl]

lemma Reads.clauseAt?_word {chars : List Char} (h : Reads s (.word chars) rest) :
    clauseAt? kind depth (encode s) =
      if depth = 0 ∧ chars = fromWord ∧ quoteStarts (skipTrivia (encode rest)) then
        literalAt? kind (skipTrivia (encode rest))
      else clauseAt? kind depth (encode rest) := by
  obtain ⟨b, t, hs, hb, hchars, hrest⟩ := h.exists_word
  have hne : ∀ {d : UInt8}, isWordStartByte d = false → b ≠ d := ne_of_isWordStartByte hb
  rw [clauseAt?_eq_match, h.skipTrivia_eq, if_neg (by simp [Lexeme.isTrivia]), hs]
  simp only [hchars, hrest, hb, isQuoteByte_of_isWordStartByte hb,
    encode_eq_map_iff fromWord (by decide),
    if_neg (hne (d := '\x7b'.toUInt8) (by decide)),
    if_neg (hne (d := '\x7d'.toUInt8) (by decide)), hne (d := '*'.toUInt8) (by decide),
    hne (d := ','.toUInt8) (by decide)]
  simp

lemma Reads.clauseAt?_string {quote : Char} {content : List Char} {closed : Bool}
    (h : Reads s (.string quote content closed) rest) :
    clauseAt? kind depth (encode s) =
      if 0 < depth then clauseAt? kind depth (encode rest) else none := by
  rw [clauseAt?_eq_match, h.skipTrivia_eq, if_neg (by simp [Lexeme.isTrivia])]
  cases h with
  | @string _ s _ _ _ hq h =>
    have hskip := skipString_encode hq s
    have hlt := toNat_lt_of_isQuote hq
    have hne : ∀ {d : Char}, isQuote d = false → quote ≠ d := by
      rintro d hd rfl
      rw [hq] at hd
      cases hd
    rw [h] at hskip
    rw [encode_cons_of_lt hlt]
    simp only [toUInt8_inj hlt (d := '\x7b') (by decide), toUInt8_inj hlt (d := '\x7d') (by decide),
      toUInt8_inj hlt (d := '*') (by decide), toUInt8_inj hlt (d := ',') (by decide),
      hne (d := '\x7b') (by decide), hne (d := '\x7d') (by decide), hne (d := '*') (by decide),
      hne (d := ',') (by decide), isQuoteByte_toUInt8 hlt, hq, isWordStartByte_toUInt8 hlt,
      isWordStart_of_isQuote hq, hskip]
    simp

lemma Reads.clauseAt?_template {chars : List Char} (h : Reads s (.template chars) rest) :
    clauseAt? kind depth (encode s) = none := by
  rw [clauseAt?_eq_match, h.skipTrivia_eq, if_neg (by simp [Lexeme.isTrivia])]
  cases h with
  | template s =>
    rw [encode_cons_of_lt (by decide)]
    dsimp only
    rw [if_neg (by decide), if_neg (by decide), if_neg (by decide),
      if_neg fun hq => absurd hq.1 (by decide), if_neg (by decide)]

lemma Reads.clauseAt?_mark {c : Char} (h : Reads s (.mark c) rest) :
    clauseAt? kind depth (encode s) =
      if c = '\x7b' then if 0 < depth then none else clauseAt? kind (depth + 1) (encode rest)
      else if c = '\x7d' then if depth = 0 then none else clauseAt? kind (depth - 1) (encode rest)
      else if c = '*' ∨ c = ',' then clauseAt? kind depth (encode rest)
      else none := by
  obtain ⟨hlt, hword, hquote, -, hs⟩ := h.exists_mark
  rw [clauseAt?_eq_match, h.skipTrivia_eq, if_neg (by simp [Lexeme.isTrivia]), hs]
  simp only [toUInt8_inj hlt (d := '\x7b') (by decide), toUInt8_inj hlt (d := '\x7d') (by decide),
    toUInt8_inj hlt (d := '*') (by decide), toUInt8_inj hlt (d := ',') (by decide),
    isQuoteByte_toUInt8 hlt, hquote, isWordStartByte_toUInt8 hlt, hword]
  simp

end Clause

/-- A lexeme of no other form is a blank or a comment. -/
lemma Lexeme.isTrivia_of_ne {l : Lexeme} (hmark : ∀ c, l = .mark c → False)
    (hword : ∀ chars, l = .word chars → False)
    (hstring : ∀ quote content closed, l = .string quote content closed → False)
    (htemplate : ∀ chars, l = .template chars → False) : l.isTrivia = true := by
  cases l with
  | blank | comment => rfl
  | word chars => exact (hword chars rfl).elim
  | string quote content closed => exact (hstring quote content closed rfl).elim
  | template chars => exact (htemplate chars rfl).elim
  | mark c => exact (hmark c rfl).elim

lemma Lexed.clauseAt?_eq (kind : Kind) (inBraces : Bool) (passed : List Lexeme) {ls : List Lexeme}
    (h : Lexed ls) :
    clauseAt? kind inBraces.toNat (bytesOf ls) =
      (clause? kind inBraces passed ls).map Found.mark := by
  fun_induction clause? kind inBraces passed ls with
  | case1 inBraces passed =>
    rw [bytesOf, spelling_nil, encode_nil, clauseAt?_eq_match, skipTrivia]
    rfl
  | case2 passed rest => exact h.reads.clauseAt?_mark kind 1
  | case3 inBraces passed rest hb ih =>
    obtain rfl : inBraces = false := by simpa using hb
    exact (h.reads.clauseAt?_mark kind 0).trans (ih h.tail)
  | case4 passed rest _ ih => exact (h.reads.clauseAt?_mark kind 1).trans (ih h.tail)
  | case5 inBraces passed rest hb _ =>
    obtain rfl : inBraces = false := by simpa using hb
    exact h.reads.clauseAt?_mark kind 0
  | case6 inBraces passed c rest hopen hclose hc ih =>
    refine (h.reads.clauseAt?_mark kind _).trans ?_
    rw [if_neg hopen, if_neg hclose, if_pos hc]
    exact ih h.tail
  | case7 inBraces passed c rest hopen hclose hc =>
    refine (h.reads.clauseAt?_mark kind _).trans ?_
    rw [if_neg hopen, if_neg hclose, if_neg hc]
    rfl
  | case8 inBraces passed chars rest hfrom =>
    obtain ⟨rfl, rfl, hstring⟩ := hfrom
    refine (h.reads.clauseAt?_word kind 0).trans ?_
    rw [if_pos ⟨rfl, rfl, by rwa [h.tail.quoteStarts_eq]⟩]
    exact h.tail.literalAt?_eq kind _
  | case9 inBraces passed chars rest hfrom ih =>
    refine (h.reads.clauseAt?_word kind _).trans ?_
    rw [if_neg ?_]
    · exact ih h.tail
    · rintro ⟨hb, hchars, hstring⟩
      refine hfrom ⟨?_, hchars, ?_⟩
      · simpa using hb
      · rwa [h.tail.quoteStarts_eq] at hstring
  | case10 passed quote content closed rest ih =>
    exact (h.reads.clauseAt?_string kind 1).trans (ih h.tail)
  | case11 inBraces passed quote content closed rest hb =>
    obtain rfl : inBraces = false := by simpa using hb
    exact h.reads.clauseAt?_string kind 0
  | case12 => exact h.reads.clauseAt?_template kind _
  | case13 inBraces passed l rest hmark hword hstring htemplate ih =>
    have hl := Lexeme.isTrivia_of_ne hmark hword hstring htemplate
    exact (h.reads.clauseAt?_trivia kind _ hl).trans (ih h.tail)

/-! ### Keywords -/

/-- A byte that can only be a mark tells the lexeme. -/
lemma Reads.head?_eq_iff {s rest : List Char} {l : Lexeme} (h : Reads s l rest) {d : Char}
    (hlt : d.toNat < 0x80) (hd : ∀ t, takeLexeme d t = (.mark d, t)) :
    (encode s).head? = some d.toUInt8 ↔ l = .mark d := by
  rw [head?_encode hlt]
  constructor
  · intro hs
    obtain ⟨t, rfl⟩ := List.head?_eq_some_iff.mp hs
    exact congrArg Prod.fst (h.takeLexeme_eq.symm.trans (hd t))
  · rintro rfl
    cases h
    rfl

lemma closesCall_eq (ls : List Lexeme) :
    closesCall ls = (significant ls).head?.any fun l => l = .mark ')' || l = .mark ',' := by
  rw [closesCall]
  cases significant ls with
  | nil => rfl
  | cons l rest => cases l <;> simp

lemma Lexed.closesCallAt_eq {ls : List Lexeme} (h : Lexed ls) :
    closesCallAt (bytesOf ls) = closesCall ls := by
  rw [closesCallAt, h.skipTrivia_eq, closesCall_eq]
  have hs := h.dropTrivia
  cases hm : significant ls with
  | nil => rfl
  | cons l rest =>
    rw [hm] at hs
    have hclose := hs.reads.head?_eq_iff (d := ')') (by decide) fun _ => rfl
    have hcomma := hs.reads.head?_eq_iff (d := ',') (by decide) fun _ => rfl
    rw [bytesOf, spelling_cons, List.head?_cons, Option.any_some]
    cases hb : (encode (l.chars ++ spelling rest)).head? with
    | none =>
      rw [hb] at hclose hcomma
      simp only [reduceCtorEq, false_iff] at hclose hcomma
      simp [hclose, hcomma]
    | some b =>
      rw [hb, Option.some.injEq] at hclose hcomma
      simp [hclose, hcomma]

lemma Reads.importAt?_eq {s rest : List Char} {l : Lexeme} (h : Reads s l rest)
    (hl : l.isTrivia = false) :
    importAt? (encode s) =
      if l.isString then literalAt? .sideEffect (encode s)
      else if l = .mark '(' then
        (literalAt? .dynamic (skipTrivia (encode rest))).filter fun m => closesCallAt m.rest
      else if l = .mark '.' then none
      else clauseAt? .importFrom 0 (encode s) := by
  have hstring : (encode s).head?.any isQuoteByte = l.isString :=
    (quoteStarts_encode s).trans h.any_isQuote
  have hcall := h.head?_eq_iff (d := '(') (by decide) fun _ => rfl
  have hdot := h.head?_eq_iff (d := '.') (by decide) fun _ => rfl
  have hrest : l = .mark '(' → (encode s).tail = encode rest := by
    rintro rfl
    rw [h.exists_mark.2.2.2.2, List.tail_cons]
  rw [importAt?, h.skipTrivia_eq, if_neg (by simp [hl])]
  cases he : encode s with
  | nil =>
    obtain ⟨c, t, rfl⟩ := h.exists_cons
    exact absurd he (by simp [encode_cons])
  | cons b t =>
    rw [he] at hstring hcall hdot hrest
    simp only [List.head?_cons, Option.any_some, Option.some.injEq, List.tail_cons] at *
    simp only [hstring, hcall, hdot]
    split_ifs with _ hb
    · rfl
    · rw [hrest hb]
    · rfl
    · rfl

lemma Lexed.of_literal? {kind : Kind} {passed ls : List Lexeme} {f : Found} (h : Lexed ls)
    (hf : literal? kind passed ls = some f) : Lexed f.rest := by
  fun_induction literal? kind passed ls with
  | case1 =>
    obtain rfl := Option.some.inj hf
    exact h.tail
  | case2 passed l rest _ _ ih => exact ih h.tail hf
  | case3 => cases hf
  | case4 => cases hf

lemma Lexed.call?_eq (passed : List Lexeme) {ls : List Lexeme} (h : Lexed ls) :
    (literalAt? .dynamic (skipTrivia (bytesOf ls))).filter (fun m => closesCallAt m.rest) =
      (call? passed ls).map Found.mark := by
  rw [h.literalAt?_eq .dynamic passed, call?]
  cases hf : literal? .dynamic passed ls with
  | none => rfl
  | some f =>
    have hclose : closesCallAt f.mark.rest = closesCall f.rest := (h.of_literal? hf).closesCallAt_eq
    cases hc : closesCall f.rest <;> simp [Option.filter, hclose, hc]

lemma stringFollows_singleton (l : Lexeme) : stringFollows [l] = l.isString := by
  cases l <;> rfl

lemma Lexed.importAt?_eq (passed : List Lexeme) {ls : List Lexeme} (h : Lexed ls) :
    importAt? (bytesOf ls) = (import? passed ls).map Found.mark := by
  fun_induction import? passed ls with
  | case1 => rw [bytesOf, spelling_nil, encode_nil, importAt?, skipTrivia]; rfl
  | case2 passed l rest hl ih =>
    have hclause := h.reads.clauseAt?_trivia .importFrom 0 hl
    have hskip := h.skipTrivia_cons
    rw [if_pos hl] at hskip
    rw [← ih h.tail, importAt?, importAt?, hskip]
    simp only [bytesOf, spelling_cons, hclause]
  | case3 passed l rest hl hstring =>
    rw [stringFollows_singleton] at hstring
    refine (h.reads.importAt?_eq (by simpa using hl)).trans ?_
    rw [if_pos hstring, ← h.literalAt?_eq .sideEffect passed, h.skipTrivia_cons, if_neg hl]
    rfl
  | case4 passed rest hl hstring =>
    exact (h.reads.importAt?_eq rfl).trans (h.tail.call?_eq _)
  | case5 passed rest hl hstring =>
    exact h.reads.importAt?_eq rfl
  | case6 passed l rest hl hstring hcall hdot =>
    rw [stringFollows_singleton] at hstring
    refine (h.reads.importAt?_eq (by simpa using hl)).trans ?_
    rw [if_neg hstring, if_neg hcall, if_neg hdot]
    exact h.clauseAt?_eq .importFrom false passed

lemma Lexed.statementAt?_eq {ls : List Lexeme} (h : Lexed ls) (word : List Char) :
    statementAt? (encode word) (bytesOf ls) = (statement? word ls).map Found.mark := by
  simp only [statementAt?, statement?, encode_eq_map_iff importWord (by decide),
    encode_eq_map_iff exportWord (by decide)]
  split_ifs with himport hexport
  · exact h.importAt?_eq []
  · exact h.clauseAt?_eq .exportFrom false []
  · rfl

end Script

end AddonBuild
