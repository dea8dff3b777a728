import AddonBuild.Proofs.Script.Reading

/-!
# Skipping agrees with reading lexemes

What the scan skips in the bytes of a script is what the readers of lexemes take from its
characters. This holds for words, comments, strings and templates, closed or not, and although a
backslash takes a byte in the one and a character in the other.
-/

namespace AddonBuild

namespace Script

/-! ### Words and comments -/

section While

variable {p : Char → Bool} {q : UInt8 → Bool}
  (hascii : ∀ c : Char, c.toNat < 0x80 → q c.toUInt8 = p c)
  (hchar : ∀ c : Char, 0x80 ≤ c.toNat → p c = true)
  (hbyte : ∀ b : UInt8, 0x80 ≤ b → q b = true)
include hascii hchar hbyte

lemma takeWhile_encode (s : List Char) :
    (encode s).takeWhile q = encode (s.takeWhile p) := by
  induction s with
  | nil => rfl
  | cons c s ih =>
    by_cases hc : c.toNat < 0x80
    · rw [encode_cons_of_lt hc, List.takeWhile_cons, List.takeWhile_cons, hascii c hc]
      by_cases hp : p c
      · rw [if_pos hp, if_pos hp, ih, encode_cons_of_lt hc]
      · rw [if_neg hp, if_neg hp, encode_nil]
    · have hc := Nat.le_of_not_lt hc
      have hword := fun b hb => hbyte b (le_of_mem_encodeChar hc hb)
      rw [encode_cons, List.takeWhile_append_of_pos hword,
        ih, List.takeWhile_cons_of_pos (hchar c hc), encode_cons]

lemma dropWhile_encode (s : List Char) :
    (encode s).dropWhile q = encode (s.dropWhile p) := by
  have h := List.takeWhile_append_dropWhile (p := q) (l := encode s)
  have hs := congrArg encode (List.takeWhile_append_dropWhile (p := p) (l := s))
  rw [takeWhile_encode hascii hchar hbyte] at h
  rw [encode_append] at hs
  exact List.append_cancel_left (h.trans hs.symm)

end While

lemma takeWhile_isWordByte_encode (s : List Char) :
    (encode s).takeWhile isWordByte = encode (takeWord s).1 :=
  takeWhile_encode (fun _ => isWordByte_toUInt8) (fun _ => isWordChar_of_le)
    (fun _ => isWordByte_of_le) s

lemma skipWord_encode (s : List Char) : skipWord (encode s) = encode (takeWord s).2 :=
  dropWhile_encode (fun _ => isWordByte_toUInt8) (fun _ => isWordChar_of_le)
    (fun _ => isWordByte_of_le) s

lemma skipLine_encode (s : List Char) : skipLine (encode s) = encode (takeLine s).2 := by
  refine dropWhile_encode (fun c hc => ?_) (fun c hc => ?_) (fun b hb => ?_) s
  · simp [toUInt8_inj hc (d := '\n') (by decide)]
  · simp [ne_of_le hc (d := '\n') (by decide)]
  · simp [ne_toUInt8_of_le hb (c := '\n') (by decide)]

lemma skipBlock_of_le (b : UInt8) (s : Bytes) (h : 0x80 ≤ b) :
    skipBlock (b :: s) = skipBlock s := by
  rw [skipBlock, if_neg fun hb => ne_toUInt8_of_le h (by decide) hb.1]

lemma skipBlock_encode (s : List Char) : skipBlock (encode s) = encode (takeBlock s).2 := by
  fun_induction takeBlock s with
  | case1 rest =>
    rw [encode_cons_of_lt (by decide), encode_cons_of_lt (by decide), skipBlock,
      if_pos ⟨rfl, rfl⟩, List.tail_cons]
  | case2 c rest hne ih =>
    by_cases hc : c.toNat < 0x80
    · have hopen : ¬ (c.toUInt8 = '*'.toUInt8 ∧ (encode rest).head? = some '/'.toUInt8) := by
        rintro ⟨hstar, hslash⟩
        obtain ⟨t, rfl⟩ := List.head?_eq_some_iff.mp ((head?_encode (by decide)).mp hslash)
        exact hne t ((toUInt8_inj hc (by decide)).mp hstar) rfl
      rw [encode_cons_of_lt hc, skipBlock, if_neg hopen, ih]
      rfl
    · rw [skip_cons skipBlock_of_le (Nat.le_of_not_lt hc), ih]
      rfl
  | case3 => rfl

/-! ### Strings -/

lemma skipString_backslash (quote : UInt8) (s : Bytes) :
    skipString quote ('\\'.toUInt8 :: s) = skipString quote s.tail := by
  cases s <;> simp [skipString]

lemma skipString_newline (quote : UInt8) (s : Bytes) :
    skipString quote ('\n'.toUInt8 :: s) = '\n'.toUInt8 :: s := by
  rw [skipString.eq_def]
  simp [toUInt8_inj]

lemma skipString_cons {quote b : UInt8} (hb : b ≠ '\\'.toUInt8) (hn : b ≠ '\n'.toUInt8)
    (s : Bytes) : skipString quote (b :: s) = if b = quote then s else skipString quote s := by
  rw [skipString.eq_def]
  simp only [if_neg hb, if_neg hn]

lemma closing?_backslash (quote : UInt8) (s : Bytes) :
    closing? quote ('\\'.toUInt8 :: s) = closing? quote s.tail := by
  cases s <;> simp [closing?]

lemma closing?_newline (quote : UInt8) (s : Bytes) :
    closing? quote ('\n'.toUInt8 :: s) = none := by
  rw [closing?.eq_def]
  simp [toUInt8_inj]

lemma closing?_cons {quote b : UInt8} (hb : b ≠ '\\'.toUInt8) (hn : b ≠ '\n'.toUInt8)
    (s : Bytes) : closing? quote (b :: s) = if b = quote then some s else closing? quote s := by
  rw [closing?.eq_def]
  simp only [if_neg hb, if_neg hn]

section Quote

variable {quote : Char} (hq : isQuote quote = true)
include hq

lemma toUInt8_ne_of_isQuote {d : Char} (hd : d.toNat < 0x80) (hne : quote ≠ d) :
    quote.toUInt8 ≠ d.toUInt8 :=
  mt (toUInt8_inj (toNat_lt_of_isQuote hq) hd).mp hne

lemma skipString_quote (s : Bytes) : skipString quote.toUInt8 (quote.toUInt8 :: s) = s := by
  rw [skipString_cons (toUInt8_ne_of_isQuote hq (by decide) (ne_backslash_of_isQuote hq))
    (toUInt8_ne_of_isQuote hq (by decide) (ne_newline_of_isQuote hq)), if_pos rfl]

lemma closing?_quote (s : Bytes) : closing? quote.toUInt8 (quote.toUInt8 :: s) = some s := by
  rw [closing?_cons (toUInt8_ne_of_isQuote hq (by decide) (ne_backslash_of_isQuote hq))
    (toUInt8_ne_of_isQuote hq (by decide) (ne_newline_of_isQuote hq)), if_pos rfl]

/-- What steps over escapes and plain bytes steps over the content of a string. -/
lemma skip_content {α : Type} {f : Bytes → α}
    (hesc : ∀ s, f ('\\'.toUInt8 :: s) = f s.tail)
    (hplain : ∀ b s, b ≠ '\\'.toUInt8 → b ≠ '\n'.toUInt8 → b ≠ quote.toUInt8 → f (b :: s) = f s)
    (s : List Char) : f (encode s) = f (encode (takeContent quote s).2) := by
  have hhigh : ∀ b s, 0x80 ≤ b → f (b :: s) = f s := fun b s h =>
    hplain b s (ne_toUInt8_of_le h (by decide)) (ne_toUInt8_of_le h (by decide))
      (ne_toUInt8_of_le h (toNat_lt_of_isQuote hq))
  fun_induction takeContent quote s with
  | case1 => rfl
  | case2 c rest ih => rw [encode_cons_of_lt (by decide), hesc, skip_tail hhigh, ih]; rfl
  | case3 => rfl
  | case4 c rest hpair hstop ih =>
    obtain ⟨hn, hne⟩ := not_or.mp hstop
    by_cases hc : c.toNat < 0x80
    · have ih : f (c.toUInt8 :: encode rest) = f (encode rest) := by
        by_cases hb : c = '\\'
        · cases rest with
          | nil => rw [hb, hesc]; rfl
          | cons d rest => exact (hpair d rest hb rfl).elim
        · exact hplain _ _ (mt (toUInt8_inj hc (by decide)).mp hb)
            (mt (toUInt8_inj hc (by decide)).mp hn)
            (mt (toUInt8_inj hc (toNat_lt_of_isQuote hq)).mp hne)
      rw [encode_cons_of_lt hc, ih]
      assumption
    · rw [skip_cons hhigh (Nat.le_of_not_lt hc), ih]
      rfl

lemma skipString_encode (s : List Char) :
    skipString quote.toUInt8 (encode s) = encode (takeString quote s).2 := by
  obtain ⟨content, closed, rest, h⟩ := exists_takeString_eq quote s
  rw [h, skip_content hq (skipString_backslash _)
    (fun b s hb hn hne => by rw [skipString_cons hb hn, if_neg hne])]
  cases closed with
  | true =>
    rw [takeContent_eq_of_closed h, encode_cons_of_lt (toNat_lt_of_isQuote hq),
      skipString_quote hq]
  | false =>
    obtain ⟨hcontent, hrest⟩ := takeContent_eq_of_open h
    rw [hcontent]
    rcases hrest with rfl | hrest
    · rfl
    · obtain ⟨t, rfl⟩ := List.head?_eq_some_iff.mp hrest
      rw [encode_cons_of_lt (by decide), skipString_newline]

lemma closing?_encode {s content rest : List Char} {closed : Bool}
    (h : takeString quote s = (.string quote content closed, rest)) :
    closing? quote.toUInt8 (encode s) = if closed then some (encode rest) else none := by
  rw [skip_content hq (closing?_backslash _)
    (fun b s hb hn hne => by rw [closing?_cons hb hn, if_neg hne])]
  cases closed with
  | true =>
    rw [takeContent_eq_of_closed h, encode_cons_of_lt (toNat_lt_of_isQuote hq), closing?_quote hq,
      if_pos rfl]
  | false =>
    obtain ⟨hcontent, hrest⟩ := takeContent_eq_of_open h
    rw [hcontent, if_neg (by decide)]
    rcases hrest with rfl | hrest
    · rfl
    · obtain ⟨t, rfl⟩ := List.head?_eq_some_iff.mp hrest
      rw [encode_cons_of_lt (by decide), closing?_newline]

end Quote

/-! ### Templates -/

/-- What the given counts of open braces mean for the text in between: a template for each count,
with that many braces inside. -/
def nesting (depth : Nat) : List Nat → List Nesting
  | [] => List.replicate depth .braces ++ [.template]
  | d :: outer => List.replicate depth .braces ++ .template :: nesting d outer

lemma takeNested_template_cons {outer : List Nesting} {c : Char} {s : List Char}
    (hpair : ∀ d t, c = '\\' → s = d :: t → False)
    (hopen : ∀ t, c = '$' → s = '\x7b' :: t → False) :
    (takeNested (.template :: outer) (c :: s)).2 =
      (takeNested (if c = '\x60' then outer else .template :: outer) s).2 := by
  rw [takeNested]
  · split <;> rfl
  · exact hpair
  · exact hopen

lemma takeNested_string_cons {quote : Char} {outer : List Nesting} {c : Char} {s : List Char}
    (hpair : ∀ d t, c = '\\' → s = d :: t → False) :
    (takeNested (.string quote :: outer) (c :: s)).2 =
      (takeNested (if c = '\n' ∨ c = quote then outer else .string quote :: outer) s).2 := by
  rw [takeNested]
  · split <;> rfl
  · exact hpair

lemma takeNested_braces_plain {outer : List Nesting} {c : Char} (s : List Char)
    (hopen : c ≠ '\x7b') (hclose : c ≠ '\x7d') (hmark : c ≠ '\x60') (hquote : isQuote c = false) :
    (takeNested (.braces :: outer) (c :: s)).2 = (takeNested (.braces :: outer) s).2 := by
  rw [takeNested, if_neg hopen, if_neg hclose, if_neg hmark, if_neg (by simp [hquote])]
  rfl

lemma takeString_snd (quote : Char) (s : List Char) :
    (takeString quote s).2 = match (takeContent quote s).2 with
      | [] => []
      | c :: rest => if c = quote then rest else c :: rest := by
  rw [takeString]
  cases (takeContent quote s).2 with
  | nil => rfl
  | cons c rest =>
    by_cases hc : c = quote
    · exact (congrArg Prod.snd (if_pos hc)).trans (if_pos hc).symm
    · exact (congrArg Prod.snd (if_neg hc)).trans (if_neg hc).symm

/-- A string in an expression is left where a string by itself is. The end of a line in between
makes no difference, since it is plain to the expression. -/
lemma takeNested_string (quote : Char) (outer : List Nesting) (s : List Char) :
    (takeNested (.string quote :: .braces :: outer) s).2
      = (takeNested (.braces :: outer) (takeString quote s).2).2 := by
  rw [takeString_snd]
  fun_induction takeContent quote s with
  | case1 => rfl
  | case2 c rest ih => exact ih
  | case3 c rest hpair hstop =>
    rw [takeNested_string_cons hpair, if_pos hstop]
    split
    · contradiction
    · next d t hd =>
      cases hd
      split
      · rfl
      · next hc =>
        obtain rfl := hstop.resolve_right hc
        exact (takeNested_braces_plain rest (by decide) (by decide) (by decide) (by decide)).symm
  | case4 c rest hpair hstop ih =>
    rw [takeNested_string_cons hpair, if_neg hstop]
    exact ih

lemma nesting_succ (depth : Nat) (outer : List Nat) :
    nesting (depth + 1) outer = .braces :: nesting depth outer := by
  cases outer <;> rfl

lemma nesting_zero (outer : List Nat) :
    nesting 0 outer = .template :: match outer with
      | [] => []
      | d :: outer => nesting d outer := by
  cases outer <;> rfl

lemma skipTemplate_of_le (outer : List Nat) (depth : Nat) (b : UInt8) (s : Bytes) (h : 0x80 ≤ b) :
    skipTemplate outer depth (b :: s) = skipTemplate outer depth s := by
  have hne := fun {c : Char} => ne_toUInt8_of_le (c := c) h
  rw [skipTemplate.eq_def]
  by_cases hd : depth = 0
  · simp [hd, hne]
  · simp [hd, hne, isQuoteByte_of_le h]

lemma takeNested_of_le (outer : List Nat) (depth : Nat) {c : Char} (s : List Char)
    (h : 0x80 ≤ c.toNat) :
    (takeNested (nesting depth outer) (c :: s)).2 = (takeNested (nesting depth outer) s).2 := by
  cases depth with
  | zero =>
    rw [nesting_zero, takeNested_template_cons (fun _ _ hc => (ne_of_le h (by decide) hc).elim)
      (fun _ hc => (ne_of_le h (by decide) hc).elim), if_neg (ne_of_le h (by decide))]
  | succ n =>
    rw [nesting_succ, takeNested_braces_plain s (ne_of_le h (by decide))
      (ne_of_le h (by decide)) (ne_of_le h (by decide)) (isQuote_of_le h)]

lemma skipTemplate_zero_cons (outer : List Nat) {c : Char} (hc : c.toNat < 0x80) (s : Bytes) :
    skipTemplate outer 0 (c.toUInt8 :: s) =
      if c = '\\' then skipTemplate outer 0 s.tail
      else if c = '\x60' then
        match outer with
        | [] => s
        | depth :: outer => skipTemplate outer depth s
      else if c = '$' ∧ s.head? = some '\x7b'.toUInt8 then skipTemplate outer 1 s.tail
      else skipTemplate outer 0 s := by
  rw [skipTemplate.eq_def]
  cases outer <;> simp [toUInt8_inj hc]

lemma skipTemplate_succ_cons (outer : List Nat) (n : Nat) {c : Char} (hc : c.toNat < 0x80)
    (s : Bytes) :
    skipTemplate outer (n + 1) (c.toUInt8 :: s) =
      if c = '\x7b' then skipTemplate outer (n + 2) s
      else if c = '\x7d' then skipTemplate outer n s
      else if isQuote c then skipTemplate outer (n + 1) (skipString c.toUInt8 s)
      else if c = '\x60' then skipTemplate ((n + 1) :: outer) 0 s
      else skipTemplate outer (n + 1) s := by
  rw [skipTemplate.eq_def]
  simp [toUInt8_inj hc, isQuoteByte_toUInt8 hc]

lemma length_takeString_le (quote : Char) (s : List Char) :
    (takeString quote s).2.length ≤ s.length := by
  have h := congrArg List.length (takeString_append quote s)
  have hne := List.length_pos_iff.mpr (chars_takeString_ne_nil quote s)
  rw [List.length_append, List.length_cons] at h
  omega

/-- One character of the text of a template. -/
lemma takeNested_zero_cons (outer : List Nat) (c : Char) (s : List Char) :
    (takeNested (nesting 0 outer) (c :: s)).2 =
      if c = '\\' then (takeNested (nesting 0 outer) s.tail).2
      else if c = '\x60' then
        match outer with
        | [] => s
        | depth :: outer => (takeNested (nesting depth outer) s).2
      else if c = '$' ∧ s.head? = some '\x7b' then (takeNested (nesting 1 outer) s.tail).2
      else (takeNested (nesting 0 outer) s).2 := by
  split_ifs with hb hm ho
  · rw [hb, nesting_zero]
    cases s <;> rfl
  · rw [nesting_zero, takeNested_template_cons (by simp [hb]) (by simp [hm]), if_pos hm]
    cases outer with
    | nil => simp [takeNested]
    | cons depth outer => rfl
  · obtain ⟨rfl, ho⟩ := ho
    obtain ⟨t, rfl⟩ := List.head?_eq_some_iff.mp ho
    rw [nesting_succ, nesting_zero]
    rfl
  · have ho : ∀ t, c = '$' → s = '\x7b' :: t → False := by
      rintro t rfl rfl
      exact ho ⟨rfl, rfl⟩
    rw [nesting_zero, takeNested_template_cons (by simp [hb]) ho, if_neg hm]

/-- One character of an expression of a template, or the string that starts with it. -/
lemma takeNested_succ_cons (outer : List Nat) (n : Nat) (c : Char) (s : List Char) :
    (takeNested (nesting (n + 1) outer) (c :: s)).2 =
      if c = '\x7b' then (takeNested (nesting (n + 2) outer) s).2
      else if c = '\x7d' then (takeNested (nesting n outer) s).2
      else if isQuote c then (takeNested (nesting (n + 1) outer) (takeString c s).2).2
      else if c = '\x60' then (takeNested (nesting 0 ((n + 1) :: outer)) s).2
      else (takeNested (nesting (n + 1) outer) s).2 := by
  rw [nesting_succ]
  split_ifs with ho hcl hq hm
  · rw [nesting_succ, nesting_succ, takeNested, if_pos ho]
    rfl
  · rw [takeNested, if_neg ho, if_pos hcl]
    rfl
  · have hm : c ≠ '\x60' := by
      rintro rfl
      exact absurd hq (by decide)
    rw [← takeNested_string, takeNested, if_neg ho, if_neg hcl, if_neg hm, if_pos hq]
    rfl
  · rw [takeNested, if_neg ho, if_neg hcl, if_pos hm, nesting_zero, ← nesting_succ]
    rfl
  · exact takeNested_braces_plain s ho hcl hm (by simpa using hq)

/-- The scan skips as much of a template as belongs to the lexeme. -/
lemma skipTemplate_encode (outer : List Nat) (depth : Nat) (s : List Char) :
    skipTemplate outer depth (encode s) = encode (takeNested (nesting depth outer) s).2 := by
  match s with
  | [] =>
    rw [encode_nil, skipTemplate.eq_def]
    cases depth <;> simp [nesting_zero, nesting_succ, takeNested]
  | c :: rest =>
    -- a character outside ASCII is no mark, and neither is any of its bytes
    by_cases hc : c.toNat < 0x80
    · rw [encode_cons_of_lt hc]
      cases depth with
      | zero =>
        simp only [skipTemplate_zero_cons outer hc, takeNested_zero_cons,
          head?_encode (s := rest) (d := '\x7b') (by decide)]
        split_ifs with hb hm ho
        · cases rest with
          | nil => exact skipTemplate_encode outer 0 []
          | cons d rest =>
            rw [skip_tail (skipTemplate_of_le outer 0)]
            exact skipTemplate_encode outer 0 rest
        · cases outer with
          | nil => rfl
          | cons depth outer => exact skipTemplate_encode outer depth rest
        · obtain ⟨t, ht⟩ := List.head?_eq_some_iff.mp ho.2
          have hshort : t.length < rest.length := by
            rw [ht]
            exact Nat.lt_succ_self _
          rw [ht, encode_cons_of_lt (by decide)]
          exact skipTemplate_encode outer 1 t
        · exact skipTemplate_encode outer 0 rest
      | succ n =>
        rw [skipTemplate_succ_cons outer n hc, takeNested_succ_cons]
        split_ifs with ho hcl hq hm
        · exact skipTemplate_encode outer (n + 2) rest
        · exact skipTemplate_encode outer n rest
        · have hshort := length_takeString_le c rest
          rw [skipString_encode hq]
          exact skipTemplate_encode outer (n + 1) (takeString c rest).2
        · exact skipTemplate_encode ((n + 1) :: outer) 0 rest
        · exact skipTemplate_encode outer (n + 1) rest
    · have hc := Nat.le_of_not_lt hc
      rw [skip_cons (skipTemplate_of_le outer depth) hc, takeNested_of_le outer depth rest hc]
      exact skipTemplate_encode outer depth rest
termination_by s.length
decreasing_by
  all_goals
    simp only [List.length_cons]
    omega

end Script

end AddonBuild
