import AddonBuild.Proofs.Script.Skipping

/-!
# Reading a lexeme in front of something else

Where a lexeme ends depends on what follows it by no more than one character. So it is read back in
front of any other text that starts with the same one, and a closed string is read back with any
content that cannot end it early.
-/

namespace AddonBuild

namespace Script

/-- A content that a string in the given quotes can have: it neither ends the string nor escapes
what does. -/
def Fits (quote : Char) (content : List Char) : Prop :=
  ∀ c ∈ content, c ≠ '\\' ∧ c ≠ '\n' ∧ c ≠ quote

instance (quote : Char) (content : List Char) : Decidable (Fits quote content) :=
  List.decidableBAll _ content

/-! ### Words and comments -/

/-- What is taken ends where something follows that is not. -/
lemma takeWhile_append {p : Char → Bool} {s rest : List Char} (hs : ∀ c ∈ s, p c = true)
    (hrest : ∀ c ∈ rest.head?, p c = false) :
    (s ++ rest).takeWhile p = s ∧ (s ++ rest).dropWhile p = rest := by
  rw [List.takeWhile_append_of_pos hs, List.dropWhile_append_of_pos hs]
  cases rest with
  | nil => exact ⟨List.append_nil _, rfl⟩
  | cons c rest =>
    have hc : p c = false := hrest c rfl
    rw [List.takeWhile_cons_of_neg (by simp [hc]), List.dropWhile_cons_of_neg (by simp [hc])]
    exact ⟨List.append_nil _, rfl⟩

lemma takeWhile_of_head? {p : Char → Bool} {s rest rest' : List Char}
    (h : s.dropWhile p = rest) (hhead : rest.head? = rest'.head?) :
    (s.takeWhile p ++ rest').takeWhile p = s.takeWhile p ∧
      (s.takeWhile p ++ rest').dropWhile p = rest' := by
  apply takeWhile_append (List.all_eq_true.mp List.all_takeWhile)
  intro c hc
  have hstop := List.head?_dropWhile_not p s
  rw [h, hhead, Option.mem_def.mp hc] at hstop
  simpa using hstop

lemma takeWord_of_head? {s rest' : List Char} (h : (takeWord s).2.head? = rest'.head?) :
    takeWord ((takeWord s).1 ++ rest') = ((takeWord s).1, rest') := by
  obtain ⟨htake, hdrop⟩ := takeWhile_of_head? (p := isWordChar) (s := s) rfl h
  rw [takeWord, takeWord, htake, hdrop]

lemma takeLine_of_head? {s rest' : List Char} (h : (takeLine s).2.head? = rest'.head?) :
    takeLine ((takeLine s).1 ++ rest') = ((takeLine s).1, rest') := by
  obtain ⟨htake, hdrop⟩ := takeWhile_of_head? (p := (· ≠ '\n')) (s := s) rfl h
  rw [takeLine, takeLine, htake, hdrop]

/-- What follows is either nothing, before and behind, or something, which then ends the lexeme. -/
lemma eq_nil_or_ne_nil {rest rest' : List Char} (h : rest.head? = rest'.head?) :
    (rest = [] ∧ rest' = []) ∨ rest ≠ [] := by
  cases rest with
  | nil => exact Or.inl ⟨rfl, List.head?_eq_none_iff.mp h.symm⟩
  | cons c rest => exact Or.inr (List.cons_ne_nil c rest)

/-- A second character is the same in front of another rest. -/
lemma eq_cons_of_append {first second rest' t : List Char} {d : Char} (hne : first ≠ [])
    (h : first ++ rest' = d :: t) : ∃ t', first ++ second = d :: t' := by
  obtain ⟨c, first, rfl⟩ := List.exists_cons_of_ne_nil hne
  obtain ⟨rfl, -⟩ := List.cons.inj h
  exact ⟨first ++ second, rfl⟩

lemma takeBlock_fst_ne_nil {s : List Char} (h : (takeBlock s).2 ≠ []) : (takeBlock s).1 ≠ [] := by
  fun_cases takeBlock s with
  | case1 => simp
  | case2 => simp [Split.cons]
  | case3 => exact absurd rfl h

lemma takeBlock_of_ne_nil {s : List Char} (h : (takeBlock s).2 ≠ []) (rest' : List Char) :
    takeBlock ((takeBlock s).1 ++ rest') = ((takeBlock s).1, rest') := by
  fun_induction takeBlock s with
  | case1 rest => rfl
  | case2 c rest hne ih =>
    have hopen : ∀ t, c = '*' → (takeBlock rest).1 ++ rest' = '/' :: t → False := by
      intro t hc ht
      obtain ⟨t', ht'⟩ := eq_cons_of_append (takeBlock_fst_ne_nil h) ht
      exact hne t' hc ((takeBlock_append rest).symm.trans ht')
    show takeBlock (c :: ((takeBlock rest).1 ++ rest')) = _
    rw [takeBlock, ih h]
    · rfl
    · exact hopen
  | case3 => exact absurd rfl h

/-! ### Templates -/

lemma takeNested_fst_ne_nil {nesting : List Nesting} {s : List Char} (hn : nesting ≠ [])
    (h : (takeNested nesting s).2 ≠ []) : (takeNested nesting s).1 ≠ [] := by
  fun_cases takeNested nesting s with
  | case1 => exact absurd rfl hn
  | case2 => exact absurd rfl h
  | _ => simp [Split.cons]

lemma takeNested_nil (nesting : List Nesting) : (takeNested nesting []).2 = [] := by
  cases nesting with
  | nil => rw [takeNested]
  | cons n outer => rw [takeNested]

/-- What is in front of another rest starts with a character that was there before. -/
lemma exists_cons_of_takeNested {nesting : List Nesting} {s rest' t : List Char} {d : Char}
    (hn : nesting ≠ []) (h : (takeNested nesting s).2 ≠ [])
    (ht : (takeNested nesting s).1 ++ rest' = d :: t) : ∃ t', s = d :: t' := by
  obtain ⟨t', ht'⟩ := eq_cons_of_append (takeNested_fst_ne_nil hn h) ht
  exact ⟨t', (takeNested_append nesting s).symm.trans ht'⟩

lemma takeNested_of_ne_nil {nesting : List Nesting} {s : List Char}
    (h : (takeNested nesting s).2 ≠ []) (rest' : List Char) :
    takeNested nesting ((takeNested nesting s).1 ++ rest') =
      ((takeNested nesting s).1, rest') := by
  -- each case is taken again, since its tests look at no more than what is read
  fun_induction takeNested nesting s with
  | case1 => rw [takeNested]; rfl
  | case2 => exact absurd rfl h
  | case3 outer c rest ih =>
    show takeNested _ ('\\' :: c :: ((takeNested _ rest).1 ++ rest')) = _
    rw [takeNested, ih h]
    rfl
  | case4 outer rest ih =>
    show takeNested _ ('$' :: '\x7b' :: ((takeNested _ rest).1 ++ rest')) = _
    rw [takeNested, ih h]
    rfl
  | case5 outer rest _ _ ih =>
    show takeNested _ ('\x60' :: ((takeNested _ rest).1 ++ rest')) = _
    rw [takeNested, if_pos rfl, ih h]
    · rfl
    · simp
    · simp
  | case6 outer c rest hpair hopen hc ih =>
    show takeNested _ (c :: ((takeNested _ rest).1 ++ rest')) = _
    rw [takeNested, if_neg hc, ih h]
    · rfl
    · intro d t hc ht
      obtain ⟨t', ht'⟩ := exists_cons_of_takeNested (by simp) h ht
      exact hpair d t' hc ht'
    · intro t hc ht
      obtain ⟨t', ht'⟩ := exists_cons_of_takeNested (by simp) h ht
      exact hopen t' hc ht'
  | case7 outer rest ih =>
    show takeNested _ ('\x7b' :: ((takeNested _ rest).1 ++ rest')) = _
    rw [takeNested, if_pos rfl, ih h]
    rfl
  | case8 outer rest hc ih =>
    show takeNested _ ('\x7d' :: ((takeNested _ rest).1 ++ rest')) = _
    rw [takeNested, if_neg hc, if_pos rfl, ih h]
    rfl
  | case9 outer rest hopen hclose ih =>
    show takeNested _ ('\x60' :: ((takeNested _ rest).1 ++ rest')) = _
    rw [takeNested, if_neg hopen, if_neg hclose, if_pos rfl, ih h]
    rfl
  | case10 outer c rest hopen hclose hmark hquote ih =>
    show takeNested _ (c :: ((takeNested _ rest).1 ++ rest')) = _
    rw [takeNested, if_neg hopen, if_neg hclose, if_neg hmark, if_pos hquote, ih h]
    rfl
  | case11 outer c rest hopen hclose hmark hquote ih =>
    show takeNested _ (c :: ((takeNested _ rest).1 ++ rest')) = _
    rw [takeNested, if_neg hopen, if_neg hclose, if_neg hmark, if_neg hquote, ih h]
    rfl
  | case12 quote outer c rest ih =>
    show takeNested _ ('\\' :: c :: ((takeNested _ rest).1 ++ rest')) = _
    rw [takeNested, ih h]
    rfl
  | case13 quote outer c rest hpair hstop ih =>
    show takeNested _ (c :: ((takeNested _ rest).1 ++ rest')) = _
    rw [takeNested, if_pos hstop, ih h]
    · rfl
    · intro d t hc _
      cases rest with
      | nil => exact h (takeNested_nil outer)
      | cons e rest => exact hpair e rest hc rfl
  | case14 quote outer c rest hpair hstop ih =>
    show takeNested _ (c :: ((takeNested _ rest).1 ++ rest')) = _
    rw [takeNested, if_neg hstop, ih h]
    · rfl
    · intro d t hc ht
      obtain ⟨t', ht'⟩ := exists_cons_of_takeNested (by simp) h ht
      exact hpair d t' hc ht'

/-! ### Strings -/

lemma takeContent_cons {quote c : Char} {s : List Char}
    (hpair : ∀ d t, c = '\\' → s = d :: t → False) :
    takeContent quote (c :: s) =
      if c = '\n' ∨ c = quote then ([], c :: s) else (takeContent quote s).cons c := by
  rw [takeContent]
  exact hpair

lemma takeContent_of_head? {quote : Char} (hquote : quote ≠ '\\') {s t : List Char}
    (h : (takeContent quote s).2.head? = t.head?) :
    takeContent quote ((takeContent quote s).1 ++ t) = ((takeContent quote s).1, t) := by
  fun_induction takeContent quote s with
  | case1 =>
    obtain rfl : t = [] := List.head?_eq_none_iff.mp h.symm
    rfl
  | case2 c rest ih =>
    show takeContent quote ('\\' :: c :: ((takeContent quote rest).1 ++ t)) = _
    rw [takeContent, ih h]
    rfl
  | case3 c rest hpair hstop =>
    obtain ⟨u, rfl⟩ := List.head?_eq_some_iff.mp h.symm
    rw [List.nil_append, takeContent_cons, if_pos hstop]
    rintro d u rfl -
    rcases hstop with hstop | hstop
    · exact absurd hstop (by decide)
    · exact hquote hstop.symm
  | case4 c rest hpair hstop ih =>
    show takeContent quote (c :: ((takeContent quote rest).1 ++ t)) = _
    rw [takeContent_cons, if_neg hstop, ih h]
    · rfl
    · rintro d u rfl hu
      cases rest with
      | nil =>
        obtain rfl : t = [] := List.head?_eq_none_iff.mp h.symm
        cases hu
      | cons e rest => exact hpair e rest rfl rfl

lemma takeContent_of_fits {quote : Char} {content : List Char} (hquote : quote ≠ '\\')
    (h : Fits quote content) (rest : List Char) :
    takeContent quote (content ++ quote :: rest) = (content, quote :: rest) := by
  induction content with
  | nil =>
    rw [List.nil_append, takeContent_cons, if_pos (Or.inr rfl)]
    intro d t hc
    exact absurd hc hquote
  | cons c content ih =>
    obtain ⟨hbackslash, hline, hne⟩ := h c List.mem_cons_self
    rw [List.cons_append, takeContent_cons, if_neg (not_or.mpr ⟨hline, hne⟩),
      ih fun d hd => h d (List.mem_cons_of_mem c hd)]
    · rfl
    · intro d t hc
      exact absurd hc hbackslash

section TakeString

variable {quote : Char} {s content rest : List Char}

lemma takeString_closed (h : takeContent quote s = (content, quote :: rest)) :
    takeString quote s = (.string quote content true, rest) := by
  rw [takeString, h]
  exact if_pos rfl

lemma takeString_open (h : takeContent quote s = (content, rest))
    (hne : rest.head? ≠ some quote) : takeString quote s = (.string quote content false, rest) := by
  rw [takeString, h]
  cases rest with
  | nil => rfl
  | cons c rest =>
    apply if_neg
    rintro rfl
    exact hne rfl

/-- A closed string is read back in front of any text. -/
lemma takeString_of_closed (hq : isQuote quote = true)
    (h : takeString quote s = (.string quote content true, rest)) (rest' : List Char) :
    takeString quote (content ++ quote :: rest') = (.string quote content true, rest') := by
  have hcontent := takeContent_eq_of_closed h
  have hagain := takeContent_of_head? (ne_backslash_of_isQuote hq) (s := s) (t := quote :: rest')
    (by rw [hcontent]; rfl)
  rw [hcontent] at hagain
  exact takeString_closed hagain

/-- A string is read back in front of any text that starts like what followed it. -/
lemma takeString_of_head? {rest' : List Char} {closed : Bool} (hq : isQuote quote = true)
    (h : takeString quote s = (.string quote content closed, rest))
    (hhead : rest.head? = rest'.head?) :
    takeString quote (content ++ (if closed then [quote] else []) ++ rest') =
      (.string quote content closed, rest') := by
  cases closed with
  | true =>
    rw [if_pos rfl, List.append_assoc]
    exact takeString_of_closed hq h rest'
  | false =>
    obtain ⟨hcontent, hrest⟩ := takeContent_eq_of_open h
    have hagain := takeContent_of_head? (ne_backslash_of_isQuote hq) (s := s) (t := rest')
      (by rw [hcontent, hhead])
    rw [hcontent] at hagain
    rw [if_neg (by decide), List.append_nil]
    apply takeString_open hagain
    rw [← hhead]
    rcases hrest with rfl | hrest
    · nofun
    · rw [hrest]
      exact fun h => ne_newline_of_isQuote hq (Option.some.inj h).symm

end TakeString

/-! ### Any lexeme -/

lemma Reads.of_fits {quote : Char} {content : List Char} (hq : isQuote quote = true)
    (h : Fits quote content) (rest : List Char) :
    Reads ((Lexeme.string quote content true).chars ++ rest) (.string quote content true) rest := by
  have hstring := takeString_closed (takeContent_of_fits (ne_backslash_of_isQuote hq) h rest)
  have hchars : (Lexeme.string quote content true).chars ++ rest =
      quote :: (content ++ quote :: rest) := by
    simp [Lexeme.chars]
  rw [hchars]
  exact .string hq hstring

/-- A lexeme is read back in front of any text that starts like what followed it. -/
lemma Reads.of_head? {s rest rest' : List Char} {l : Lexeme} (h : Reads s l rest)
    (hhead : rest.head? = rest'.head?) : Reads (l.chars ++ rest') l rest' := by
  rcases eq_nil_or_ne_nil hhead with ⟨rfl, rfl⟩ | hne
  · have happend := h.eq_append
    rwa [happend] at h
  · cases h with
    | blank hc => exact .blank hc
    | line t =>
      have hline := takeLine_of_head? hhead
      have h := Reads.line ((takeLine t).1 ++ rest')
      have hchars : '/' :: ((takeLine t).1 ++ rest') = (takeLine ('/' :: t)).1 ++ rest' := rfl
      rw [hchars, hline] at h
      exact h
    | block t =>
      have h := Reads.block ((takeBlock t).1 ++ rest')
      rw [takeBlock_of_ne_nil hne] at h
      exact h
    | @word c t hc =>
      have h := Reads.word (s := (takeWord t).1 ++ rest') hc
      rw [takeWord_of_head? hhead] at h
      exact h
    | @string quote t content _ closed hq h =>
      exact .string hq (takeString_of_head? hq h hhead)
    | template t =>
      have h := Reads.template ((takeTemplate t).1 ++ rest')
      rw [takeTemplate, takeTemplate, takeNested_of_ne_nil hne] at h
      exact h
    | mark hword hquote htemplate hblank hcomment =>
      refine .mark hword hquote htemplate hblank ?_
      intro hslash
      have hnext := hcomment hslash
      rw [hhead] at hnext
      exact hnext

end Script

end AddonBuild
