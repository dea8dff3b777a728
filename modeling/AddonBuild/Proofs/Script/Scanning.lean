import AddonBuild.Proofs.Script.Places

/-!
# The scan finds the specifiers among the pieces

Every step of the scan passes one lexeme, apart from a step at a keyword that has a specifier, which
passes all lexemes up to the end of that specifier. So the scan never leaves the beginnings of
lexemes, and what it finds are the specifiers among the pieces of the script.
-/

namespace AddonBuild

namespace Script

/-! ### Steps of the scan -/

lemma marksFrom_cons (script : Bytes) (c : UInt8) (rest : Bytes) :
    marksFrom script (c :: rest) =
      if startsComment '/'.toUInt8 (c :: rest) then marksFrom script (skipLine rest)
      else if startsComment '*'.toUInt8 (c :: rest) then marksFrom script (skipBlock rest.tail)
      else if isQuoteByte c then marksFrom script (skipString c rest)
      else if c = '\x60'.toUInt8 then marksFrom script (skipTemplate [] 0 rest)
      else if isWordStartByte c then
        match statementAt? (c :: rest.takeWhile isWordByte) (skipWord rest) with
        | some m =>
          if followsDot script (c :: rest) then marksFrom script (skipWord rest)
          else m :: marksFrom script m.rest
        | none => marksFrom script (skipWord rest)
      else marksFrom script rest := by
  rw [marksFrom]
  split_ifs
  · rfl
  · rfl
  · rfl
  · rfl
  · split
    · next h => simp only [h]
    · next h => simp only [h]
  · split
    · next h => simp only [h]
    · next h => simp only [h]
  · rfl

lemma marksFrom_encode {c : Char} (hc : c.toNat < 0x80) {s : List Char}
    (hcomment : c = '/' → s.head? ≠ some '/' ∧ s.head? ≠ some '*') (hword : isWordStart c = false)
    (script : Bytes) :
    marksFrom script (encode (c :: s)) =
      if isQuote c then marksFrom script (skipString c.toUInt8 (encode s))
      else if c = '\x60' then marksFrom script (skipTemplate [] 0 (encode s))
      else marksFrom script (encode s) := by
  have hline := startsComment_of_ne (d := '/') (by decide) fun h => (hcomment h).1
  have hblock := startsComment_of_ne (d := '*') (by decide) fun h => (hcomment h).2
  rw [encode_cons_of_lt hc] at hline hblock ⊢
  rw [marksFrom_cons, if_neg hline, if_neg hblock, isQuoteByte_toUInt8 hc,
    isWordStartByte_toUInt8 hc, hword, if_neg (c := false = true) (by decide)]
  simp only [toUInt8_inj hc (d := '\x60') (by decide)]

lemma marksFrom_line (script : Bytes) (s : List Char) :
    marksFrom script (encode ('/' :: '/' :: s)) =
      marksFrom script (encode (takeLine ('/' :: s)).2) := by
  have hstart := (startsComment_encode (d := '/') (by decide) ('/' :: '/' :: s)).mpr ⟨s, rfl⟩
  rw [← skipLine_encode]
  rw [encode_cons_of_lt (by decide)] at hstart ⊢
  rw [marksFrom_cons, if_pos hstart]

lemma marksFrom_block (script : Bytes) (s : List Char) :
    marksFrom script (encode ('/' :: '*' :: s)) = marksFrom script (encode (takeBlock s).2) := by
  have hstart := (startsComment_encode (d := '*') (by decide) ('/' :: '*' :: s)).mpr ⟨s, rfl⟩
  have hline : ¬ startsComment '/'.toUInt8 (encode ('/' :: '*' :: s)) = true :=
    startsComment_of_ne (by decide) fun _ => by simp
  rw [← skipBlock_encode]
  rw [encode_cons_of_lt (by decide)] at hstart hline ⊢
  rw [marksFrom_cons, if_neg hline, if_pos hstart, encode_cons_of_lt (by decide), List.tail_cons]

lemma Reads.marksFrom_eq {s rest : List Char} {l : Lexeme} (h : Reads s l rest)
    (hl : ∀ chars, l ≠ .word chars) (script : Bytes) :
    marksFrom script (encode s) = marksFrom script (encode rest) := by
  cases h with
  | blank hc =>
    obtain ⟨hword, hquote, htemplate, hslash, -⟩ := not_of_isBlank hc
    rw [marksFrom_encode (toNat_lt_of_isBlank hc) (fun h => absurd h hslash) hword,
      if_neg (by simp [hquote]), if_neg htemplate]
  | line t => exact marksFrom_line script t
  | block t => exact marksFrom_block script t
  | word hc => exact absurd rfl (hl _)
  | string hq h =>
    rw [marksFrom_encode (toNat_lt_of_isQuote hq) (fun h => absurd h (ne_slash_of_isQuote hq))
      (isWordStart_of_isQuote hq), if_pos hq, skipString_encode hq, h]
  | template t =>
    rw [marksFrom_encode (by decide) (fun h => absurd h (by decide)) (by decide),
      if_neg (by decide), if_pos rfl, skipTemplate_encode]
    rfl
  | mark hword hquote htemplate hblank hcomment =>
    have hlt := (Reads.mark hword hquote htemplate hblank hcomment).exists_mark.1
    rw [marksFrom_encode hlt hcomment hword, if_neg (by simp [hquote]), if_neg htemplate]

lemma Reads.marksFrom_word {s rest chars : List Char} (h : Reads s (.word chars) rest)
    (script : Bytes) :
    marksFrom script (encode s) = match statementAt? (encode chars) (encode rest) with
      | some m =>
        if followsDot script (encode s) then marksFrom script (encode rest)
        else m :: marksFrom script m.rest
      | none => marksFrom script (encode rest) := by
  obtain ⟨b, t, hs, hb, hchars, hrest⟩ := h.exists_word
  have hne : b ≠ '\x60'.toUInt8 ∧ b ≠ '/'.toUInt8 :=
    ⟨ne_of_isWordStartByte hb (by decide), ne_of_isWordStartByte hb (by decide)⟩
  have hcomment : ∀ d, ¬ startsComment d (b :: t) = true := by
    intro d
    simp [startsComment, hne.2]
  rw [hs, marksFrom_cons, if_neg (hcomment _), if_neg (hcomment _),
    isQuoteByte_of_isWordStartByte hb, if_neg (c := false = true) (by decide), if_neg hne.1,
    if_pos hb, hchars, hrest]

/-! ### What stands before a word -/

lemma getLast?_cons_eq {c d : Char} {s : List Char} (h : s.getLast? = some d) :
    (c :: s).getLast? = some d := by
  rw [List.getLast?_cons, h]
  rfl

lemma getLast?_takeBlock {s : List Char} (h : (takeBlock s).2 ≠ []) :
    (takeBlock s).1.getLast? = some '/' := by
  fun_induction takeBlock s with
  | case1 => rfl
  | case2 c rest _ ih => exact getLast?_cons_eq (ih h)
  | case3 => exact absurd rfl h

lemma getLast?_of_cons {n : Nesting} {outer : List Nesting}
    (h : (n :: outer).getLast? = some .template) (hn : n ≠ .template) :
    outer.getLast? = some .template := by
  cases outer with
  | nil => exact absurd (Option.some.inj h) hn
  | cons m outer => rwa [List.getLast?_cons_cons] at h

lemma getLast?_takeNested {nesting : List Nesting} {s : List Char}
    (hlast : nesting.getLast? = some .template) (h : (takeNested nesting s).2 ≠ []) :
    (takeNested nesting s).1.getLast? = some '\x60' := by
  fun_induction takeNested nesting s with
  | case1 => cases hlast
  | case2 => exact absurd rfl h
  | case3 outer c rest ih => exact getLast?_cons_eq (getLast?_cons_eq (ih hlast h))
  | case4 outer rest ih => exact getLast?_cons_eq (getLast?_cons_eq (ih hlast h))
  | case5 outer rest _ _ ih =>
    cases outer with
    | nil => rw [takeNested]; rfl
    | cons n outer => exact getLast?_cons_eq (ih (by rwa [List.getLast?_cons_cons] at hlast) h)
  | case6 outer c rest _ _ _ ih => exact getLast?_cons_eq (ih hlast h)
  | case7 outer rest ih => exact getLast?_cons_eq (ih hlast h)
  | case8 outer rest _ ih => exact getLast?_cons_eq (ih (getLast?_of_cons hlast (by decide)) h)
  | case9 outer rest _ _ ih => exact getLast?_cons_eq (ih hlast h)
  | case10 outer c rest _ _ _ _ ih => exact getLast?_cons_eq (ih hlast h)
  | case11 outer c rest _ _ _ _ ih => exact getLast?_cons_eq (ih hlast h)
  | case12 quote outer c rest ih => exact getLast?_cons_eq (getLast?_cons_eq (ih hlast h))
  | case13 quote outer c rest _ _ ih =>
    exact getLast?_cons_eq (ih (getLast?_of_cons hlast (by simp)) h)
  | case14 quote outer c rest _ _ ih => exact getLast?_cons_eq (ih hlast h)

/-- A template that something follows is closed. -/
lemma getLast?_takeTemplate {s : List Char} (h : (takeTemplate s).2 ≠ []) :
    (takeTemplate s).1.getLast? = some '\x60' :=
  getLast?_takeNested rfl h

lemma getLast?_takeWhile_ne {p : Char → Bool} {d : Char} (hd : p d = false) (s : List Char) :
    (s.takeWhile p).getLast? ≠ some d := by
  intro h
  have hp := List.all_eq_true.mp List.all_takeWhile d (List.mem_of_getLast? h)
  rw [hd] at hp
  cases hp

/-- A comment ends where its line or the script ends. -/
lemma takeLine_snd (s : List Char) :
    (takeLine s).2 = [] ∨ (takeLine s).2.head? = some '\n' := by
  have hstop := List.head?_dropWhile_not (· ≠ '\n') s
  rw [takeLine]
  cases hd : s.dropWhile (· ≠ '\n') with
  | nil => exact Or.inl rfl
  | cons c t =>
    rw [hd] at hstop
    exact Or.inr (by simpa using hstop)

/-- Directly before a word, only a dot by itself ends in a dot. -/
lemma Reads.getLast?_eq_dot {s rest : List Char} {l : Lexeme} (h : Reads s l rest)
    (hrest : rest.head?.any isWordStart = true) :
    l.chars.getLast? = some '.' ↔ l = .mark '.' := by
  have hne : rest ≠ [] := by
    rintro rfl
    cases hrest
  have hline : rest.head? ≠ some '\n' := by
    intro hn
    rw [hn] at hrest
    exact absurd hrest (by decide)
  cases h with
  | mark => simp [Lexeme.chars]
  | blank hc => simpa [Lexeme.chars] using (not_of_isBlank hc).2.2.2.2
  | line t =>
    rcases takeLine_snd ('/' :: t) with h | h
    · exact absurd h hne
    · exact absurd h hline
  | block t =>
    have hlast : (Lexeme.comment ('/' :: '*' :: (takeBlock t).1)).chars.getLast? = some '/' :=
      getLast?_cons_eq (getLast?_cons_eq (getLast?_takeBlock hne))
    rw [hlast]
    simp
  | @word c t hc =>
    have hw : isWordChar c = true := by simp [isWordChar, hc]
    have hlast := getLast?_takeWhile_ne (p := isWordChar) (d := '.') (by decide) (c :: t)
    rw [List.takeWhile_cons_of_pos hw] at hlast
    exact iff_of_false hlast (by simp)
  | @string quote t content _ closed hq h =>
    cases closed with
    | true =>
      have hdot : quote ≠ '.' := by
        rintro rfl
        exact absurd hq (by decide)
      simp [Lexeme.chars, List.getLast?_cons, hdot]
    | false =>
      rcases (takeContent_eq_of_open h).2 with h | h
      · exact absurd h hne
      · exact absurd h hline
  | template t =>
    have hlast : (Lexeme.template ('\x60' :: (takeTemplate t).1)).chars.getLast? = some '\x60' :=
      getLast?_cons_eq (getLast?_takeTemplate hne)
    rw [hlast]
    simp

lemma Lexeme.chars_ne_nil {l : Lexeme} {ls : List Lexeme} (h : Lexed (l :: ls)) :
    l.chars ≠ [] := by
  intro hl
  have hlex := h
  rw [Lexed, spelling_cons, hl, List.nil_append, h.tail] at hlex
  exact absurd (congrArg List.length hlex) (by simp)

lemma Reads.isWordStart_head? {s rest chars : List Char} (h : Reads s (.word chars) rest) :
    s.head?.any isWordStart = true := by
  cases h with
  | word hc => exact hc

/-- A dot before what follows a lexeme is the lexeme, if a word follows. -/
lemma Lexed.afterDot_iff {l : Lexeme} {ls : List Lexeme} (h : Lexed (l :: ls))
    (before : List Char) {chars : List Char} {rest : List Lexeme}
    (hword : ls = .word chars :: rest) :
    l = .mark '.' ↔ (before ++ l.chars).getLast? = some '.' := by
  have hrest : (spelling ls).head?.any isWordStart = true := by
    subst hword
    exact h.tail.reads.isWordStart_head?
  rw [← h.reads.getLast?_eq_dot hrest, List.getLast?_append,
    List.getLast?_eq_some_getLast (Lexeme.chars_ne_nil h), Option.some_or]

/-! ### Beginnings of lexemes -/

/-- A place in a script at which a lexeme begins, with the lexemes from there on. Whether a dot
comes before matters only where a word follows. -/
structure Boundary (script before : List Char) (afterDot : Bool) (ls : List Lexeme) : Prop where
  lexed : Lexed ls
  script_eq : script = before ++ spelling ls
  dot : ∀ chars rest, ls = .word chars :: rest →
    (afterDot = true ↔ before.getLast? = some '.')

lemma boundary_lexemesOf (script : List Char) : Boundary script [] false (lexemesOf script) where
  lexed := lexed_lexemesOf script
  script_eq := (spelling_lexemesOf script).symm
  dot := by simp

namespace Boundary

variable {script before chars : List Char} {afterDot : Bool} {l : Lexeme} {ls lead : List Lexeme}

lemma passed (h : Boundary script before afterDot (lead ++ l :: ls)) :
    Boundary script (before ++ spelling lead ++ l.chars) (l = .mark '.') ls := by
  have hlexed : Lexed (l :: ls) := h.lexed.of_append
  refine ⟨hlexed.tail, ?_, ?_⟩
  · rw [h.script_eq, spelling_append, spelling_cons, List.append_assoc, List.append_assoc]
  · intro chars rest hword
    rw [decide_eq_true_eq]
    exact hlexed.afterDot_iff _ hword

lemma next (h : Boundary script before afterDot (l :: ls)) :
    Boundary script (before ++ l.chars) (l = .mark '.') ls := by
  have hnext : Boundary script (before ++ spelling [] ++ l.chars) (l = .mark '.') ls := h.passed
  rwa [spelling_nil, List.append_nil] at hnext

lemma next_word (h : Boundary script before afterDot (.word chars :: ls)) :
    Boundary script (before ++ chars) false ls :=
  h.next

/-- Behind the specifier that is found at a word. -/
lemma found (h : Boundary script before afterDot (.word chars :: ls)) {f : Found}
    (hf : statement? chars ls = some f) :
    Boundary script (before ++ chars ++ spelling f.lead ++ f.specifier.lexeme.chars) false
      f.rest := by
  have hnext := h.next_word
  rw [← statement?_lexemes hf] at hnext
  exact hnext.passed

lemma followsDot_iff (h : Boundary script before afterDot (.word chars :: ls)) :
    followsDot (encode script) (bytesOf (.word chars :: ls)) = true ↔ afterDot = true := by
  rw [h.script_eq, Script.followsDot_iff, h.dot chars ls rfl]

/-- Where nothing is found at a word, or what is found does not count, the word is passed. -/
lemma marksFrom_of_none (h : Boundary script before afterDot (.word chars :: ls))
    (hnone : afterDot = true ∨ statement? chars ls = none) :
    marksFrom (encode script) (bytesOf (.word chars :: ls)) =
      marksFrom (encode script) (bytesOf ls) := by
  refine (h.lexed.reads.marksFrom_word (encode script)).trans ?_
  rw [h.lexed.tail.statementAt?_eq]
  rcases hnone with hdot | hnone
  · cases statement? chars ls with
    | none => rfl
    | some f => exact if_pos (h.followsDot_iff.mpr hdot)
  · rw [hnone]
    rfl

lemma marksFrom_of_some (h : Boundary script before false (.word chars :: ls)) {f : Found}
    (hf : statement? chars ls = some f) :
    marksFrom (encode script) (bytesOf (.word chars :: ls)) =
      f.mark :: marksFrom (encode script) (bytesOf f.rest) := by
  refine (h.lexed.reads.marksFrom_word (encode script)).trans ?_
  rw [h.lexed.tail.statementAt?_eq, hf]
  apply if_neg
  intro hdot
  exact absurd (h.followsDot_iff.mp hdot) (by decide)

lemma span_mark (h : Boundary script before afterDot (.word chars :: ls)) {f : Found}
    (hf : statement? chars ls = some f) :
    f.mark.span (String.ofList script) = f.spanFrom (byteLength before + byteLength chars) := by
  have hnext := h.next_word
  rw [← statement?_lexemes hf] at hnext
  rw [hnext.script_eq, f.span_mark hnext.lexed, byteLength_append]

end Boundary

/-! ### The whole pass -/

lemma Specifier.byteLength_lexeme (s : Specifier) :
    byteLength s.lexeme.chars =
      s.quote.utf8Size + byteLength s.text.toList + s.quote.utf8Size := by
  rw [Specifier.lexeme, Lexeme.chars, if_pos rfl, byteLength, byteLength_append, Nat.add_assoc]
  rfl

lemma spansFrom_map_plain (start : Nat) (lead : List Lexeme) (ps : List Piece) :
    spansFrom start (lead.map .plain ++ ps) =
      spansFrom (start + byteLength (spelling lead)) ps := by
  induction lead generalizing start with
  | nil => rfl
  | cons l lead ih =>
    rw [List.map_cons, List.cons_append, spansFrom, ih, spelling_cons, byteLength_append,
      Nat.add_assoc]

/-- A find among the pieces is a span among the spans. -/
lemma spansFrom_found (start : Nat) (f : Found) (ps : List Piece) :
    spansFrom start (f.lead.map .plain ++ .specifier f.specifier :: ps) =
      f.spanFrom start ::
        spansFrom (start + byteLength (spelling f.lead) + byteLength f.specifier.lexeme.chars)
          ps := by
  rw [spansFrom_map_plain, spansFrom, Specifier.byteLength_lexeme, ← Nat.add_assoc,
    ← Nat.add_assoc]
  rfl

/-- The marks in what is left of a script are the specifiers among its pieces. -/
lemma map_span_marksFrom {script before : List Char} {afterDot : Bool} {ls : List Lexeme}
    (h : Boundary script before afterDot ls) :
    (marksFrom (encode script) (bytesOf ls)).map (Mark.span (String.ofList script)) =
      spansFrom (byteLength before) (piecesFrom afterDot ls) := by
  fun_induction piecesFrom afterDot ls generalizing before with
  | case1 =>
    rw [bytesOf, spelling_nil, encode_nil, marksFrom]
    rfl
  | case2 afterDot chars rest found hfound ih =>
    obtain ⟨rfl, hf⟩ := found_of_ite hfound
    rw [h.marksFrom_of_some hf, List.map_cons, ih (h.found hf), h.span_mark hf, List.cons_append,
      spansFrom, spansFrom_found, byteLength_append, byteLength_append, byteLength_append]
    rfl
  | case3 afterDot chars rest hnone ih =>
    have hstop : afterDot = true ∨ statement? chars rest = none := by
      cases afterDot with
      | true => exact Or.inl rfl
      | false => exact Or.inr hnone
    rw [h.marksFrom_of_none hstop, ih h.next_word, spansFrom, byteLength_append]
    rfl
  | case4 afterDot l rest hword ih =>
    rw [bytesOf, spelling_cons, h.lexed.reads.marksFrom_eq hword, ih h.next, spansFrom,
      byteLength_append]

/-- The scan finds the specifiers among the pieces of a script. -/
lemma scan_eq_spansFrom (source : String) : scan source = spansFrom 0 (pieces source) := by
  have h := map_span_marksFrom (boundary_lexemesOf source.toList)
  rw [bytesOf, spelling_lexemesOf, String.ofList_toList, ← bytes_eq_encode] at h
  exact h

end Script

end AddonBuild
