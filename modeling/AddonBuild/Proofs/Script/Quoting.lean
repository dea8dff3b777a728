import AddonBuild.Proofs.Script.Enclosing
import AddonBuild.Proofs.Script.Rereading

/-!
# Texts between quotes

A text can stand between quotes on one line if every backslash in it takes along a character behind
it and no quote stands alone. Those are the texts that are read back as they were written. A text
that is put together from parts between slashes can be quoted if each of its parts can, where the
last one may not leave a backslash without a character.
-/

namespace AddonBuild

namespace Script

/-- Whether a text can stand between the given quotes on one line. -/
def Quotable (quote : Char) : List Char → Prop
  | [] => True
  | '\\' :: c :: rest => c ≠ '\n' ∧ Quotable quote rest
  | c :: rest => c ≠ '\\' ∧ c ≠ '\n' ∧ c ≠ quote ∧ Quotable quote rest

/-- Whether parts of a text can stand between the given quotes with a slash behind each of them but
the last. -/
def QuotableParts (quote : Char) (parts : List (List Char)) : Prop :=
  (∀ part ∈ parts.dropLast, Quotable quote (part ++ ['/'])) ∧
    ∀ last ∈ parts.getLast?, Quotable quote last

variable {quote : Char} {s t content rest : List Char}

lemma quotable_cons {c : Char} (hc : c ≠ '\\') :
    Quotable quote (c :: s) ↔ c ≠ '\n' ∧ c ≠ quote ∧ Quotable quote s := by
  rw [Quotable.eq_3]
  · exact and_iff_right hc
  · rintro d t rfl
    exact absurd rfl hc

lemma Quotable.of_fits (h : Fits quote s) : Quotable quote s := by
  induction s with
  | nil => trivial
  | cons c s ih =>
    obtain ⟨hbackslash, hline, hquote⟩ := h c List.mem_cons_self
    have hrest := ih fun d hd => h d (List.mem_cons_of_mem c hd)
    exact (quotable_cons hbackslash).mpr ⟨hline, hquote, hrest⟩

lemma fits_append : Fits quote (s ++ t) ↔ Fits quote s ∧ Fits quote t :=
  List.forall_mem_append

/-- The characters that paths and compiled files add to names have nothing to do with quotes. -/
lemma fits_of_added (hq : isQuote quote = true)
    (h : ∀ c ∈ s, c = '/' ∨ c = '.' ∨ c = 'j' ∨ c = 's') : Fits quote s := by
  intro c hc
  obtain rfl | rfl : quote = '"' ∨ quote = '\'' := by simpa [isQuote] using hq
  all_goals obtain rfl | rfl | rfl | rfl := h c hc <;> decide

lemma Fits.slash (hq : isQuote quote = true) (h : Fits quote s) : Fits quote (s ++ ['/']) :=
  fits_append.mpr ⟨h, fits_of_added hq (by simp)⟩

/-! ### Reading back -/

lemma split_cons_eq {c : Char} {p : Split} :
    p.cons c = (c :: s, t) ↔ p = (s, t) := by
  simp [Split.cons, Prod.ext_iff]

/-- What can be quoted is read back, and what is read back on one line could be quoted. -/
lemma quotable_iff (hquote : quote ≠ '\\') : Quotable quote s ↔
    '\n' ∉ s ∧ ∀ rest, takeContent quote (s ++ quote :: rest) = (s, quote :: rest) := by
  fun_induction Quotable quote s with
  | case1 =>
    have hend (rest : List Char) : takeContent quote (quote :: rest) = ([], quote :: rest) := by
      rw [takeContent_cons, if_pos (.inr rfl)]
      intro d t hc
      exact absurd hc hquote
    simpa using hend
  | case2 c s ih =>
    have hpair (rest : List Char) : takeContent quote ('\\' :: c :: (s ++ quote :: rest)) =
        ((takeContent quote (s ++ quote :: rest)).cons c).cons '\\' := by
      rw [takeContent]
    simp only [ih, List.cons_append, hpair, split_cons_eq, List.mem_cons, not_or]
    simp [eq_comm, and_assoc]
  | case3 c s hsingle ih =>
    by_cases hc : c = '\\'
    · -- a backslash at the end takes along the quote
      subst hc
      obtain rfl : s = [] := by
        cases s with
        | nil => rfl
        | cons d s => exact (hsingle d s rfl rfl).elim
      have hopen : takeContent quote ['\\', quote] ≠ (['\\'], [quote]) := by
        rw [takeContent]
        intro h
        cases h
      exact iff_of_false (fun h => h.1 rfl) fun h => hopen (h.2 [])
    · have hstep (rest : List Char) : takeContent quote (c :: (s ++ quote :: rest)) =
          if c = '\n' ∨ c = quote then ([], c :: (s ++ quote :: rest))
          else (takeContent quote (s ++ quote :: rest)).cons c :=
        takeContent_cons fun d t h => absurd h hc
      rw [ih]
      simp only [List.cons_append, hstep]
      by_cases hstop : c = '\n' ∨ c = quote
      · simp only [if_pos hstop]
        refine iff_of_false (fun h => ?_) fun h => ?_
        · exact hstop.elim h.2.1 h.2.2.1
        · cases h.2 []
      · obtain ⟨hline, hne⟩ := not_or.mp hstop
        simp [split_cons_eq, hc, hline, hne, Ne.symm hline]

/-- Whether a text is found between its quotes on one line, whatever comes behind. -/
def ReadsBack (quote : Char) (s : List Char) : Prop :=
  '\n' ∉ s ∧ ∀ kind rest, literalAt? kind (encode (quote :: (s ++ quote :: rest))) =
    some ⟨kind, quote.toUInt8, encode (s ++ quote :: rest), encode rest⟩

/-- What can be quoted is found between its quotes, and nothing else. -/
lemma quotable_iff_readsBack (hq : isQuote quote = true) :
    Quotable quote s ↔ ReadsBack quote s := by
  rw [quotable_iff (ne_backslash_of_isQuote hq), ReadsBack]
  refine and_congr_right fun _ => ?_
  constructor
  · intro h kind rest
    exact (Reads.string hq (takeString_closed (h rest))).literalAt?_string kind
  · intro h rest
    obtain ⟨content, closed, rest', hstring⟩ := exists_takeString_eq quote (s ++ quote :: rest)
    have hfound := h .sideEffect rest
    rw [(Reads.string hq hstring).literalAt?_string] at hfound
    cases closed with
    | false => cases hfound
    | true =>
      rw [if_pos rfl, Option.some.injEq, Mark.mk.injEq] at hfound
      obtain ⟨-, -, hcontent, hrest⟩ := hfound
      obtain rfl := encode_injective hrest
      obtain rfl := List.append_cancel_right (encode_injective hcontent)
      exact takeContent_eq_of_closed hstring

/-- The content of a string without a backslash has nothing to do with its quotes. -/
lemma fits_of_takeContent (h : '\\' ∉ (takeContent quote s).1) :
    Fits quote (takeContent quote s).1 := by
  fun_induction takeContent quote s with
  | case1 => exact List.forall_mem_nil _
  | case2 c rest ih => exact absurd List.mem_cons_self h
  | case3 c rest hpair hstop => exact List.forall_mem_nil _
  | case4 c rest hpair hstop ih =>
    obtain ⟨hc, hrest⟩ := not_or.mp (mt List.mem_cons.mpr h)
    obtain ⟨hline, hne⟩ := not_or.mp hstop
    exact List.forall_mem_cons.mpr ⟨⟨Ne.symm hc, hline, hne⟩, ih hrest⟩

lemma exists_reads_of_mem_spansFrom {start : Nat} {ps : List Piece} {span : Span}
    (hlexed : Lexed (ps.map Piece.lexeme)) (h : span ∈ spansFrom start ps) :
    ∃ s rest, Reads s span.specifier.lexeme rest := by
  induction ps generalizing start with
  | nil => cases h
  | cons p ps ih =>
    cases p with
    | plain l => exact ih hlexed.tail h
    | specifier specifier =>
      rcases List.mem_cons.mp h with rfl | h
      · exact ⟨_, _, hlexed.reads⟩
      · exact ih hlexed.tail h

/-- A specifier without a backslash has nothing to do with the quotes that it stands in. -/
lemma fits_of_mem_scan {contents : String} {span : Span} (h : span ∈ scan contents)
    (hplain : '\\' ∉ span.specifier.text.toList) :
    Fits span.specifier.quote span.specifier.text.toList := by
  rw [scan_eq_spansFrom] at h
  have hlexed : Lexed ((pieces contents).map Piece.lexeme) := by
    rw [pieces, map_lexeme_piecesFrom]
    exact lexed_lexemesOf _
  obtain ⟨s, rest, hreads⟩ := exists_reads_of_mem_spansFrom hlexed h
  cases hreads with
  | @string _ t _ _ _ hq hstring =>
    have hcontent : (takeContent span.specifier.quote t).1 = span.specifier.text.toList :=
      congrArg Prod.fst (takeContent_eq_of_closed hstring)
    rw [← hcontent] at hplain ⊢
    exact fits_of_takeContent hplain

/-! ### Parts between slashes -/

/-- Behind a slash, a text can be quoted regardless of what comes before. -/
lemma quotable_slash (hq : isQuote quote = true) :
    Quotable quote (s ++ '/' :: t) ↔ Quotable quote (s ++ ['/']) ∧ Quotable quote t := by
  have hslash : '/' ≠ quote := by
    rintro rfl
    exact absurd hq (by decide)
  fun_induction Quotable quote s with
  | case1 => simp [quotable_cons, hslash, Quotable]
  | case2 c s ih => simp [Quotable, ih, and_assoc]
  | case3 c s hsingle ih =>
    by_cases hc : c = '\\'
    · -- a backslash at the end takes along the slash
      subst hc
      obtain rfl : s = [] := by
        cases s with
        | nil => rfl
        | cons d s => exact (hsingle d s rfl rfl).elim
      simp [Quotable]
    · simp [quotable_cons hc, ih, and_assoc]

lemma quotableParts_nil : QuotableParts quote [] :=
  ⟨List.forall_mem_nil _, by simp⟩

lemma quotableParts_singleton {last : List Char} :
    QuotableParts quote [last] ↔ Quotable quote last := by
  simp [QuotableParts]

lemma quotableParts_cons_cons {part next : List Char} {parts : List (List Char)} :
    QuotableParts quote (part :: next :: parts) ↔
      Quotable quote (part ++ ['/']) ∧ QuotableParts quote (next :: parts) := by
  rw [QuotableParts, List.dropLast_cons_cons, List.getLast?_cons_cons, List.forall_mem_cons,
    and_assoc]
  rfl

lemma quotable_intercalate (hq : isQuote quote = true) (parts : List (List Char)) :
    Quotable quote (['/'].intercalate parts) ↔ QuotableParts quote parts := by
  induction parts with
  | nil => simp [List.intercalate, Quotable, quotableParts_nil]
  | cons part parts ih =>
    cases parts with
    | nil => simp [List.intercalate, quotableParts_singleton]
    | cons next rest =>
      rw [List.intercalate_cons_cons, List.append_assoc, List.singleton_append, quotable_slash hq,
        ih, quotableParts_cons_cons]

/-- Dots can be quoted wherever they stand. -/
lemma quotableParts_append (hq : isQuote quote = true) {dots parts : List (List Char)}
    (hdots : ∀ part ∈ dots, ∀ c ∈ part, c = '.') :
    QuotableParts quote (dots ++ parts) ↔ QuotableParts quote parts := by
  induction dots with
  | nil => rfl
  | cons part dots ih =>
    obtain ⟨hpart, hdots⟩ := List.forall_mem_cons.mp hdots
    have hfits : Fits quote part := fits_of_added hq fun c hc => .inr (.inl (hpart c hc))
    have hslash : Quotable quote (part ++ ['/']) := .of_fits (hfits.slash hq)
    refine Iff.trans ?_ (ih hdots)
    rw [List.cons_append]
    cases dots ++ parts with
    | nil => simp [quotableParts_singleton, quotableParts_nil, Quotable.of_fits hfits]
    | cons next rest => simp [quotableParts_cons_cons, hslash]

/-- Parts that have nothing to do with quotes can be quoted together. -/
lemma quotableParts_of_fits (hq : isQuote quote = true) {parts : List (List Char)}
    (h : ∀ part ∈ parts, Fits quote part) : QuotableParts quote parts :=
  ⟨fun part hpart => .of_fits ((h part (List.dropLast_subset _ hpart)).slash hq),
    fun last hlast => .of_fits (h last (List.mem_of_getLast? hlast))⟩

end Script

end AddonBuild
