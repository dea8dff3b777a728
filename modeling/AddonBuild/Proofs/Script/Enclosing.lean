import AddonBuild.Proofs.Script.Scanning

/-!
# Specifiers between their quotes

A scan finds specifiers in order, and each of them stands between two quotes on one line. So the
bytes of a specifier are whole characters, there is at least one byte on either side of them, and
no two specifiers share a byte.
-/

namespace AddonBuild

namespace Script

/-- Where a specifier stands in a script: between its quotes, on the boundaries of characters. -/
structure Span.IsEnclosed (contents : String) (span : Span) : Prop where
  pos : 0 < span.start
  le : span.start ≤ span.stop
  lt : span.stop < contents.utf8ByteSize
  start_isValid : (⟨span.start⟩ : String.Pos.Raw).IsValid contents
  stop_isValid : (⟨span.stop⟩ : String.Pos.Raw).IsValid contents
  isQuote : isQuote span.specifier.quote = true
  opening : (bytes contents)[span.start - 1]? = some span.specifier.quote.toUInt8
  closing : (bytes contents)[span.stop]? = some span.specifier.quote.toUInt8
  text : bytes span.specifier.text = ((bytes contents).take span.stop).drop span.start

lemma utf8Size_of_isQuote {c : Char} (h : isQuote c = true) : c.utf8Size = 1 := by
  obtain rfl | rfl : c = '"' ∨ c = '\'' := by simpa [isQuote] using h
  · rfl
  · rfl

/-- A specifier is enclosed where a script is cut at its quotes. -/
lemma isEnclosed_of_cut {contents : String} {lead trail : List Char} {s : Specifier}
    (hquote : isQuote s.quote = true)
    (h : contents.toList = lead ++ s.quote :: (s.text.toList ++ s.quote :: trail)) :
    Span.IsEnclosed contents ⟨byteLength lead + s.quote.utf8Size,
      byteLength lead + s.quote.utf8Size + byteLength s.text.toList, s⟩ := by
  have hascii := toNat_lt_of_isQuote hquote
  have hbytes : bytes contents = (encode lead ++ [s.quote.toUInt8]) ++ encode s.text.toList ++
      s.quote.toUInt8 :: encode trail := by
    simp [bytes_eq_encode, h, encode_cons_of_lt hascii]
  have hstart : byteLength lead + s.quote.utf8Size = (encode lead ++ [s.quote.toUInt8]).length := by
    simp [utf8Size_of_isQuote hquote, length_encode]
  have hstop : byteLength lead + s.quote.utf8Size + byteLength s.text.toList =
      ((encode lead ++ [s.quote.toUInt8]) ++ encode s.text.toList).length := by
    rw [List.length_append, ← hstart, length_encode]
  constructor <;> dsimp only
  case pos => simp [hstart]
  case le => simp
  case lt =>
    rw [← length_bytes, hbytes, hstop]
    simp
  case start_isValid =>
    have hvalid : String.Pos.Raw.IsValid contents _ :=
      isValid_byteLength (lead ++ [s.quote]) (s.text.toList ++ s.quote :: trail) (by simp [h])
    rwa [byteLength_append] at hvalid
  case stop_isValid =>
    have hvalid : String.Pos.Raw.IsValid contents _ :=
      isValid_byteLength (lead ++ [s.quote] ++ s.text.toList) (s.quote :: trail) (by simp [h])
    rwa [byteLength_append, byteLength_append] at hvalid
  case isQuote => exact hquote
  case opening => simp [hbytes, hstart]
  case closing =>
    rw [hbytes, hstop, List.getElem?_append_right (Nat.le_refl _), Nat.sub_self,
      List.getElem?_cons_zero]
  case text =>
    rw [hbytes, hstop, hstart, List.take_left, List.drop_left, bytes_eq_encode]

/-! ### All of the specifiers -/

/-- A specifier among the pieces of a script is enclosed. -/
lemma isEnclosed_of_mem_spansFrom {contents : String} {before : List Char} {ps : List Piece}
    (hlexed : Lexed (ps.map Piece.lexeme))
    (h : contents.toList = before ++ spelling (ps.map Piece.lexeme)) {span : Span}
    (hspan : span ∈ spansFrom (byteLength before) ps) : span.IsEnclosed contents := by
  induction ps generalizing before with
  | nil => cases hspan
  | cons p ps ih =>
    cases p with
    | plain l =>
      rw [spansFrom, ← byteLength_append] at hspan
      exact ih hlexed.tail (by simp [h, Piece.lexeme]) hspan
    | specifier s =>
      have hquote : isQuote s.quote = true := hlexed.reads.isQuote_string
      have hcut : contents.toList = before ++
          s.quote :: (s.text.toList ++ s.quote :: spelling (ps.map Piece.lexeme)) := by
        simp [h, Piece.lexeme, Specifier.lexeme, Lexeme.chars]
      rcases List.mem_cons.mp hspan with rfl | hspan
      · exact isEnclosed_of_cut hquote hcut
      · have hnext : byteLength before + s.quote.utf8Size + byteLength s.text.toList +
            s.quote.utf8Size = byteLength (before ++ s.quote :: s.text.toList ++ [s.quote]) := by
          simp only [byteLength_append, byteLength]
          omega
        rw [hnext] at hspan
        exact ih hlexed.tail (by simp [hcut]) hspan

/-- Specifiers lie behind the place from which they are counted. -/
lemma lt_start_of_mem_spansFrom {start : Nat} {ps : List Piece} {span : Span}
    (h : span ∈ spansFrom start ps) : start < span.start := by
  induction ps generalizing start with
  | nil => cases h
  | cons p ps ih =>
    cases p with
    | plain l => exact Nat.lt_of_le_of_lt (Nat.le_add_right _ _) (ih h)
    | specifier s =>
      have hpos := s.quote.utf8Size_pos
      rcases List.mem_cons.mp h with rfl | h
      · dsimp only
        omega
      · have := ih h
        omega

lemma pairwise_spansFrom (start : Nat) (ps : List Piece) :
    (spansFrom start ps).Pairwise fun first second => first.stop < second.start := by
  induction ps generalizing start with
  | nil => exact .nil
  | cons p ps ih =>
    cases p with
    | plain l => exact ih _
    | specifier s =>
      refine List.pairwise_cons.mpr ⟨?_, ih _⟩
      intro span hspan
      exact Nat.lt_of_le_of_lt (Nat.le_add_right _ _) (lt_start_of_mem_spansFrom hspan)

/-- The specifiers that a scan finds are enclosed by their quotes. -/
lemma isEnclosed_of_mem_scan {contents : String} {span : Span} (h : span ∈ scan contents) :
    span.IsEnclosed contents := by
  rw [scan_eq_spansFrom] at h
  have hlexed : Lexed ((pieces contents).map Piece.lexeme) := by
    rw [pieces, map_lexeme_piecesFrom]
    exact lexed_lexemesOf _
  have hspelled : contents.toList = [] ++ spelling ((pieces contents).map Piece.lexeme) := by
    rw [pieces, map_lexeme_piecesFrom, lexemes, spelling_lexemesOf, List.nil_append]
  exact isEnclosed_of_mem_spansFrom hlexed hspelled h

/-- Between two specifiers of a scan is at least one byte. -/
lemma pairwise_scan (contents : String) :
    (scan contents).Pairwise fun first second => first.stop < second.start := by
  rw [scan_eq_spansFrom]
  exact pairwise_spansFrom 0 _

end Script

end AddonBuild
