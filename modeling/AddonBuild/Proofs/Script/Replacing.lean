import AddonBuild.Proofs.Script.Rereading
import AddonBuild.Proofs.Script.Scanning
import AddonBuild.Proofs.Script.Skeleton
import Mathlib.Algebra.Ring.Int.Defs

/-!
# Other texts for the specifiers of a script

A script in which every specifier has got another text that fits its quotes is read as the same
pieces with the other texts, and its specifiers are found in the same order, at places that differ
by as much as the texts before them do.
-/

namespace AddonBuild

namespace Script

/-- A specifier with the text that it is given. -/
def Specifier.replace (text : Specifier → String) (s : Specifier) : Specifier :=
  { s with text := text s }

/-- A piece with the text that its specifier is given. -/
def Piece.replace (text : Specifier → String) : Piece → Piece
  | .plain l => .plain l
  | .specifier s => .specifier (s.replace text)

/-- Texts that can stand in place of the specifiers of a script. -/
def Replaces (text : Specifier → String) (ps : List Piece) : Prop :=
  ∀ s, .specifier s ∈ ps → text s = s.text ∨ Fits s.quote (text s).toList

section Replace

variable {text : Specifier → String}

lemma Piece.skeleton_replace (p : Piece) : (p.replace text).skeleton = p.skeleton := by
  cases p <;> rfl

lemma map_skeleton_replace (ps : List Piece) :
    (ps.map (Piece.replace text)).map Piece.skeleton = ps.map Piece.skeleton := by
  rw [List.map_map]
  exact List.map_congr_left fun p _ => p.skeleton_replace

lemma Replaces.tail {p : Piece} {ps : List Piece} (h : Replaces text (p :: ps)) :
    Replaces text ps :=
  fun s hs => h s (List.mem_cons_of_mem p hs)

lemma textOf_eq_ofList (ps : List Piece) :
    textOf ps = String.ofList (spelling (ps.map Piece.lexeme)) := by
  rw [textOf, spelling, List.flatMap_map]

/-! ### The same pieces -/

lemma Piece.head?_replace {p : Piece} {ls : List Lexeme} (h : Lexed (p.lexeme :: ls))
    (s t : List Char) :
    (p.lexeme.chars ++ s).head? = ((p.replace text).lexeme.chars ++ t).head? := by
  cases p with
  | plain l =>
    obtain ⟨c, chars, hc⟩ := List.exists_cons_of_ne_nil (Lexeme.chars_ne_nil h)
    rw [Piece.replace, hc]
    rfl
  | specifier s => rfl

lemma head?_spelling_replace (text : Specifier → String) {ps : List Piece}
    (h : Lexed (ps.map Piece.lexeme)) :
    (spelling (ps.map Piece.lexeme)).head? =
      (spelling ((ps.map (Piece.replace text)).map Piece.lexeme)).head? := by
  cases ps with
  | nil => rfl
  | cons p ps => exact Piece.head?_replace h _ _

/-- Other texts do not change where lexemes end. -/
lemma Lexed.replace {ps : List Piece} (h : Lexed (ps.map Piece.lexeme))
    (htext : Replaces text ps) : Lexed ((ps.map (Piece.replace text)).map Piece.lexeme) := by
  induction ps with
  | nil => exact h
  | cons p ps ih =>
    refine lexed_cons_iff.mpr ⟨?_, ih h.tail htext.tail⟩
    have hhead := head?_spelling_replace text h.tail
    cases p with
    | plain l => exact h.reads.of_head? hhead
    | specifier s =>
      have hread := h.reads
      rcases htext s List.mem_cons_self with heq | hfits
      · have hs : s.replace text = s := by rw [Specifier.replace, heq]
        rw [Piece.replace, hs]
        exact hread.of_head? hhead
      · exact Reads.of_fits hread.isQuote_string hfits _

lemma lexed_pieces (source : String) : Lexed ((pieces source).map Piece.lexeme) := by
  rw [pieces, map_lexeme_piecesFrom]
  exact lexed_lexemesOf source.toList

/-- The pieces of a script with other texts are its pieces with the other texts. -/
theorem pieces_textOf_replace {source : String} (htext : Replaces text (pieces source)) :
    pieces (textOf ((pieces source).map (Piece.replace text))) =
      (pieces source).map (Piece.replace text) := by
  have hlexed := (lexed_pieces source).replace htext
  have hlexemes : lexemes (textOf ((pieces source).map (Piece.replace text))) =
      ((pieces source).map (Piece.replace text)).map Piece.lexeme := by
    rw [lexemes, textOf_eq_ofList, String.toList_ofList]
    exact hlexed
  apply pieces_eq_of_skeleton_eq
  · rw [pieces, ← piecesFrom_skeleton, hlexemes, map_skeleton_lexeme, map_skeleton_replace,
      ← map_skeleton_lexeme, piecesFrom_skeleton, pieces, map_lexeme_piecesFrom]
  · rw [pieces, map_lexeme_piecesFrom, hlexemes]

/-! ### Specifiers at other places -/

/-- By how many bytes the text of a specifier has grown. -/
def Span.growth (old new : Span) : Int :=
  new.specifier.text.utf8ByteSize - old.specifier.text.utf8ByteSize

lemma map_specifier_spansFrom_replace (text : Specifier → String) (start start' : Nat)
    (ps : List Piece) :
    (spansFrom start' (ps.map (Piece.replace text))).map Span.specifier =
      (spansFrom start ps).map fun span => span.specifier.replace text := by
  induction ps generalizing start start' with
  | nil => rfl
  | cons p ps ih =>
    cases p with
    | plain l => exact ih _ _
    | specifier s => exact congrArg (s.replace text :: ·) (ih _ _)

/-- A specifier starts as much later as the texts before it have grown. -/
lemma start_spansFrom_replace {start start' k : Nat} {ps : List Piece} {old new : Span}
    (hold : (spansFrom start ps)[k]? = some old)
    (hnew : (spansFrom start' (ps.map (Piece.replace text)))[k]? = some new) :
    (new.start : Int) - start' = old.start - start +
      ((List.zipWith Span.growth (spansFrom start ps)
        (spansFrom start' (ps.map (Piece.replace text)))).take k).sum := by
  induction ps generalizing start start' k with
  | nil => cases hold
  | cons p ps ih =>
    cases p with
    | plain l =>
      have ih := ih hold hnew
      rw [List.map_cons, Piece.replace, spansFrom, spansFrom]
      omega
    | specifier s =>
      rw [List.map_cons, Piece.replace, spansFrom, spansFrom] at *
      cases k with
      | zero =>
        cases hold
        cases hnew
        rw [List.take_zero, List.sum_nil]
        show ((start' + s.quote.utf8Size : Nat) : Int) - start' =
          ((start + s.quote.utf8Size : Nat) : Int) - start + 0
        omega
      | succ k =>
        have ih := ih hold hnew
        rw [List.zipWith_cons_cons, List.take_succ_cons, List.sum_cons]
        simp only [Span.growth, utf8ByteSize_eq]
        simp only [Specifier.replace] at ih ⊢
        omega

/-- A specifier among pieces has its place. -/
lemma exists_mem_spansFrom (start : Nat) {ps : List Piece} {s : Specifier}
    (h : .specifier s ∈ ps) : ∃ span ∈ spansFrom start ps, span.specifier = s := by
  induction ps generalizing start with
  | nil => cases h
  | cons p ps ih =>
    cases p with
    | plain l =>
      rw [List.mem_cons, or_iff_right nofun] at h
      exact ih _ h
    | specifier t =>
      rcases List.mem_cons.mp h with heq | h
      · cases heq
        exact ⟨_, List.mem_cons_self, rfl⟩
      · obtain ⟨span, hmem, hspan⟩ := ih _ h
        exact ⟨span, List.mem_cons_of_mem _ hmem, hspan⟩

end Replace

end Script

end AddonBuild
