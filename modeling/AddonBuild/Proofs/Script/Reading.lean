import AddonBuild.Proofs.Script.Encoding
import Mathlib.Tactic.SplitIfs

/-!
# Lexemes one at a time

What reading one lexeme can do, with a case for each form of lexeme, and lists of lexemes that are
read back from how they are spelled. Every list of lexemes of a script is one, and so is what is
left of it after some lexemes.
-/

namespace AddonBuild

namespace Script

/-! ### Strings -/

lemma toNat_lt_of_isQuote {c : Char} (h : isQuote c = true) : c.toNat < 0x80 := by
  simp only [isQuote, Bool.or_eq_true, decide_eq_true_eq] at h
  obtain rfl | rfl := h <;> decide

lemma ne_newline_of_isQuote {c : Char} (h : isQuote c = true) : c ≠ '\n' := by
  rintro rfl
  exact absurd h (by decide)

lemma ne_backslash_of_isQuote {c : Char} (h : isQuote c = true) : c ≠ '\\' := by
  rintro rfl
  exact absurd h (by decide)

/-- What is left of a string's content is nothing, the closing quote or the end of the line. -/
lemma eq_of_takeContent_eq {quote c : Char} {s rest : List Char}
    (h : (takeContent quote s).2 = c :: rest) : c = '\n' ∨ c = quote := by
  fun_induction takeContent quote s with
  | case1 => cases h
  | case2 _ _ ih => exact ih h
  | case3 d t _ hd =>
    cases h
    exact hd
  | case4 _ _ _ _ ih => exact ih h

lemma exists_takeString_eq (quote : Char) (s : List Char) :
    ∃ content closed rest, takeString quote s = (.string quote content closed, rest) := by
  unfold takeString
  split
  · exact ⟨_, _, _, rfl⟩
  · split <;> exact ⟨_, _, _, rfl⟩

section TakeString

variable {quote : Char} {s content rest : List Char}

lemma takeContent_eq_of_closed (h : takeString quote s = (.string quote content true, rest)) :
    takeContent quote s = (content, quote :: rest) := by
  rw [takeString] at h
  generalize takeContent quote s = p at h ⊢
  obtain ⟨first, second⟩ := p
  cases second with
  | nil => cases h
  | cons c second =>
    by_cases hc : c = quote
    · simp only [if_pos hc] at h
      cases h
      rw [hc]
    · simp only [if_neg hc] at h
      cases h

/-- A string that is not closed ends where its line or the script ends. -/
lemma takeContent_eq_of_open (h : takeString quote s = (.string quote content false, rest)) :
    takeContent quote s = (content, rest) ∧ (rest = [] ∨ rest.head? = some '\n') := by
  have hstop : ∀ c t, (takeContent quote s).2 = c :: t → c = '\n' ∨ c = quote := by
    intro c t
    exact eq_of_takeContent_eq
  rw [takeString] at h
  generalize takeContent quote s = p at h hstop ⊢
  obtain ⟨first, second⟩ := p
  cases second with
  | nil =>
    cases h
    exact ⟨rfl, Or.inl rfl⟩
  | cons c second =>
    by_cases hc : c = quote
    · simp only [if_pos hc] at h
      cases h
    · simp only [if_neg hc] at h
      cases h
      have hline := (hstop c _ rfl).resolve_right hc
      exact ⟨rfl, Or.inr (congrArg some hline)⟩

end TakeString

/-! ### One lexeme -/

/-- The first lexeme of a text, and what follows it. -/
inductive Reads : List Char → Lexeme → List Char → Prop where
  | blank {c : Char} {s : List Char} (hc : isBlank c = true) : Reads (c :: s) (.blank c) s
  | line (s : List Char) :
    Reads ('/' :: '/' :: s) (.comment ('/' :: (takeLine ('/' :: s)).1)) (takeLine ('/' :: s)).2
  | block (s : List Char) :
    Reads ('/' :: '*' :: s) (.comment ('/' :: '*' :: (takeBlock s).1)) (takeBlock s).2
  | word {c : Char} {s : List Char} (hc : isWordStart c = true) :
    Reads (c :: s) (.word (c :: (takeWord s).1)) (takeWord s).2
  | string {quote : Char} {s content rest : List Char} {closed : Bool} (hq : isQuote quote = true)
    (h : takeString quote s = (.string quote content closed, rest)) :
    Reads (quote :: s) (.string quote content closed) rest
  | template (s : List Char) :
    Reads ('\x60' :: s) (.template ('\x60' :: (takeTemplate s).1)) (takeTemplate s).2
  | mark {c : Char} {s : List Char} (hword : isWordStart c = false) (hquote : isQuote c = false)
    (htemplate : c ≠ '\x60') (hblank : isBlank c = false)
    (hcomment : c = '/' → s.head? ≠ some '/' ∧ s.head? ≠ some '*') : Reads (c :: s) (.mark c) s

lemma reads_takeSlash (s : List Char) : Reads ('/' :: s) (takeSlash s).1 (takeSlash s).2 := by
  unfold takeSlash
  split
  · exact .line _
  · exact .block _
  · next hline hblock =>
    refine .mark (by decide) (by decide) (by decide) (by decide) fun _ => ⟨?_, ?_⟩
    · intro h
      obtain ⟨t, rfl⟩ := List.head?_eq_some_iff.mp h
      exact hline t rfl
    · intro h
      obtain ⟨t, rfl⟩ := List.head?_eq_some_iff.mp h
      exact hblock t rfl

lemma reads_takeLexeme (c : Char) (s : List Char) :
    Reads (c :: s) (takeLexeme c s).1 (takeLexeme c s).2 := by
  unfold takeLexeme
  split_ifs with hword hquote htemplate hslash hblank
  · exact .word hword
  · obtain ⟨content, closed, rest, h⟩ := exists_takeString_eq c s
    rw [h]
    exact .string hquote h
  · rw [htemplate]
    exact .template s
  · rw [hslash]
    exact reads_takeSlash s
  · exact .blank hblank
  · exact .mark (by simpa using hword) (by simpa using hquote) htemplate (by simpa using hblank)
      fun h => absurd h hslash

lemma isWordStart_of_isQuote {c : Char} (h : isQuote c = true) : isWordStart c = false := by
  simp only [isQuote, Bool.or_eq_true, decide_eq_true_eq] at h
  obtain rfl | rfl := h <;> decide

/-- A blank is of no other class. -/
lemma not_of_isBlank {c : Char} (h : isBlank c = true) :
    isWordStart c = false ∧ isQuote c = false ∧ c ≠ '\x60' ∧ c ≠ '/' ∧ c ≠ '.' := by
  simp only [isBlank, Bool.or_eq_true, decide_eq_true_eq] at h
  obtain (((rfl | rfl) | rfl) | rfl) | rfl := h <;> decide

/-- Reading leaves no choice. -/
lemma Reads.takeLexeme_eq {c : Char} {s rest : List Char} {l : Lexeme} (h : Reads (c :: s) l rest) :
    takeLexeme c s = (l, rest) := by
  cases h with
  | blank hc =>
    obtain ⟨hword, hquote, htemplate, hslash, -⟩ := not_of_isBlank hc
    simp [takeLexeme, hc, hword, hquote, htemplate, hslash]
  | line t => rfl
  | block t => rfl
  | word hc => simp [takeLexeme, hc]
  | string hq h => simp [takeLexeme, isWordStart_of_isQuote hq, hq, h]
  | template t => rfl
  | mark hword hquote htemplate hblank hcomment =>
    by_cases hslash : c = '/'
    · obtain ⟨hline, hblock⟩ := hcomment hslash
      subst hslash
      have : takeSlash s = (.mark '/', s) := by
        unfold takeSlash
        split
        · exact absurd rfl hline
        · exact absurd rfl hblock
        · rfl
      simpa [takeLexeme, hword, hquote] using this
    · simp [takeLexeme, hword, hquote, htemplate, hblank, hslash]

lemma Reads.exists_cons {s rest : List Char} {l : Lexeme} (h : Reads s l rest) :
    ∃ c t, s = c :: t := by
  cases h <;> exact ⟨_, _, rfl⟩

lemma Reads.eq_append {s rest : List Char} {l : Lexeme} (h : Reads s l rest) :
    s = l.chars ++ rest := by
  cases h with
  | blank | mark => rfl
  | line t => exact congrArg _ (takeLine_append ('/' :: t)).symm
  | block t => exact congrArg (fun u => '/' :: '*' :: u) (takeBlock_append t).symm
  | word => exact congrArg _ (takeWord_append _).symm
  | string _ h =>
    rw [← takeString_append, h]
  | template t => exact congrArg _ (takeTemplate_append t).symm

/-! ### Lists of lexemes -/

/-- The text that a list of lexemes is spelled as. -/
def spelling (ls : List Lexeme) : List Char :=
  ls.flatMap Lexeme.chars

@[simp] lemma spelling_nil : spelling [] = [] := rfl

@[simp] lemma spelling_cons (l : Lexeme) (ls : List Lexeme) :
    spelling (l :: ls) = l.chars ++ spelling ls := rfl

@[simp] lemma spelling_append (ls ms : List Lexeme) :
    spelling (ls ++ ms) = spelling ls ++ spelling ms :=
  List.flatMap_append

lemma spelling_lexemesOf (s : List Char) : spelling (lexemesOf s) = s :=
  flatMap_chars_lexemesOf s

/-- A list of lexemes that is read back from its spelling. -/
def Lexed (ls : List Lexeme) : Prop :=
  lexemesOf (spelling ls) = ls

lemma lexed_lexemesOf (s : List Char) : Lexed (lexemesOf s) := by
  rw [Lexed, spelling_lexemesOf]

lemma lexed_cons_iff {l : Lexeme} {ls : List Lexeme} :
    Lexed (l :: ls) ↔ Reads (spelling (l :: ls)) l (spelling ls) ∧ Lexed ls := by
  constructor
  · intro h
    cases hs : spelling (l :: ls) with
    | nil => rw [Lexed, hs, lexemesOf] at h; cases h
    | cons c t =>
      have h : lexemesOf (c :: t) = l :: ls := hs ▸ h
      rw [lexemesOf] at h
      obtain ⟨hl, hls⟩ := List.cons.inj h
      have hrest : spelling ls = (takeLexeme c t).2 := by rw [← hls, spelling_lexemesOf]
      rw [hrest, ← hl]
      refine ⟨reads_takeLexeme c t, ?_⟩
      rw [Lexed, hrest, hls]
  · rintro ⟨h, hls⟩
    obtain ⟨c, t, hs⟩ := h.exists_cons
    rw [hs] at h
    rw [Lexed, hs, lexemesOf, h.takeLexeme_eq, hls]

lemma Lexed.tail {l : Lexeme} {ls : List Lexeme} (h : Lexed (l :: ls)) : Lexed ls :=
  (lexed_cons_iff.mp h).2

lemma Lexed.reads {l : Lexeme} {ls : List Lexeme} (h : Lexed (l :: ls)) :
    Reads (l.chars ++ spelling ls) l (spelling ls) :=
  (lexed_cons_iff.mp h).1

lemma Lexed.of_append {ls ms : List Lexeme} (h : Lexed (ls ++ ms)) : Lexed ms := by
  induction ls with
  | nil => exact h
  | cons l ls ih => exact ih h.tail

end Script

end AddonBuild
