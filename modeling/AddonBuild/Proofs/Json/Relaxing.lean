import AddonBuild.Proofs.Json.Reading
import Mathlib.Data.List.Chain

/-!
# What the relaxed dialect means

A text of the dialect has the tokens of a JSON text, with blanks and comments between them and with
a comma before some of the closing brackets. What is left of it without comments and trailing commas
has the same tokens with blanks between them, and so the same value, as long as no comment stands
between a trailing comma and its bracket.
-/

namespace AddonBuild

namespace Json.Relaxed

/-! ### The dialect -/

/-- Blanks and comments. A line comment ends with its line, a block comment at its first mark. -/
inductive Trivia : List UInt8 → Prop where
  | nil : Trivia []
  | blank {b : UInt8} {rest : List UInt8} (hb : Json.isBlank b = true) (h : Trivia rest) :
      Trivia (b :: rest)
  | line {content rest : List UInt8} (hcontent : 0x0A ∉ content) (h : Trivia rest) :
      Trivia (0x2F :: 0x2F :: (content ++ 0x0A :: rest))
  | block {content rest : List UInt8} (hcontent : ¬ [0x2A, 0x2F] <:+: content)
      (h : Trivia rest) : Trivia (0x2F :: 0x2A :: (content ++ 0x2A :: 0x2F :: rest))

/-- The tokens that open an array or an object. -/
def IsOpening (t : Token) : Prop :=
  t = [0x5B] ∨ t = [0x7B]

/-- A text of the dialect that has the given tokens. A comma may stand before a closing bracket
whose array or object is not empty, with a `gap` between the two. -/
inductive Spells (gap : List UInt8 → Prop) : Option Token → List Token → List UInt8 → Prop where
  | done {last : Option Token} {t : List UInt8} (h : Trivia t) : Spells gap last [] t
  | token {last : Option Token} {t s : List UInt8} {tok : Token} {rest : List Token}
      (h : Trivia t) (hrest : Spells gap (some tok) rest s) :
      Spells gap last (tok :: rest) (t ++ (tok ++ s))
  | trailing {last : Token} {t g s : List UInt8} {tok : Token} {rest : List Token}
      (hlast : ¬ IsOpening last) (h : Trivia t) (hgap : gap g) (hclose : IsClosing tok)
      (hrest : Spells gap (some tok) rest s) :
      Spells gap (some last) (tok :: rest) (t ++ (0x2C :: (g ++ (tok ++ s))))

/-! ### Stripping piece by piece -/

section Stripping

variable {s : List UInt8}

lemma stripFrom_plain {b : UInt8} (hquote : b ≠ 0x22) (hslash : b ≠ 0x2F) (hcomma : b ≠ 0x2C) :
    stripFrom .plain (b :: s) = b :: stripFrom .plain s := by
  rw [stripFrom]
  · exact hquote
  · exact fun _ h _ => hslash h
  · exact fun _ h _ => hslash h
  · exact hcomma

lemma stripFrom_plain_append {w : List UInt8}
    (hw : ∀ b ∈ w, b ≠ 0x22 ∧ b ≠ 0x2F ∧ b ≠ 0x2C) :
    stripFrom .plain (w ++ s) = w ++ stripFrom .plain s := by
  induction w with
  | nil => rfl
  | cons b w ih =>
    obtain ⟨⟨hquote, hslash, hcomma⟩, hrest⟩ := List.forall_mem_cons.mp hw
    rw [List.cons_append, stripFrom_plain hquote hslash hcomma, ih hrest, List.cons_append]

lemma stripFrom_quote : stripFrom .plain (0x22 :: s) = 0x22 :: stripFrom .string s := rfl

lemma stripFrom_line : stripFrom .plain (0x2F :: 0x2F :: s) = stripFrom .lineComment s := rfl

lemma stripFrom_block : stripFrom .plain (0x2F :: 0x2A :: s) = stripFrom .blockComment s := rfl

lemma stripFrom_mark : stripFrom .plain (0x2C :: s) =
    if closes s then stripFrom .plain s else 0x2C :: stripFrom .plain s := rfl

/-- A string is kept as it is. -/
lemma stripFrom_string {body : List UInt8} (h : Closed body) :
    stripFrom .string (body ++ s) = body ++ stripFrom .plain s := by
  induction h with
  | quote => rfl
  | @escape b rest h ih =>
    have hstrip : stripFrom .string (0x5C :: b :: (rest ++ s)) =
        0x5C :: b :: stripFrom .string (rest ++ s) := rfl
    rw [List.cons_append, List.cons_append, hstrip, ih, List.cons_append, List.cons_append]
  | @plain b rest hquote hslash h ih =>
    rw [List.cons_append, stripFrom, ih, List.cons_append]
    · exact fun _ _ hb _ => hslash hb
    · exact hquote

lemma stripFrom_lineComment {content : List UInt8} (h : 0x0A ∉ content) :
    stripFrom .lineComment (content ++ 0x0A :: s) = 0x0A :: stripFrom .plain s := by
  induction content with
  | nil => rfl
  | cons b content ih =>
    obtain ⟨hb, hrest⟩ := not_or.mp (mt List.mem_cons.mpr h)
    rw [List.cons_append, stripFrom, ih hrest]
    exact fun heq => hb heq.symm

lemma stripFrom_blockComment {content : List UInt8} (h : ¬ [0x2A, 0x2F] <:+: content) :
    stripFrom .blockComment (content ++ 0x2A :: 0x2F :: s) = stripFrom .plain s := by
  induction content with
  | nil => rfl
  | cons b content ih =>
    rw [List.cons_append, stripFrom, ih (mt (·.trans (List.suffix_cons b content).isInfix) h)]
    -- the mark does not end the comment early
    rintro rest rfl hrest
    cases content with
    | nil => cases hrest
    | cons c content =>
      obtain ⟨rfl, -⟩ := List.cons.inj hrest
      exact h (List.prefix_append [0x2A, 0x2F] content).isInfix

lemma ne_of_isBlank {b : UInt8} (h : Json.isBlank b = true) :
    b ≠ 0x22 ∧ b ≠ 0x2F ∧ b ≠ 0x2C := by
  refine ⟨?_, ?_, ?_⟩ <;>
  · rintro rfl
    cases h

/-- Only blanks are left of blanks and comments. -/
lemma Trivia.exists_stripFrom {t : List UInt8} (h : Trivia t) (s : List UInt8) :
    ∃ blanks, (∀ b ∈ blanks, Json.isBlank b = true) ∧
      stripFrom .plain (t ++ s) = blanks ++ stripFrom .plain s := by
  induction h with
  | nil => exact ⟨[], List.forall_mem_nil _, rfl⟩
  | @blank b rest hb h ih =>
    obtain ⟨blanks, hblanks, hstrip⟩ := ih
    obtain ⟨hquote, hslash, hcomma⟩ := ne_of_isBlank hb
    refine ⟨b :: blanks, List.forall_mem_cons.mpr ⟨hb, hblanks⟩, ?_⟩
    rw [List.cons_append, stripFrom_plain hquote hslash hcomma, hstrip, List.cons_append]
  | @line content rest hcontent h ih =>
    obtain ⟨blanks, hblanks, hstrip⟩ := ih
    refine ⟨0x0A :: blanks, List.forall_mem_cons.mpr ⟨rfl, hblanks⟩, ?_⟩
    simp only [List.cons_append, List.append_assoc]
    rw [stripFrom_line, stripFrom_lineComment hcontent, hstrip]
  | @block content rest hcontent h ih =>
    obtain ⟨blanks, hblanks, hstrip⟩ := ih
    refine ⟨blanks, hblanks, ?_⟩
    simp only [List.cons_append, List.append_assoc]
    rw [stripFrom_block, stripFrom_blockComment hcontent, hstrip]

end Stripping

/-! ### Commas -/

lemma isBlank_of_isBlank {b : UInt8} (h : Json.isBlank b = true) : isBlank b = true := by
  have hcases : (!Json.isBlank b || isBlank b) = true :=
    of_not_isWordByte (p := fun b => !Json.isBlank b || isBlank b) rfl (isWordByte_of_isBlank h)
  simpa [h] using hcases

lemma isBlank_of_isWordByte {b : UInt8} (h : isWordByte b = true) : isBlank b = false := by
  have hne {c : UInt8} (hc : isWordByte c = false) : b ≠ c := ne_of_isWordByte h hc
  simp [isBlank, hne (c := 0x20) (by decide), hne (c := 0x09) (by decide),
    hne (c := 0x0A) (by decide), hne (c := 0x0C) (by decide), hne (c := 0x0D) (by decide)]

lemma isBlank_of_isMark {b : UInt8} (h : isMark b = true) : isBlank b = false := by
  have hcases : (!(isMark b && isBlank b)) = true :=
    of_not_isWordByte (p := fun b => !(isMark b && isBlank b)) rfl (isWordByte_of_isMark h)
  simpa [h] using hcases

lemma closes_append {blanks : List UInt8} (h : ∀ b ∈ blanks, isBlank b = true)
    (s : List UInt8) : closes (blanks ++ s) = closes s := by
  rw [closes, closes, List.dropWhile_append_of_pos h]

lemma closes_cons {b : UInt8} (h : isBlank b = false) (s : List UInt8) :
    closes (b :: s) = (b == 0x5D || b == 0x7D) := by
  rw [closes, List.dropWhile_cons_of_neg (by simp [h])]

/-- A comma before a token closes if and only if the token does. -/
lemma closes_token {t : Token} (ht : IsToken t) (s : List UInt8) :
    closes (t ++ s) = true ↔ IsClosing t := by
  cases ht with
  | string h => simp [closes_cons (b := 0x22) rfl, IsClosing]
  | @word b rest h =>
    have hb := h b List.mem_cons_self
    have hne {c : UInt8} (hc : isWordByte c = false) : b ≠ c := ne_of_isWordByte hb hc
    simp [closes_cons (isBlank_of_isWordByte hb), IsClosing, hne (c := 0x5D) (by decide),
      hne (c := 0x7D) (by decide)]
  | @mark b h => simp [closes_cons (isBlank_of_isMark h), IsClosing]

/-- What stands between tokens and begins with no blank begins with a comment. -/
lemma Trivia.closes_append {t : List UInt8} (h : Trivia t) {s : List UInt8}
    (hs : closes s = false) : closes (t ++ s) = false := by
  induction h with
  | nil => exact hs
  | @blank b rest hb h ih =>
    rw [← ih]
    have hblanks : ∀ c ∈ [b], isBlank c = true :=
      List.forall_mem_singleton.mpr (isBlank_of_isBlank hb)
    exact Relaxed.closes_append hblanks (rest ++ s)
  | line | block => exact closes_cons rfl _

lemma stripFrom_comma {s : List UInt8} (h : closes s = false) :
    stripFrom .plain (0x2C :: s) = 0x2C :: stripFrom .plain s := by
  rw [stripFrom_mark, h, if_neg Bool.false_ne_true]

lemma stripFrom_trailing {s : List UInt8} (h : closes s = true) :
    stripFrom .plain (0x2C :: s) = stripFrom .plain s := by
  rw [stripFrom_mark, h, if_pos rfl]

lemma ne_of_isMark {b : UInt8} (h : isMark b = true) : b ≠ 0x22 ∧ b ≠ 0x2F := by
  refine ⟨?_, ?_⟩ <;>
  · rintro rfl
    cases h

/-- Every token is kept, commas between items among them. -/
lemma stripFrom_token {t : Token} (ht : IsToken t) {s : List UInt8}
    (hcomma : t = [0x2C] → closes s = false) :
    stripFrom .plain (t ++ s) = t ++ stripFrom .plain s := by
  cases ht with
  | string h => rw [List.cons_append, stripFrom_quote, stripFrom_string h, List.cons_append]
  | word h =>
    refine stripFrom_plain_append fun b hb => ?_
    exact ⟨ne_of_isWordByte (h b hb), ne_of_isWordByte (h b hb), ne_of_isWordByte (h b hb)⟩
  | @mark b h =>
    by_cases hb : b = 0x2C
    · subst hb
      exact stripFrom_comma (hcomma rfl)
    · obtain ⟨hquote, hslash⟩ := ne_of_isMark h
      exact stripFrom_plain hquote hslash hb

/-! ### Whole texts -/

/-- No bracket follows a comma that stands between two items. -/
lemma Spells.closes_eq_false {gap : List UInt8 → Prop} {toks : List Token} {t : List UInt8}
    (h : Spells gap (some [0x2C]) toks t) (htoks : ∀ t ∈ toks, IsToken t)
    (hnext : ∀ u ∈ toks.head?, ¬ IsClosing u) : closes t = false := by
  cases h with
  | done h =>
    rw [← List.append_nil t]
    exact Trivia.closes_append h rfl
  | token h hrest =>
    refine Trivia.closes_append h (Bool.eq_false_iff.mpr fun hcloses => hnext _ rfl ?_)
    exact (closes_token (htoks _ List.mem_cons_self) _).mp hcloses
  | trailing hlast h hgap hclose hrest => exact absurd hclose (hnext _ rfl)

/-- What is left of a text of the dialect has its tokens, with blanks around them. -/
lemma Spells.spaced {last : Option Token} {toks : List Token} {t : List UInt8}
    (h : Spells (fun g => ∀ b ∈ g, Json.isBlank b = true) last toks t)
    (htoks : ∀ t ∈ toks, IsToken t) (hchain : toks.IsChain fun t u => t = [0x2C] → ¬ IsClosing u) :
    Spaced toks (stripFrom .plain t) := by
  induction h with
  | done h =>
    obtain ⟨blanks, hblanks, hstrip⟩ := h.exists_stripFrom []
    rw [List.append_nil] at hstrip
    have hnil : stripFrom .plain [] = [] := rfl
    rw [hstrip, hnil, List.append_nil]
    exact .done hblanks
  | @token last t s tok rest h hrest ih =>
    obtain ⟨htok, hmore⟩ := List.forall_mem_cons.mp htoks
    obtain ⟨blanks, hblanks, hstrip⟩ := h.exists_stripFrom (tok ++ s)
    rw [hstrip, stripFrom_token htok ?_]
    · exact .token hblanks (ih hmore hchain.tail)
    · rintro rfl
      exact hrest.closes_eq_false hmore fun u hu => hchain.rel_head? hu rfl
  | @trailing last t g s tok rest hlast h hgap hclose hrest ih =>
    obtain ⟨htok, hmore⟩ := List.forall_mem_cons.mp htoks
    obtain ⟨blanks, hblanks, hstrip⟩ := h.exists_stripFrom (0x2C :: (g ++ (tok ++ s)))
    have hcloses : closes (g ++ (tok ++ s)) = true := by
      rw [closes_append fun b hb => isBlank_of_isBlank (hgap b hb)]
      exact (closes_token htok s).mpr hclose
    have hne : tok ≠ [0x2C] := by
      rintro rfl
      rcases hclose with hclose | hclose <;> cases hclose
    rw [hstrip, stripFrom_trailing hcloses,
      stripFrom_plain_append fun b hb => ne_of_isBlank (hgap b hb),
      stripFrom_token htok fun hcomma => absurd hcomma hne, ← List.append_assoc]
    exact .token (List.forall_mem_append.mpr ⟨hblanks, hgap⟩) (ih hmore hchain.tail)

/-- A text of the dialect has the value of the JSON text with its tokens, if only blanks stand
between a trailing comma and its bracket. -/
theorem parse_strip_of_spells {s t : List UInt8} {v : Json} (hparse : parse s = .ok v)
    (ht : Spells (fun g => ∀ b ∈ g, Json.isBlank b = true) none (tokens s) t) :
    parse (strip t) = .ok v := by
  obtain ⟨rest, hrun, hrest⟩ := parse_eq_ok.mp hparse
  have haccepts := accepts_of_run hrun hrest
  exact parse_eq_ok.mpr (haccepts.exists_run (ht.spaced haccepts.isToken haccepts.isChain))

/-- A key that looks like a comment, a comment with a comma and two trailing commas. -/
theorem parse_strip_of_spells_nested :
    parse "\x7b\"//\":[1]\x7d".toUTF8.data.toList =
        .ok (.object [("//", .array [.number (.whole 1)])]) ∧
      parse (strip "\x7b/*,*/\"//\":[1, ],\x7d//\n".toUTF8.data.toList) =
        .ok (.object [("//", .array [.number (.whole 1)])]) := by
  have hparse : parse "\x7b\"//\":[1]\x7d".toUTF8.data.toList =
      .ok (.object [("//", .array [.number (.whole 1)])]) := by
    with_unfolding_all rfl
  have htokens : tokens "\x7b\"//\":[1]\x7d".toUTF8.data.toList =
      [[0x7B], [0x22, 0x2F, 0x2F, 0x22], [0x3A], [0x5B], [0x31], [0x5D], [0x7D]] := by
    with_unfolding_all rfl
  have htext : "\x7b/*,*/\"//\":[1, ],\x7d//\n".toUTF8.data.toList =
      [0x7B, 0x2F, 0x2A, 0x2C, 0x2A, 0x2F, 0x22, 0x2F, 0x2F, 0x22, 0x3A, 0x5B, 0x31, 0x2C, 0x20,
        0x5D, 0x2C, 0x7D, 0x2F, 0x2F, 0x0A] := by
    with_unfolding_all rfl
  have hcomment : Trivia [0x2F, 0x2A, 0x2C, 0x2A, 0x2F] :=
    @Trivia.block [0x2C] [] (by decide) .nil
  have hline : Trivia [0x2F, 0x2F, 0x0A] := @Trivia.line [] [] (by decide) .nil
  refine ⟨hparse, parse_strip_of_spells hparse ?_⟩
  rw [htokens, htext]
  refine .token (t := []) .nil ?_
  refine .token hcomment ?_
  refine .token (t := []) .nil (.token (t := []) .nil (.token (t := []) .nil ?_))
  refine .trailing (t := []) (g := [0x20]) (by simp [IsOpening]) .nil (by simp [Json.isBlank])
    (.inl rfl) ?_
  refine .trailing (t := []) (g := []) (by simp [IsOpening]) .nil (by simp) (.inr rfl) ?_
  exact .done hline

end Json.Relaxed

end AddonBuild
