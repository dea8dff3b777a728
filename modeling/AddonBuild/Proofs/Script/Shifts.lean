import AddonBuild.Proofs.Script.Statements

/-!
# Statements of tokens that have moved

Where the tokens of a script are does not matter for the specifiers they tell, only their order
does. Every step of the search commutes with a change of places that keeps the order, so when the
tokens of one script are those of another one at other places, the specifiers are the same at other
places. Blanks and comments may come or go.
-/

namespace AddonBuild

namespace Script

/-- A span of which both ends have moved. -/
def Span.move (move : Nat → Nat) (s : Span) : Span :=
  ⟨move s.start, move s.stop, s.specifier⟩

/-- A word that a statement starts with. -/
def Lexeme.IsKeyword (l : Lexeme) : Prop :=
  l = .word importWord ∨ l = .word exportWord

/-- Whether a dot is the byte before a token. -/
def Token.AfterDot (script : Bytes) (t : Token) : Prop :=
  0 < t.start ∧ script[t.start - 1]? = some '.'.toUInt8

/-- A token of one script and what it is in another one, where it stands at another place. A string
that is not closed may have another content. -/
structure Moved (move : Nat → Nat) (script script' : Bytes) (t t' : Token) : Prop where
  start : t'.start = move t.start
  lexeme : t'.lexeme = t.lexeme ∨ t.lexeme.isString = true ∧ t'.lexeme.isString = true
  span : ∀ kind, t'.span? kind = (t.span? kind).map (Span.move move)
  afterDot : t.lexeme.IsKeyword → (t'.AfterDot script' ↔ t.AfterDot script)

section Moved

variable {move : Nat → Nat} {script script' : Bytes} {t t' : Token} {ts ts' : List Token}

/-! ### Looking ahead -/

lemma Lexeme.exists_of_isString {l : Lexeme} (h : l.isString = true) :
    ∃ quote content closed, l = .string quote content closed := by
  cases l with
  | string quote content closed => exact ⟨quote, content, closed, rfl⟩
  | _ => cases h

/-- What holds of no string is told by a token as before. -/
lemma Moved.congr (h : Moved move script script' t t') {p : Lexeme → Prop}
    (hp : ∀ quote content closed, ¬ p (.string quote content closed)) :
    p t'.lexeme ↔ p t.lexeme := by
  rcases h.lexeme with heq | ⟨hold, hnew⟩
  · rw [heq]
  · obtain ⟨_, _, _, hold⟩ := Lexeme.exists_of_isString hold
    obtain ⟨_, _, _, hnew⟩ := Lexeme.exists_of_isString hnew
    rw [hold, hnew]
    exact iff_of_false (hp _ _ _) (hp _ _ _)

lemma Moved.eq_word_iff (h : Moved move script script' t t') (chars : List Char) :
    t'.lexeme = .word chars ↔ t.lexeme = .word chars :=
  h.congr (p := (· = .word chars)) nofun

lemma Moved.eq_mark_iff (h : Moved move script script' t t') (c : Char) :
    t'.lexeme = .mark c ↔ t.lexeme = .mark c :=
  h.congr (p := (· = .mark c)) nofun

lemma Moved.isWord_iff (h : Moved move script script' t t') :
    t'.lexeme.isWord = true ↔ t.lexeme.isWord = true :=
  h.congr (p := (·.isWord = true)) fun _ _ _ => Bool.false_ne_true

lemma Moved.isTrivia_iff (h : Moved move script script' t t') :
    t'.lexeme.isTrivia = true ↔ t.lexeme.isTrivia = true :=
  h.congr (p := (·.isTrivia = true)) fun _ _ _ => Bool.false_ne_true

lemma Moved.isString_iff (h : Moved move script script' t t') :
    t'.lexeme.isString = true ↔ t.lexeme.isString = true := by
  rcases h.lexeme with heq | ⟨hold, hnew⟩
  · rw [heq]
  · exact iff_of_true hnew hold

lemma Moved.isKeyword_iff (h : Moved move script script' t t') :
    t'.lexeme.IsKeyword ↔ t.lexeme.IsKeyword :=
  h.congr (p := Lexeme.IsKeyword) (by rintro _ _ _ (h | h) <;> cases h)

lemma any_head?_moved (h : List.Forall₂ (Moved move script script') ts ts') :
    ts'.head?.any (·.lexeme.isString) = ts.head?.any (·.lexeme.isString) := by
  cases h with
  | nil => rfl
  | cons h _ => exact Bool.eq_iff_iff.mpr h.isString_iff

lemma bind_head?_moved (h : List.Forall₂ (Moved move script script') ts ts') (kind : Kind) :
    ts'.head?.bind (·.span? kind) = (ts.head?.bind (·.span? kind)).map (Span.move move) := by
  cases h with
  | nil => rfl
  | cons h _ => exact h.span kind

lemma clauseSpan?_moved (h : List.Forall₂ (Moved move script script') ts ts') (kind : Kind)
    (inBraces : Bool) :
    clauseSpan? kind inBraces ts' = (clauseSpan? kind inBraces ts).map (Span.move move) := by
  induction h generalizing inBraces with
  | nil => rfl
  | @cons t t' ts ts' h hs ih =>
    rw [clauseSpan?, clauseSpan?]
    simp only [h.eq_word_iff, h.eq_mark_iff, h.isWord_iff, h.isString_iff, any_head?_moved hs]
    split_ifs with hfrom
    · exact bind_head?_moved hs kind
    · rfl
    · exact ih true
    · exact ih false
    · rfl
    · exact ih inBraces
    · rfl

lemma callSpan?_moved (h : List.Forall₂ (Moved move script script') ts ts') :
    callSpan? ts' = (callSpan? ts).map (Span.move move) := by
  cases h with
  | nil => rfl
  | cons hargument hs =>
    cases hs with
    | nil => rfl
    | cons hnext _ =>
      rw [callSpan?, callSpan?]
      simp only [hnext.eq_mark_iff]
      split_ifs
      · exact hargument.span .dynamic
      · rfl

lemma importSpan?_moved (h : List.Forall₂ (Moved move script script') ts ts') :
    importSpan? ts' = (importSpan? ts).map (Span.move move) := by
  cases h with
  | nil => rfl
  | cons h hs =>
    rw [importSpan?, importSpan?]
    simp only [h.eq_mark_iff, h.isString_iff]
    split_ifs
    · exact h.span .sideEffect
    · exact callSpan?_moved hs
    · rfl
    · exact clauseSpan?_moved (.cons h hs) .importFrom false

/-! ### Statements -/

lemma filter_moved (h : List.Forall₂ (Moved move script script') ts ts') :
    List.Forall₂ (Moved move script script') (ts.filter fun t => !t.lexeme.isTrivia)
      (ts'.filter fun t => !t.lexeme.isTrivia) := by
  refine List.rel_filter ?_ h
  intro t t' h
  simp only [Bool.not_eq_true', ← Bool.not_eq_true]
  exact not_congr h.isTrivia_iff.symm

lemma statement?_of_not_isKeyword (h : ¬ t.lexeme.IsKeyword) (script : Bytes) (ts : List Token) :
    t.statement? script ts = none := by
  obtain ⟨himport, hexport⟩ := not_or.mp h
  rw [Token.statement?]
  simp only [if_neg himport, if_neg hexport, ite_self]

lemma statement?_moved (h : Moved move script script' t t')
    (hs : List.Forall₂ (Moved move script script') ts ts') :
    t'.statement? script' ts' = (t.statement? script ts).map (Span.move move) := by
  have hs := filter_moved hs
  by_cases hkeyword : t.lexeme.IsKeyword
  · have hdot := h.afterDot hkeyword
    rw [Token.AfterDot, Token.AfterDot] at hdot
    rw [Token.statement?, Token.statement?]
    simp only [hdot, h.eq_word_iff]
    split_ifs
    · rfl
    · exact importSpan?_moved hs
    · exact clauseSpan?_moved hs .exportFrom false
    · rfl
  · rw [statement?_of_not_isKeyword hkeyword, statement?_of_not_isKeyword]
    · rfl
    · rwa [h.isKeyword_iff]

/-- The specifiers of tokens that have moved in order are those of the tokens, moved. -/
lemma statementsFrom_moved (hmove : StrictMono move)
    (h : List.Forall₂ (Moved move script script') ts ts') {stop stop' : Nat}
    (hstop : ∀ i, move i < stop' ↔ i < stop) :
    statementsFrom script' stop' ts' = (statementsFrom script stop ts).map (Span.move move) := by
  induction h generalizing stop stop' with
  | nil => rfl
  | @cons t t' ts ts' h hs ih =>
    have hstart : t'.start < stop' ↔ t.start < stop := by rw [h.start, hstop]
    rw [statementsFrom, statementsFrom, statement?_moved h hs]
    simp only [hstart]
    split_ifs
    · exact ih hstop
    · cases t.statement? script ts with
      | none => exact ih hstop
      | some span => exact congrArg _ (ih fun i => hmove.lt_iff_lt)

end Moved

/-! ### Blanks and comments -/

lemma statement?_significant (script : Bytes) (t : Token) (ts : List Token) :
    t.statement? script (ts.filter fun u => !u.lexeme.isTrivia) = t.statement? script ts := by
  rw [Token.statement?, Token.statement?, List.filter_filter]
  simp only [Bool.and_self]

/-- Blanks and comments do not matter. -/
lemma statementsFrom_significant (script : Bytes) (stop start : Nat) (ls : List Lexeme) :
    statementsFrom script stop (significantFrom start ls) =
      statementsFrom script stop (tokensFrom start ls) := by
  induction ls generalizing start stop with
  | nil => rfl
  | cons l ls ih =>
    rw [significantFrom_cons, tokensFrom, statementsFrom]
    by_cases htrivia : l.isTrivia = true
    · have hnone : Token.statement? script ⟨start, l⟩ (tokensFrom (start + byteLength l.chars) ls) =
          none := by
        apply statement?_of_ne
        rintro chars rfl
        cases htrivia
      rw [if_pos htrivia, hnone, ih, ite_self]
    · rw [if_neg htrivia, statementsFrom, significantFrom, statement?_significant]
      split_ifs
      · exact ih stop _
      · cases Token.statement? script ⟨start, l⟩ (tokensFrom (start + byteLength l.chars) ls) with
        | none => exact ih stop _
        | some span => exact congrArg _ (ih span.stop _)

/-- The scan finds what the tokens tell that are no blanks and no comments. -/
lemma scan_spelling {ls : List Lexeme} (h : Lexed ls) :
    scan (String.ofList (spelling ls)) =
      statementsFrom (encode (spelling ls)) 0 (significantFrom 0 ls) := by
  have hpieces := spansFrom_piecesFrom (boundary_lexemesOf (spelling ls)) (Nat.zero_le _)
  rw [h] at hpieces
  rw [scan_eq_spansFrom, pieces, lexemes, String.toList_ofList, h, statementsFrom_significant]
  exact hpieces

end Script

end AddonBuild
