import AddonBuild.Proofs.Script.Scanning
import Mathlib

/-!
# Statements token by token

What the scan finds, told by tokens, which are lexemes with the bytes they start at. A keyword that
is not the name of a member has the specifier that the tokens behind it say, blanks and comments
left out. What stands between a keyword and the end of its specifier is not looked at again.
-/

namespace AddonBuild

namespace Script

/-- A lexeme and the byte it starts at. -/
structure Token where
  start : Nat
  lexeme : Lexeme

/-- The tokens of a text of which the first starts at a given byte. -/
def tokensFrom (start : Nat) : List Lexeme → List Token
  | [] => []
  | l :: ls => ⟨start, l⟩ :: tokensFrom (start + byteLength l.chars) ls

/-- The tokens of a script, in order. -/
def tokens (source : String) : List Token :=
  tokensFrom 0 (lexemes source)

/-- The specifier that a closed string is. -/
def Token.span? (kind : Kind) (t : Token) : Option Span :=
  match t.lexeme with
  | .string quote content true =>
    let start := t.start + quote.utf8Size
    some ⟨start, start + byteLength content, kind, quote, String.ofList content⟩
  | _ => none

/-- Whether a lexeme is a word. -/
def Lexeme.isWord : Lexeme → Bool
  | .word _ => true
  | _ => false

/-- The specifier of a clause: the string directly behind the first `from` outside braces that has
one. -/
def clauseSpan? (kind : Kind) (inBraces : Bool) : List Token → Option Span
  | [] => none
  | t :: rest =>
    if inBraces = false ∧ t.lexeme = .word fromWord ∧ rest.head?.any (·.lexeme.isString) then
      rest.head?.bind (·.span? kind)
    else if t.lexeme = .mark '\x7b' then
      if inBraces then none else clauseSpan? kind true rest
    else if t.lexeme = .mark '\x7d' then
      if inBraces then clauseSpan? kind false rest else none
    else if t.lexeme.isWord ∨ t.lexeme = .mark '*' ∨ t.lexeme = .mark ',' ∨
        inBraces ∧ t.lexeme.isString then
      clauseSpan? kind inBraces rest
    else none

/-- The specifier of the arguments of a call, if it is the only or the first one. -/
def callSpan? : List Token → Option Span
  | argument :: next :: _ =>
    if next.lexeme = .mark ')' ∨ next.lexeme = .mark ',' then argument.span? .dynamic else none
  | _ => none

/-- The specifier behind the keyword `import`. -/
def importSpan? : List Token → Option Span
  | [] => none
  | t :: rest =>
    if t.lexeme.isString then t.span? .sideEffect
    else if t.lexeme = .mark '(' then callSpan? rest
    else if t.lexeme = .mark '.' then none
    else clauseSpan? .importFrom false (t :: rest)

/-- The specifier of a token that is a keyword, given the tokens behind it. -/
def Token.statement? (script : Bytes) (t : Token) (rest : List Token) : Option Span :=
  let significant := rest.filter fun u => !u.lexeme.isTrivia
  if 0 < t.start ∧ script[t.start - 1]? = some '.'.toUInt8 then none
  else if t.lexeme = .word importWord then importSpan? significant
  else if t.lexeme = .word exportWord then clauseSpan? .exportFrom false significant
  else none

/-- The specifiers of the tokens, where those before a given byte are not looked at. -/
def statementsFrom (script : Bytes) (stop : Nat) : List Token → List Span
  | [] => []
  | t :: rest =>
    if t.start < stop then statementsFrom script stop rest
    else match t.statement? script rest with
      | some span => span :: statementsFrom script span.stop rest
      | none => statementsFrom script stop rest

/-- The specifiers of a script, told by its tokens. -/
def statements (source : String) : List Span :=
  statementsFrom (bytes source) 0 (tokens source)

/-- The specifiers of all keywords among the tokens, also of those that stand in the statements of
others. -/
def keywordsFrom (script : Bytes) : List Token → List Span
  | [] => []
  | t :: rest => (t.statement? script rest).toList ++ keywordsFrom script rest

/-- The specifiers of all keywords of a script. -/
def keywords (source : String) : List Span :=
  keywordsFrom (bytes source) (tokens source)

/-! ### Looking ahead by tokens -/

/-- The tokens that are no blanks and no comments. -/
def significantFrom (start : Nat) (ls : List Lexeme) : List Token :=
  (tokensFrom start ls).filter fun t => !t.lexeme.isTrivia

lemma significantFrom_cons (start : Nat) (l : Lexeme) (ls : List Lexeme) :
    significantFrom start (l :: ls) =
      if l.isTrivia then significantFrom (start + byteLength l.chars) ls
      else ⟨start, l⟩ :: significantFrom (start + byteLength l.chars) ls := by
  rw [significantFrom, tokensFrom, List.filter_cons]
  cases l.isTrivia <;> rfl

lemma add_byteLength_reverse (start : Nat) (l : Lexeme) (passed : List Lexeme) :
    start + byteLength (spelling (l :: passed).reverse) =
      start + byteLength (spelling passed.reverse) + byteLength l.chars := by
  rw [List.reverse_cons, spelling_append, byteLength_append, spelling_cons, spelling_nil,
    List.append_nil, Nat.add_assoc]

/-- Only a closed string is a specifier. -/
lemma Token.span?_of_ne {t : Token} (kind : Kind)
    (h : ∀ quote content, t.lexeme = .string quote content true → False) : t.span? kind = none := by
  unfold Token.span?
  split
  · next hl => exact (h _ _ hl).elim
  · rfl

section LookAhead

variable (start : Nat)

lemma literal?_map_spanFrom (kind : Kind) (passed ls : List Lexeme) :
    (literal? kind passed ls).map (Found.spanFrom start) =
      (significantFrom (start + byteLength (spelling passed.reverse)) ls).head?.bind
        (Token.span? kind) := by
  fun_induction literal? kind passed ls with
  | case1 passed quote content rest =>
    rw [significantFrom_cons, if_neg (by simp [Lexeme.isTrivia])]
    simp [Token.span?, Found.spanFrom]
  | case2 passed l rest _ hl ih =>
    rw [significantFrom_cons, if_pos hl, ← add_byteLength_reverse]
    exact ih
  | case3 passed l rest hne hl =>
    rw [significantFrom_cons, if_neg hl]
    exact (Token.span?_of_ne kind hne).symm
  | case4 passed => rfl

lemma head?_significantFrom (ls : List Lexeme) :
    (significantFrom start ls).head?.map Token.lexeme = (significant ls).head? := by
  induction ls generalizing start with
  | nil => rfl
  | cons l ls ih =>
    rw [significantFrom_cons, significant, List.dropWhile_cons]
    split_ifs
    · exact ih _
    · rfl

lemma any_head?_significantFrom (p : Lexeme → Bool) (ls : List Lexeme) :
    (significantFrom start ls).head?.any (fun t => p t.lexeme) = (significant ls).head?.any p := by
  rw [← head?_significantFrom start, Option.any_map]

lemma stringFollows_eq_any (ls : List Lexeme) :
    stringFollows ls = (significantFrom start ls).head?.any (·.lexeme.isString) := by
  rw [any_head?_significantFrom, stringFollows]
  cases significant ls with
  | nil => rfl
  | cons l rest => cases l <;> rfl

lemma closesCall_eq_any (ls : List Lexeme) :
    closesCall ls = (significantFrom start ls).head?.any
      (fun t => t.lexeme = .mark ')' || t.lexeme = .mark ',') := by
  rw [any_head?_significantFrom start (fun l => l = .mark ')' || l = .mark ','), closesCall_eq]

lemma callSpan?_cons (t : Token) (ts : List Token) :
    callSpan? (t :: ts) =
      if ts.head?.any (fun u => u.lexeme = .mark ')' || u.lexeme = .mark ',') then
        t.span? .dynamic
      else none := by
  cases ts with
  | nil => rfl
  | cons u ts => simp [callSpan?]

lemma call?_map_spanFrom (passed ls : List Lexeme) :
    (call? passed ls).map (Found.spanFrom start) =
      callSpan? (significantFrom (start + byteLength (spelling passed.reverse)) ls) := by
  have hliteral := literal?_map_spanFrom start .dynamic passed ls
  rw [call?]
  fun_induction literal? .dynamic passed ls with
  | case1 passed quote content rest =>
    rw [significantFrom_cons, if_neg (by simp [Lexeme.isTrivia])] at hliteral ⊢
    rw [callSpan?_cons, ← closesCall_eq_any, Option.filter_some]
    split_ifs
    · exact hliteral
    · rfl
  | case2 passed l rest _ hl ih =>
    rw [significantFrom_cons, if_pos hl, ← add_byteLength_reverse] at hliteral ⊢
    exact ih hliteral
  | case3 passed l rest hne hl =>
    rw [significantFrom_cons, if_neg hl, callSpan?_cons, Token.span?_of_ne .dynamic hne, ite_self]
    rfl
  | case4 passed => rfl

lemma clauseSpan?_significantFrom_cons (kind : Kind) (inBraces : Bool) {l : Lexeme}
    (hl : l.isTrivia = false) (ls : List Lexeme) :
    clauseSpan? kind inBraces (significantFrom start (l :: ls)) =
      if inBraces = false ∧ l = .word fromWord ∧ stringFollows ls then
        (significantFrom (start + byteLength l.chars) ls).head?.bind (·.span? kind)
      else if l = .mark '\x7b' then
        if inBraces then none
        else clauseSpan? kind true (significantFrom (start + byteLength l.chars) ls)
      else if l = .mark '\x7d' then
        if inBraces then clauseSpan? kind false (significantFrom (start + byteLength l.chars) ls)
        else none
      else if l.isWord ∨ l = .mark '*' ∨ l = .mark ',' ∨ inBraces ∧ l.isString then
        clauseSpan? kind inBraces (significantFrom (start + byteLength l.chars) ls)
      else none := by
  rw [significantFrom_cons, if_neg (by simp [hl]), clauseSpan?,
    stringFollows_eq_any (start + byteLength l.chars)]

lemma clause?_map_spanFrom (kind : Kind) (inBraces : Bool) (passed ls : List Lexeme) :
    (clause? kind inBraces passed ls).map (Found.spanFrom start) =
      clauseSpan? kind inBraces
        (significantFrom (start + byteLength (spelling passed.reverse)) ls) := by
  fun_induction clause? kind inBraces passed ls with
  | case1 => rfl
  | case2 passed rest =>
    rw [clauseSpan?_significantFrom_cons _ _ _ rfl]
    simp
  | case3 inBraces passed rest hb ih =>
    rw [ih, add_byteLength_reverse, clauseSpan?_significantFrom_cons _ _ _ rfl]
    simp [hb]
  | case4 passed rest _ ih =>
    rw [ih, add_byteLength_reverse, clauseSpan?_significantFrom_cons _ _ _ rfl]
    simp
  | case5 inBraces passed rest hb _ =>
    rw [clauseSpan?_significantFrom_cons _ _ _ rfl]
    simp [hb]
  | case6 inBraces passed c rest hopen hclose hc ih =>
    rw [ih, add_byteLength_reverse, clauseSpan?_significantFrom_cons _ _ _ rfl]
    simp [hopen, hclose, hc, ← or_assoc]
  | case7 inBraces passed c rest hopen hclose hc =>
    rw [clauseSpan?_significantFrom_cons _ _ _ rfl]
    simp_all [Lexeme.isWord, Lexeme.isString]
  | case8 inBraces passed chars rest hfrom =>
    obtain ⟨rfl, rfl, hstring⟩ := hfrom
    rw [literal?_map_spanFrom, add_byteLength_reverse, clauseSpan?_significantFrom_cons _ _ _ rfl,
      if_pos ⟨rfl, rfl, hstring⟩]
  | case9 inBraces passed chars rest hfrom ih =>
    rw [ih, add_byteLength_reverse, clauseSpan?_significantFrom_cons _ _ _ rfl,
      if_neg (by simpa using hfrom)]
    simp [Lexeme.isWord]
  | case10 passed quote content closed rest ih =>
    rw [ih, add_byteLength_reverse, clauseSpan?_significantFrom_cons _ _ _ rfl]
    simp [Lexeme.isString]
  | case11 inBraces passed quote content closed rest hb =>
    rw [clauseSpan?_significantFrom_cons _ _ _ rfl]
    simp [Lexeme.isWord, hb]
  | case12 =>
    rw [clauseSpan?_significantFrom_cons _ _ _ rfl]
    simp [Lexeme.isWord, Lexeme.isString]
  | case13 inBraces passed l rest hmark hword hstring htemplate ih =>
    have hl := Lexeme.isTrivia_of_ne hmark hword hstring htemplate
    rw [ih, add_byteLength_reverse, significantFrom_cons, if_pos hl]

lemma import?_map_spanFrom (passed ls : List Lexeme) :
    (import? passed ls).map (Found.spanFrom start) =
      importSpan? (significantFrom (start + byteLength (spelling passed.reverse)) ls) := by
  fun_induction import? passed ls with
  | case1 => rfl
  | case2 passed l rest hl ih =>
    rw [ih, add_byteLength_reverse, significantFrom_cons _ l, if_pos hl]
  | case3 passed l rest hl hstring =>
    rw [stringFollows_singleton] at hstring
    rw [literal?_map_spanFrom, significantFrom_cons, if_neg hl, importSpan?, if_pos hstring]
    rfl
  | case4 passed rest _ _ =>
    rw [call?_map_spanFrom, significantFrom_cons _ (.mark '('), add_byteLength_reverse]
    rfl
  | case5 passed rest _ _ => rfl
  | case6 passed l rest hl hstring hcall hdot =>
    rw [stringFollows_singleton] at hstring
    rw [clause?_map_spanFrom, significantFrom_cons, if_neg hl, importSpan?, if_neg hstring,
      if_neg hcall, if_neg hdot]

lemma statement?_map_spanFrom (word : List Char) (ls : List Lexeme) :
    (statement? word ls).map (Found.spanFrom start) =
      if word = importWord then importSpan? (significantFrom start ls)
      else if word = exportWord then clauseSpan? .exportFrom false (significantFrom start ls)
      else none := by
  rw [statement?]
  split_ifs
  · exact import?_map_spanFrom start [] ls
  · exact clause?_map_spanFrom start .exportFrom false [] ls
  · rfl

end LookAhead

/-! ### All tokens -/

/-- Tokens before the end of a specifier are passed. -/
lemma statementsFrom_of_lt (script : Bytes) {start stop : Nat} {lead : List Lexeme}
    {l : Lexeme} (h : start + byteLength (spelling lead) < stop) (rest : List Lexeme) :
    statementsFrom script stop (tokensFrom start (lead ++ l :: rest)) =
      statementsFrom script stop
        (tokensFrom (start + byteLength (spelling lead) + byteLength l.chars) rest) := by
  induction lead generalizing start with
  | nil =>
    exact if_pos h
  | cons m lead ih =>
    rw [spelling_cons, byteLength_append, ← Nat.add_assoc] at h ⊢
    rw [← ih h]
    have hm : start < stop := by omega
    exact if_pos hm

namespace Boundary

variable {script before chars : List Char} {afterDot : Bool} {l : Lexeme} {ls : List Lexeme}

/-- The specifier of a word is the one that is found behind it, unless a dot comes before. -/
lemma statement?_eq (h : Boundary script before afterDot (.word chars :: ls)) :
    Token.statement? (encode script) ⟨byteLength before, .word chars⟩
        (tokensFrom (byteLength before + byteLength chars) ls) =
      (if afterDot then none else statement? chars ls).map
        (Found.spanFrom (byteLength before + byteLength chars)) := by
  have hdot := dotBefore_iff before (spelling (.word chars :: ls))
  rw [← h.script_eq, ← h.dot chars ls rfl] at hdot
  cases afterDot with
  | true => exact if_pos (hdot.mpr rfl)
  | false =>
    have hstatement := statement?_map_spanFrom (byteLength before + byteLength chars) chars ls
    rw [if_neg (by decide), hstatement, Token.statement?,
      if_neg fun hb => absurd (hdot.mp hb) (by decide)]
    simp only [Lexeme.word.injEq]
    rfl

end Boundary

/-- A token that is no keyword has no specifier. -/
lemma statement?_of_ne {script : Bytes} {t : Token} (h : ∀ chars, t.lexeme = .word chars → False)
    (rest : List Token) : t.statement? script rest = none := by
  unfold Token.statement?
  split_ifs with _ himport hexport
  · rfl
  · exact (h _ himport).elim
  · exact (h _ hexport).elim
  · rfl

/-- Behind a find, the tokens go on where its last one ends. -/
lemma statementsFrom_found (script : Bytes) (start : Nat) (f : Found) :
    statementsFrom script (f.spanFrom start).stop (tokensFrom start f.lexemes) =
      statementsFrom script (f.spanFrom start).stop
        (tokensFrom (start + byteLength (spelling f.lead) + byteLength f.specifier.lexeme.chars)
          f.rest) := by
  have hquote : 0 < f.specifier.quote.utf8Size := Char.utf8Size_pos _
  apply statementsFrom_of_lt
  show _ < start + byteLength (spelling f.lead) + f.specifier.quote.utf8Size + _
  omega

lemma spanFrom_stop_le (start : Nat) (f : Found) :
    (f.spanFrom start).stop ≤
      start + byteLength (spelling f.lead) + byteLength f.specifier.lexeme.chars := by
  rw [Specifier.byteLength_lexeme, ← Nat.add_assoc, ← Nat.add_assoc]
  exact Nat.le_add_right _ _

/-- The specifiers among pieces are those of the tokens. -/
lemma spansFrom_piecesFrom {script before : List Char} {afterDot : Bool} {ls : List Lexeme}
    (h : Boundary script before afterDot ls) {stop : Nat} (hstop : stop ≤ byteLength before) :
    spansFrom (byteLength before) (piecesFrom afterDot ls) =
      statementsFrom (encode script) stop (tokensFrom (byteLength before) ls) := by
  -- the scan never goes back behind `stop`, which the pieces before have reached
  fun_induction piecesFrom afterDot ls generalizing before stop with
  | case1 => rfl
  | case2 afterDot chars rest found hfound ih =>
    obtain ⟨rfl, hf⟩ := found_of_ite hfound
    have hstatement := h.statement?_eq
    rw [if_neg (by decide), hf, Option.map_some] at hstatement
    have hle : (found.spanFrom (byteLength before + byteLength chars)).stop ≤
        byteLength (before ++ chars ++ spelling found.lead ++ found.specifier.lexeme.chars) := by
      rw [byteLength_append, byteLength_append, byteLength_append]
      exact spanFrom_stop_le _ _
    have ih := ih (h.found hf) hle
    rw [byteLength_append, byteLength_append, byteLength_append] at ih
    rw [tokensFrom, statementsFrom, if_neg (Nat.not_lt.mpr hstop)]
    simp only [Lexeme.chars, hstatement]
    rw [List.cons_append, spansFrom, spansFrom_found, Lexeme.chars, ih,
      ← statementsFrom_found, statement?_lexemes hf]
  | case3 afterDot chars rest hnone ih =>
    have hstatement := h.statement?_eq
    rw [show (if afterDot then none else statement? chars rest) = none from hnone] at hstatement
    have hle : stop ≤ byteLength (before ++ chars) := by
      rw [byteLength_append]
      exact Nat.le_add_right_of_le hstop
    have ih := ih h.next_word hle
    rw [byteLength_append] at ih
    rw [spansFrom, tokensFrom, statementsFrom, if_neg (Nat.not_lt.mpr hstop)]
    simp only [Lexeme.chars, hstatement, Option.map_none]
    exact ih
  | case4 afterDot l rest hword ih =>
    have hle : stop ≤ byteLength (before ++ l.chars) := by
      rw [byteLength_append]
      exact Nat.le_add_right_of_le hstop
    have ih := ih h.next hle
    rw [spansFrom, tokensFrom, statementsFrom, if_neg (Nat.not_lt.mpr hstop),
      statement?_of_ne hword, ← byteLength_append, ih]

/-- The scan finds at every keyword what the tokens behind it say. -/
theorem scan_eq_statements (source : String) : scan source = statements source := by
  have h := spansFrom_piecesFrom (boundary_lexemesOf source.toList) (Nat.zero_le _)
  rw [scan_eq_spansFrom, statements, bytes_eq_encode]
  exact h

/-- Not every keyword counts: one within the statement of another has no specifier of its own. -/
theorem scan_ne_keywords :
    scan "import export * from \"x\"" ≠ keywords "import export * from \"x\"" := by
  rw [scan_eq_spansFrom]
  cbv
  decide

end Script

end AddonBuild
