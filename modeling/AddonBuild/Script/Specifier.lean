import AddonBuild.Script.Lexeme

/-!
# Module specifiers of a script

The texts by which a script imports other modules: in `import` and `export` statements, and in
calls of `import` with a single string. Every lexeme of a script becomes a piece, of which some are
specifiers and the others are carried along. Regular expressions are not recognised.
-/

namespace AddonBuild

namespace Script

/-- The form of statement a specifier stands in. -/
inductive Kind where
  | importFrom
  | sideEffect
  | exportFrom
  | dynamic
deriving DecidableEq, Repr

/-- A specifier without its quotes. -/
structure Specifier where
  kind : Kind
  quote : Char
  text : String
deriving DecidableEq, Repr

/-- The string that a specifier is written as. -/
def Specifier.lexeme (s : Specifier) : Lexeme :=
  .string s.quote s.text.toList true

/-- A specifier with the lexemes before and behind it. -/
structure Found where
  lead : List Lexeme
  specifier : Specifier
  rest : List Lexeme

/-- The lexemes of a find. -/
def Found.lexemes (f : Found) : List Lexeme :=
  f.lead ++ f.specifier.lexeme :: f.rest

/-! ### Looking ahead from a keyword -/

/-- The lexemes from the first one on that is no blank and no comment. -/
def significant (s : List Lexeme) : List Lexeme :=
  s.dropWhile Lexeme.isTrivia

/-- The specifier that comes next, if a closed string does. What was passed before is given with the
last lexeme first, here and below. -/
def literal? (kind : Kind) (passed : List Lexeme) : List Lexeme → Option Found
  | .string quote content true :: rest =>
    some ⟨passed.reverse, ⟨kind, quote, String.ofList content⟩, rest⟩
  | l :: rest => if l.isTrivia then literal? kind (l :: passed) rest else none
  | [] => none

/-- The letters of `from`. -/
def fromWord : List Char := ['f', 'r', 'o', 'm']

/-- Whether a string comes next, closed or not. -/
def stringFollows (s : List Lexeme) : Bool :=
  match significant s with
  | .string .. :: _ => true
  | _ => false

/-- Walk a clause up to the first `from` outside braces that a string follows. Only words, `*`,
`,`, one level of braces, and strings within them may come before. -/
def clause? (kind : Kind) (inBraces : Bool) (passed : List Lexeme) : List Lexeme → Option Found
  | [] => none
  | .mark c :: rest =>
    if c = '\x7b' then if inBraces then none else clause? kind true (.mark c :: passed) rest
    else if c = '\x7d' then if inBraces then clause? kind false (.mark c :: passed) rest else none
    else if c = '*' ∨ c = ',' then clause? kind inBraces (.mark c :: passed) rest
    else none
  | .word chars :: rest =>
    if inBraces = false ∧ chars = fromWord ∧ stringFollows rest then
      literal? kind (.word chars :: passed) rest
    else clause? kind inBraces (.word chars :: passed) rest
  | .string quote content closed :: rest =>
    if inBraces then clause? kind inBraces (.string quote content closed :: passed) rest else none
  | .template _ :: _ => none
  | l :: rest => clause? kind inBraces (l :: passed) rest

/-- Whether a call with one string goes on as it must: with the end of the arguments or the next
one. -/
def closesCall (s : List Lexeme) : Bool :=
  match significant s with
  | .mark c :: _ => c = ')' || c = ','
  | _ => false

/-- The specifier behind the opening bracket of a call of `import`. -/
def call? (passed s : List Lexeme) : Option Found :=
  (literal? .dynamic passed s).filter fun f => closesCall f.rest

/-- The specifier behind the keyword `import`. -/
def import? (passed : List Lexeme) : List Lexeme → Option Found
  | [] => none
  | l :: rest =>
    if l.isTrivia then import? (l :: passed) rest
    else if stringFollows [l] then literal? .sideEffect passed (l :: rest)
    else if l = .mark '(' then call? (l :: passed) rest
    else if l = .mark '.' then none
    else clause? .importFrom false passed (l :: rest)

/-- The letters of `import`. -/
def importWord : List Char := ['i', 'm', 'p', 'o', 'r', 't']

/-- The letters of `export`. -/
def exportWord : List Char := ['e', 'x', 'p', 'o', 'r', 't']

/-- The specifier behind a word, if the word is a keyword that has one. -/
def statement? (word : List Char) (rest : List Lexeme) : Option Found :=
  if word = importWord then import? [] rest
  else if word = exportWord then clause? .exportFrom false [] rest
  else none

/-! ### What is found is what was there -/

theorem literal?_lexemes {kind : Kind} {passed s : List Lexeme} {f : Found}
    (h : literal? kind passed s = some f) : f.lexemes = passed.reverse ++ s := by
  fun_induction literal? kind passed s with
  | case1 =>
    rw [← Option.some.inj h]
    simp [Found.lexemes, Specifier.lexeme]
  | case2 passed l rest _ _ ih => simp [ih h]
  | case3 => simp at h
  | case4 => simp at h

theorem clause?_lexemes {kind : Kind} {inBraces : Bool} {passed s : List Lexeme} {f : Found}
    (h : clause? kind inBraces passed s = some f) : f.lexemes = passed.reverse ++ s := by
  fun_induction clause? kind inBraces passed s with
  | case8 => simp [literal?_lexemes h]
  | _ => simp_all

theorem call?_lexemes {passed s : List Lexeme} {f : Found} (h : call? passed s = some f) :
    f.lexemes = passed.reverse ++ s :=
  literal?_lexemes (Option.filter_eq_some_iff.mp h).1

theorem import?_lexemes {passed s : List Lexeme} {f : Found} (h : import? passed s = some f) :
    f.lexemes = passed.reverse ++ s := by
  fun_induction import? passed s with
  | case1 => simp at h
  | case2 passed l rest _ ih => simp [ih h]
  | case3 => exact literal?_lexemes h
  | case4 => simp [call?_lexemes h]
  | case5 => simp at h
  | case6 => exact clause?_lexemes h

theorem statement?_lexemes {word : List Char} {s : List Lexeme} {f : Found}
    (h : statement? word s = some f) : f.lexemes = s := by
  unfold statement? at h
  split at h
  · exact import?_lexemes h
  · split at h
    · exact clause?_lexemes h
    · simp at h

theorem length_rest_lt {word : List Char} {s : List Lexeme} {f : Found}
    (h : statement? word s = some f) : f.rest.length < s.length := by
  have := congrArg List.length (statement?_lexemes h)
  simp only [Found.lexemes, List.length_append, List.length_cons] at this
  omega

/-! ### Pieces of a script -/

/-- What is found behind a keyword is only taken where no dot comes before it. -/
theorem found_of_ite {afterDot : Bool} {found? : Option Found} {f : Found}
    (h : (if afterDot then none else found?) = some f) : afterDot = false ∧ found? = some f := by
  cases afterDot with
  | true => cases h
  | false => exact ⟨rfl, h⟩

/-- A part of a script: a specifier, or any other lexeme. -/
inductive Piece where
  | plain (l : Lexeme)
  | specifier (s : Specifier)
deriving DecidableEq, Repr

/-- The lexeme that a piece is written as. -/
def Piece.lexeme : Piece → Lexeme
  | .plain l => l
  | .specifier s => s.lexeme

/-- Tell the specifiers among lexemes from the others. A keyword directly behind a dot, where
`afterDot` holds, is the name of a member. -/
def piecesFrom (afterDot : Bool) (s : List Lexeme) : List Piece :=
  match s with
  | [] => []
  | .word chars :: rest =>
    match h : if afterDot then none else statement? chars rest with
    | some found =>
      .plain (.word chars) :: found.lead.map .plain ++
        .specifier found.specifier :: piecesFrom false found.rest
    | none => .plain (.word chars) :: piecesFrom false rest
  | l :: rest => .plain l :: piecesFrom (l = .mark '.') rest
termination_by s.length
decreasing_by
  · exact Nat.lt_succ_of_lt (length_rest_lt (found_of_ite h).2)
  · exact Nat.lt_succ_self _
  · exact Nat.lt_succ_self _

theorem map_lexeme_piecesFrom (afterDot : Bool) (s : List Lexeme) :
    (piecesFrom afterDot s).map Piece.lexeme = s := by
  fun_induction piecesFrom afterDot s with
  | case1 => rfl
  | case2 afterDot chars rest found h ih =>
    obtain ⟨-, hf⟩ := found_of_ite h
    have hl : found.lead.map (Piece.lexeme ∘ Piece.plain) = found.lead := List.map_id _
    rw [List.map_append, List.map_cons, List.map_cons, List.map_map, ih, hl]
    exact congrArg (Lexeme.word chars :: ·) (statement?_lexemes hf)
  | case3 _ _ _ _ ih => rw [List.map_cons, ih]; rfl
  | case4 _ _ _ _ ih => rw [List.map_cons, ih]; rfl

/-- The pieces of a script, in order. -/
def pieces (source : String) : List Piece :=
  piecesFrom false (lexemes source)

/-- The script that is made of the given pieces. -/
def textOf (pieces : List Piece) : String :=
  String.ofList (pieces.flatMap fun p => p.lexeme.chars)

/-! ### Places of specifiers -/

/-- A specifier and the bytes it takes up, without its quotes. -/
structure Span where
  start : Nat
  stop : Nat
  specifier : Specifier
deriving DecidableEq, Repr

/-- The number of bytes of a list of characters. -/
def byteLength : List Char → Nat
  | [] => 0
  | c :: rest => c.utf8Size + byteLength rest

/-- The specifiers among pieces of which the first starts at a given byte. -/
def spansFrom (start : Nat) : List Piece → List Span
  | [] => []
  | .plain l :: rest => spansFrom (start + byteLength l.chars) rest
  | .specifier s :: rest =>
    let first := start + s.quote.utf8Size
    let stop := first + byteLength s.text.toList
    ⟨first, stop, s⟩ :: spansFrom (stop + s.quote.utf8Size) rest

end Script

end AddonBuild
