/-!
# Lexemes of a script

The parts of a script that matter for finding its imports: blanks and comments, words, strings and
templates; every other character stands for itself. A string ends at its quote or, when that is
missing, before the end of the line; a template ends at its mark, with expressions in braces skipped
as a whole. Putting the lexemes together gives back the script.
-/

namespace AddonBuild

namespace Script

/-- A part of a script that is read as a whole. A string that is not closed has no second quote. -/
inductive Lexeme where
  | blank (c : Char)
  | comment (chars : List Char)
  | word (chars : List Char)
  | string (quote : Char) (content : List Char) (closed : Bool)
  | template (chars : List Char)
  | mark (c : Char)
deriving DecidableEq, Repr

/-- The characters of a lexeme. -/
def Lexeme.chars : Lexeme → List Char
  | .blank c => [c]
  | .comment chars => chars
  | .word chars => chars
  | .string quote content closed => quote :: (content ++ if closed then [quote] else [])
  | .template chars => chars
  | .mark c => [c]

/-- Whether a lexeme only separates others. -/
def Lexeme.isTrivia : Lexeme → Bool
  | .blank _ => true
  | .comment _ => true
  | _ => false

/-- What is taken from the front of an input, and the rest. -/
abbrev Split := List Char × List Char

/-- A split with one more character in front. -/
def Split.cons (c : Char) (p : Split) : Split :=
  (c :: p.1, p.2)

@[simp] theorem Split.append_cons (c : Char) (p : Split) :
    (p.cons c).1 ++ (p.cons c).2 = c :: (p.1 ++ p.2) := rfl

/-! ### Characters -/

/-- A blank between lexemes. -/
def isBlank (c : Char) : Bool :=
  c = ' ' || c = '\t' || c = '\n' || c = '\x0c' || c = '\r'

/-- A mark that opens or closes a string. -/
def isQuote (c : Char) : Bool :=
  c = '"' || c = '\''

/-- A character that a word may start with. Every character outside ASCII counts as one. -/
def isWordStart (c : Char) : Bool :=
  c.isAlpha || c = '_' || c = '$' || 0x80 ≤ c.toNat

/-- A character that a word may go on with. -/
def isWordChar (c : Char) : Bool :=
  isWordStart c || c.isDigit

/-! ### Words and comments -/

/-- The word at the front. -/
def takeWord (s : List Char) : Split :=
  (s.takeWhile isWordChar, s.dropWhile isWordChar)

/-- A comment up to the end of the line. -/
def takeLine (s : List Char) : Split :=
  (s.takeWhile (· ≠ '\n'), s.dropWhile (· ≠ '\n'))

/-- A comment up to its closing mark. -/
def takeBlock : List Char → Split
  | '*' :: '/' :: rest => (['*', '/'], rest)
  | c :: rest => (takeBlock rest).cons c
  | [] => ([], [])

/-! ### Strings and templates -/

/-- The content of a string, from behind its opening quote. What is left starts with the closing
quote if there is one. -/
def takeContent (quote : Char) : List Char → Split
  | [] => ([], [])
  | '\\' :: c :: rest => ((takeContent quote rest).cons c).cons '\\'
  | c :: rest =>
    if c = '\n' ∨ c = quote then ([], c :: rest)
    else (takeContent quote rest).cons c

/-- A string from behind its opening quote. -/
def takeString (quote : Char) (s : List Char) : Lexeme × List Char :=
  match (takeContent quote s).2 with
  | [] => (.string quote (takeContent quote s).1 false, [])
  | c :: rest =>
    if c = quote then (.string quote (takeContent quote s).1 true, rest)
    else (.string quote (takeContent quote s).1 false, c :: rest)

/-- What a character of a template is nested in. -/
inductive Nesting where
  | template
  | braces
  | string (quote : Char)
deriving DecidableEq, Repr

/-- What is left of the given nestings, the innermost first, up to the end of the last one. -/
def takeNested : List Nesting → List Char → Split
  | [], s => ([], s)
  | _ :: _, [] => ([], [])
  | .template :: outer, '\\' :: c :: rest =>
    ((takeNested (.template :: outer) rest).cons c).cons '\\'
  | .template :: outer, '$' :: '\x7b' :: rest =>
    ((takeNested (.braces :: .template :: outer) rest).cons '\x7b').cons '$'
  | .template :: outer, c :: rest =>
    if c = '\x60' then (takeNested outer rest).cons c
    else (takeNested (.template :: outer) rest).cons c
  | .braces :: outer, c :: rest =>
    if c = '\x7b' then (takeNested (.braces :: .braces :: outer) rest).cons c
    else if c = '\x7d' then (takeNested outer rest).cons c
    else if c = '\x60' then (takeNested (.template :: .braces :: outer) rest).cons c
    else if isQuote c then (takeNested (.string c :: .braces :: outer) rest).cons c
    else (takeNested (.braces :: outer) rest).cons c
  | .string quote :: outer, '\\' :: c :: rest =>
    ((takeNested (.string quote :: outer) rest).cons c).cons '\\'
  | .string quote :: outer, c :: rest =>
    if c = '\n' ∨ c = quote then (takeNested outer rest).cons c
    else (takeNested (.string quote :: outer) rest).cons c

/-- A template from behind its opening mark. -/
def takeTemplate (s : List Char) : Split :=
  takeNested [.template] s

/-! ### All lexemes -/

/-- What starts with a slash: a comment, or the slash itself. -/
def takeSlash (rest : List Char) : Lexeme × List Char :=
  match rest with
  | '/' :: _ => (.comment ('/' :: (takeLine rest).1), (takeLine rest).2)
  | '*' :: rest => (.comment ('/' :: '*' :: (takeBlock rest).1), (takeBlock rest).2)
  | _ => (.mark '/', rest)

/-- The lexeme that starts with a character, and what follows it. -/
def takeLexeme (c : Char) (rest : List Char) : Lexeme × List Char :=
  if isWordStart c then (.word (c :: (takeWord rest).1), (takeWord rest).2)
  else if isQuote c then takeString c rest
  else if c = '\x60' then (.template (c :: (takeTemplate rest).1), (takeTemplate rest).2)
  else if c = '/' then takeSlash rest
  else if isBlank c then (.blank c, rest)
  else (.mark c, rest)

/-! ### Nothing is lost -/

theorem takeWord_append (s : List Char) : (takeWord s).1 ++ (takeWord s).2 = s :=
  List.takeWhile_append_dropWhile

theorem takeLine_append (s : List Char) : (takeLine s).1 ++ (takeLine s).2 = s :=
  List.takeWhile_append_dropWhile

theorem takeBlock_append (s : List Char) : (takeBlock s).1 ++ (takeBlock s).2 = s := by
  fun_induction takeBlock s <;> simp_all

theorem takeContent_append (quote : Char) (s : List Char) :
    (takeContent quote s).1 ++ (takeContent quote s).2 = s := by
  fun_induction takeContent quote s <;> simp_all

theorem takeNested_append (nesting : List Nesting) (s : List Char) :
    (takeNested nesting s).1 ++ (takeNested nesting s).2 = s := by
  fun_induction takeNested nesting s <;> simp_all

theorem takeTemplate_append (s : List Char) : (takeTemplate s).1 ++ (takeTemplate s).2 = s :=
  takeNested_append _ s

theorem takeString_append (quote : Char) (s : List Char) :
    (takeString quote s).1.chars ++ (takeString quote s).2 = quote :: s := by
  have h := takeContent_append quote s
  unfold takeString
  generalize takeContent quote s = p at h ⊢
  subst h
  split
  · next hr => simp [Lexeme.chars, hr]
  · next hr => split <;> simp_all [Lexeme.chars]

theorem takeSlash_append (s : List Char) :
    (takeSlash s).1.chars ++ (takeSlash s).2 = '/' :: s := by
  unfold takeSlash
  split
  · simp [Lexeme.chars, takeLine_append]
  · simp [Lexeme.chars, takeBlock_append]
  · simp [Lexeme.chars]

theorem takeLexeme_append (c : Char) (rest : List Char) :
    (takeLexeme c rest).1.chars ++ (takeLexeme c rest).2 = c :: rest := by
  unfold takeLexeme
  split
  · simp [Lexeme.chars, takeWord_append]
  · split
    · exact takeString_append c rest
    · split
      · simp [Lexeme.chars, takeTemplate_append]
      · split
        · next hc =>
          rw [hc]
          exact takeSlash_append rest
        · split <;> simp [Lexeme.chars]

theorem chars_takeString_ne_nil (quote : Char) (s : List Char) :
    (takeString quote s).1.chars ≠ [] := by
  unfold takeString
  split
  · simp [Lexeme.chars]
  · split <;> simp [Lexeme.chars]

theorem chars_takeSlash_ne_nil (s : List Char) : (takeSlash s).1.chars ≠ [] := by
  unfold takeSlash
  split <;> simp [Lexeme.chars]

theorem chars_takeLexeme_ne_nil (c : Char) (rest : List Char) :
    (takeLexeme c rest).1.chars ≠ [] := by
  unfold takeLexeme
  split
  · simp [Lexeme.chars]
  · split
    · exact chars_takeString_ne_nil c rest
    · split
      · simp [Lexeme.chars]
      · split
        · exact chars_takeSlash_ne_nil rest
        · split <;> simp [Lexeme.chars]

theorem length_takeLexeme_lt (c : Char) (rest : List Char) :
    (takeLexeme c rest).2.length < (c :: rest).length := by
  have h := congrArg List.length (takeLexeme_append c rest)
  have hne := List.length_pos_iff.mpr (chars_takeLexeme_ne_nil c rest)
  rw [List.length_append] at h
  omega

/-- The lexemes of an input, in order. -/
def lexemesOf (s : List Char) : List Lexeme :=
  match s with
  | [] => []
  | c :: rest => (takeLexeme c rest).1 :: lexemesOf (takeLexeme c rest).2
termination_by s.length
decreasing_by exact length_takeLexeme_lt c rest

theorem flatMap_chars_lexemesOf (s : List Char) : (lexemesOf s).flatMap Lexeme.chars = s := by
  fun_induction lexemesOf s with
  | case1 => rfl
  | case2 c rest ih => rw [List.flatMap_cons, ih, takeLexeme_append]

/-- The lexemes of a script, in order. -/
def lexemes (source : String) : List Lexeme :=
  lexemesOf source.toList

end Script

end AddonBuild
