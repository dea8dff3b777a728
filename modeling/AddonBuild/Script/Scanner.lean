import AddonBuild.Script.Specifier

/-!
# Scanning a script

The specifiers of a script are found in one pass over its bytes, without making a list of its
lexemes. At a keyword the scan looks ahead. If that finds a specifier, the scan goes on behind it,
and otherwise right behind the keyword. A byte outside ASCII counts as part of a word, so characters
need not be decoded.
-/

namespace AddonBuild

namespace Script

/-- The bytes of a script from some place on. -/
abbrev Bytes := List UInt8

/-- The bytes of a script. -/
def bytes (source : String) : Bytes :=
  source.toUTF8.data.toList

/-! ### Single bytes -/

/-- A blank between lexemes. -/
def isBlankByte (b : UInt8) : Bool :=
  b = ' '.toUInt8 || b = '\t'.toUInt8 || b = '\n'.toUInt8 || b = '\x0c'.toUInt8 || b = '\r'.toUInt8

/-- A mark that opens or closes a string. -/
def isQuoteByte (b : UInt8) : Bool :=
  b = '"'.toUInt8 || b = '\''.toUInt8

/-- A byte that a word may start with. -/
def isWordStartByte (b : UInt8) : Bool :=
  ('a'.toUInt8 ≤ b && b ≤ 'z'.toUInt8) || ('A'.toUInt8 ≤ b && b ≤ 'Z'.toUInt8) ||
    b = '_'.toUInt8 || b = '$'.toUInt8 || 0x80 ≤ b

/-- A byte that a word may go on with. -/
def isWordByte (b : UInt8) : Bool :=
  isWordStartByte b || ('0'.toUInt8 ≤ b && b ≤ '9'.toUInt8)

/-! ### Skipping -/

/-- What follows a word. -/
def skipWord (s : Bytes) : Bytes :=
  s.dropWhile isWordByte

/-- What follows a comment up to the end of the line. -/
def skipLine (s : Bytes) : Bytes :=
  s.dropWhile (· ≠ '\n'.toUInt8)

/-- What follows a comment up to its closing mark, from behind its opening mark. -/
def skipBlock : Bytes → Bytes
  | [] => []
  | c :: rest =>
    if c = '*'.toUInt8 ∧ rest.head? = some '/'.toUInt8 then rest.tail else skipBlock rest

/-- What follows a string, from behind its opening quote. One that is not closed leaves the end of
the line. -/
def skipString (quote : UInt8) : Bytes → Bytes
  | [] => []
  | c :: rest =>
    if c = '\\'.toUInt8 then
      match rest with
      | [] => []
      | _ :: rest => skipString quote rest
    else if c = '\n'.toUInt8 then c :: rest
    else if c = quote then rest
    else skipString quote rest

theorem length_skipWord_le (s : Bytes) : (skipWord s).length ≤ s.length :=
  (List.dropWhile_sublist isWordByte).length_le

theorem length_skipLine_le (s : Bytes) : (skipLine s).length ≤ s.length :=
  (List.dropWhile_sublist (· ≠ '\n'.toUInt8)).length_le

theorem length_skipBlock_le (s : Bytes) : (skipBlock s).length ≤ s.length := by
  fun_induction skipBlock s with
  | case1 => exact Nat.le_refl _
  | case2 c rest _ => simp only [List.length_tail, List.length_cons]; omega
  | case3 c rest _ ih => simp only [List.length_cons]; omega

theorem length_skipString_le (quote : UInt8) (s : Bytes) :
    (skipString quote s).length ≤ s.length := by
  fun_induction skipString quote s <;> simp_all <;> omega

/-- What follows the template that is read. In the text of that template `depth` is zero, and else
it counts the braces that are open in an expression of it, however many there are. The counts of the
templates around it are in `outer`, the nearest first. -/
def skipTemplate (outer : List Nat) (depth : Nat) (s : Bytes) : Bytes :=
  match s with
  | [] => []
  | c :: rest =>
    if depth = 0 then
      if c = '\\'.toUInt8 then skipTemplate outer 0 rest.tail
      else if c = '\x60'.toUInt8 then
        match outer with
        | [] => rest
        | depth :: outer => skipTemplate outer depth rest
      else if c = '$'.toUInt8 ∧ rest.head? = some '\x7b'.toUInt8 then
        skipTemplate outer 1 rest.tail
      else skipTemplate outer 0 rest
    else if c = '\x7b'.toUInt8 then skipTemplate outer (depth + 1) rest
    else if c = '\x7d'.toUInt8 then skipTemplate outer (depth - 1) rest
    else if isQuoteByte c then skipTemplate outer depth (skipString c rest)
    else if c = '\x60'.toUInt8 then skipTemplate (depth :: outer) 0 rest
    else skipTemplate outer depth rest
termination_by s.length
decreasing_by
  all_goals
    have := length_skipString_le c rest
    simp only [List.length_cons, List.length_tail]
    omega

theorem length_skipTemplate_le (outer : List Nat) (depth : Nat) (s : Bytes) :
    (skipTemplate outer depth s).length ≤ s.length := by
  fun_induction skipTemplate outer depth s with
  | case1 => exact Nat.le_refl _
  | case9 depth outer c rest _ _ _ _ ih =>
    have := length_skipString_le c rest
    simp only [List.length_cons]
    omega
  | _ => simp_all <;> omega

/-- Whether a comment starts here that is opened by a slash and the given byte. -/
def startsComment (second : UInt8) (s : Bytes) : Bool :=
  s.head? = some '/'.toUInt8 && s.tail.head? = some second

/-- What follows the blanks and comments at the front. -/
def skipTrivia (s : Bytes) : Bytes :=
  match s with
  | [] => []
  | c :: rest =>
    if isBlankByte c then skipTrivia rest
    else if startsComment '/'.toUInt8 (c :: rest) then skipTrivia (skipLine rest)
    else if startsComment '*'.toUInt8 (c :: rest) then skipTrivia (skipBlock rest.tail)
    else c :: rest
termination_by s.length
decreasing_by
  · simp
  · exact Nat.lt_succ_of_le (length_skipLine_le rest)
  · have := length_skipBlock_le rest.tail
    simp only [List.length_cons, List.length_tail] at *
    omega

theorem length_skipTrivia_le (s : Bytes) : (skipTrivia s).length ≤ s.length := by
  fun_induction skipTrivia s with
  | case1 => exact Nat.le_refl _
  | case2 c rest _ ih => exact Nat.le_succ_of_le ih
  | case3 c rest _ _ ih =>
    have := length_skipLine_le rest
    simp only [List.length_cons]
    omega
  | case4 c rest _ _ _ ih =>
    have := length_skipBlock_le rest.tail
    simp only [List.length_cons, List.length_tail] at *
    omega
  | case5 => exact Nat.le_refl _

/-! ### Looking ahead from a keyword -/

/-- A specifier that was found, given by what follows its opening and its closing quote. -/
structure Mark where
  kind : Kind
  quote : UInt8
  content : Bytes
  rest : Bytes

/-- What follows the closing quote of a string, if it is closed on its line. -/
def closing? (quote : UInt8) : Bytes → Option Bytes
  | [] => none
  | c :: rest =>
    if c = '\\'.toUInt8 then
      match rest with
      | [] => none
      | _ :: rest => closing? quote rest
    else if c = '\n'.toUInt8 then none
    else if c = quote then some rest
    else closing? quote rest

/-- The specifier that starts here, if a closed string does. -/
def literalAt? (kind : Kind) : Bytes → Option Mark
  | [] => none
  | c :: rest => if isQuoteByte c then (closing? c rest).map (⟨kind, c, rest, ·⟩) else none

/-- Whether a string starts here. -/
def quoteStarts (s : Bytes) : Bool :=
  s.head?.any isQuoteByte

/-- Walk a clause up to the first `from` outside braces that a string follows, where `depth` braces
are open. -/
def clauseAt? (kind : Kind) (depth : Nat) (s : Bytes) : Option Mark :=
  match h : skipTrivia s with
  | [] => none
  | c :: rest =>
    if c = '\x7b'.toUInt8 then if 0 < depth then none else clauseAt? kind (depth + 1) rest
    else if c = '\x7d'.toUInt8 then if depth = 0 then none else clauseAt? kind (depth - 1) rest
    else if c = '*'.toUInt8 ∨ c = ','.toUInt8 then clauseAt? kind depth rest
    else if isQuoteByte c ∧ 0 < depth then clauseAt? kind depth (skipString c rest)
    else if isWordStartByte c then
      if depth = 0 ∧ c :: rest.takeWhile isWordByte = fromWord.map Char.toUInt8
          ∧ quoteStarts (skipTrivia (skipWord rest)) then
        literalAt? kind (skipTrivia (skipWord rest))
      else clauseAt? kind depth (skipWord rest)
    else none
termination_by s.length
decreasing_by
  all_goals
    have hs := length_skipTrivia_le s
    have := length_skipString_le c rest
    have := length_skipWord_le rest
    rw [h, List.length_cons] at hs
    omega

/-- Whether a call with one string goes on with the end of the arguments or the next one. -/
def closesCallAt (s : Bytes) : Bool :=
  (skipTrivia s).head?.any fun c => c = ')'.toUInt8 || c = ','.toUInt8

/-- The specifier behind the keyword `import`. -/
def importAt? (s : Bytes) : Option Mark :=
  match skipTrivia s with
  | [] => none
  | c :: rest =>
    if isQuoteByte c then literalAt? .sideEffect (c :: rest)
    else if c = '('.toUInt8 then
      (literalAt? .dynamic (skipTrivia rest)).filter fun m => closesCallAt m.rest
    else if c = '.'.toUInt8 then none
    else clauseAt? .importFrom 0 s

/-- The specifier behind a word, if the word is a keyword that has one. -/
def statementAt? (word s : Bytes) : Option Mark :=
  if word = importWord.map Char.toUInt8 then importAt? s
  else if word = exportWord.map Char.toUInt8 then clauseAt? .exportFrom 0 s
  else none

theorem length_of_closing? {quote : UInt8} {s rest : Bytes} (h : closing? quote s = some rest) :
    rest.length < s.length := by
  fun_induction closing? quote s <;> simp_all <;> omega

theorem length_of_literalAt? {kind : Kind} {s : Bytes} {m : Mark}
    (h : literalAt? kind s = some m) : m.rest.length < s.length := by
  unfold literalAt? at h
  split at h
  · simp at h
  · split at h
    · obtain ⟨rest, hr, rfl⟩ := Option.map_eq_some_iff.mp h
      have := length_of_closing? hr
      simp only [List.length_cons]
      omega
    · simp at h

theorem length_of_skipTrivia_eq {s : Bytes} {c : UInt8} {rest : Bytes}
    (h : skipTrivia s = c :: rest) : rest.length < s.length := by
  have hs := length_skipTrivia_le s
  rw [h, List.length_cons] at hs
  omega

theorem length_of_clauseAt? {kind : Kind} {depth : Nat} {s : Bytes} {m : Mark}
    (h : clauseAt? kind depth s = some m) : m.rest.length < s.length := by
  fun_induction clauseAt? kind depth s with
  | case3 depth s rest _ hs ih | case5 depth s rest _ hs _ ih | case6 depth s c rest hs _ _ _ ih =>
    exact Nat.lt_trans (ih h) (length_of_skipTrivia_eq hs)
  | case7 depth s c rest hs _ _ _ _ ih =>
    exact Nat.lt_of_lt_of_le (ih h)
      (Nat.le_trans (length_skipString_le c rest) (Nat.le_of_lt (length_of_skipTrivia_eq hs)))
  | case8 depth s c rest hs =>
    exact Nat.lt_of_lt_of_le (length_of_literalAt? h) (Nat.le_trans (length_skipTrivia_le _)
      (Nat.le_trans (length_skipWord_le rest) (Nat.le_of_lt (length_of_skipTrivia_eq hs))))
  | case9 depth s c rest hs _ _ _ _ _ _ ih =>
    exact Nat.lt_of_lt_of_le (ih h)
      (Nat.le_trans (length_skipWord_le rest) (Nat.le_of_lt (length_of_skipTrivia_eq hs)))
  | _ => simp at h

theorem length_of_importAt? {s : Bytes} {m : Mark} (h : importAt? s = some m) :
    m.rest.length < s.length := by
  unfold importAt? at h
  split at h
  · simp at h
  · next c rest hs =>
    have hle := length_of_skipTrivia_eq hs
    split at h
    · have := length_of_literalAt? h
      simp only [List.length_cons] at this
      omega
    · split at h
      · have := length_of_literalAt? (Option.filter_eq_some_iff.mp h).1
        have := length_skipTrivia_le rest
        omega
      · split at h
        · simp at h
        · exact length_of_clauseAt? h

theorem length_of_statementAt? {word s : Bytes} {m : Mark} (h : statementAt? word s = some m) :
    m.rest.length < s.length := by
  unfold statementAt? at h
  split at h
  · exact length_of_importAt? h
  · split at h
    · exact length_of_clauseAt? h
    · simp at h

/-! ### The pass over a script -/

/-- Whether the byte before what is left of a script is a dot. -/
def followsDot (script s : Bytes) : Bool :=
  let i := script.length - s.length
  0 < i && script[i - 1]? = some '.'.toUInt8

/-- The specifiers in what is left of a script. A keyword directly behind a dot is the name of a
member. -/
def marksFrom (script s : Bytes) : List Mark :=
  match s with
  | [] => []
  | c :: rest =>
    if startsComment '/'.toUInt8 (c :: rest) then marksFrom script (skipLine rest)
    else if startsComment '*'.toUInt8 (c :: rest) then marksFrom script (skipBlock rest.tail)
    else if isQuoteByte c then marksFrom script (skipString c rest)
    else if c = '\x60'.toUInt8 then marksFrom script (skipTemplate [] 0 rest)
    else if isWordStartByte c then
      match _found : statementAt? (c :: rest.takeWhile isWordByte) (skipWord rest) with
      | some m =>
        if followsDot script (c :: rest) then marksFrom script (skipWord rest)
        else m :: marksFrom script m.rest
      | none => marksFrom script (skipWord rest)
    else marksFrom script rest
termination_by s.length
decreasing_by
  · exact Nat.lt_succ_of_le (length_skipLine_le rest)
  · exact Nat.lt_succ_of_le (Nat.le_trans (length_skipBlock_le _) (by simp))
  · exact Nat.lt_succ_of_le (length_skipString_le c rest)
  · exact Nat.lt_succ_of_le (length_skipTemplate_le [] 0 rest)
  · exact Nat.lt_succ_of_le (length_skipWord_le rest)
  · exact Nat.lt_trans (length_of_statementAt? _found)
      (Nat.lt_succ_of_le (length_skipWord_le rest))
  · exact Nat.lt_succ_of_le (length_skipWord_le rest)
  · exact Nat.lt_succ_self _

/-- The part of a script between two bytes that start characters. -/
def slice (source : String) (start stop : Nat) : String :=
  (String.fromUTF8? (source.toUTF8.extract start stop)).getD ""

/-- The bytes that a specifier takes up in a script. -/
def Mark.span (source : String) (m : Mark) : Span :=
  let start := source.utf8ByteSize - m.content.length
  let stop := source.utf8ByteSize - (m.rest.length + 1)
  ⟨start, stop, m.kind, Char.ofNat m.quote.toNat, slice source start stop⟩

/-- Every specifier of a script, in order of appearance. -/
def scan (source : String) : List Span :=
  (marksFrom (bytes source) (bytes source)).map (Mark.span source)

end Script

end AddonBuild
