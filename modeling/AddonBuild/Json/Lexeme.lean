import AddonBuild.Json.Basic
import AddonBuild.Json.Fault

/-!
# Words, strings and numbers of a JSON text

Each reader takes the input from where its lexeme starts and returns what is left behind it, or
the place where it had to stop. Strings and numbers can be read in two ways: for their value, or
only to find where they end.
-/

namespace AddonBuild

namespace Json

/-- A reader of one part of the input. -/
abbrev Reader (α : Type) := List UInt8 → Except Halt (α × List UInt8)

/-- Stop, with the given input left. -/
def stop {α : Type} (cause : Cause) (rest : List UInt8) : Except Halt α :=
  .error ⟨cause, rest⟩

/-- A byte that separates lexemes. -/
def isBlank (b : UInt8) : Bool :=
  b == 0x20 || b == 0x09 || b == 0x0A || b == 0x0D

/-- The input behind the blanks in front. -/
def skipBlank (s : List UInt8) : List UInt8 :=
  s.dropWhile isBlank

theorem length_skipBlank_le (s : List UInt8) : (skipBlank s).length ≤ s.length :=
  (List.dropWhile_sublist _).length_le

/-! ### Words -/

/-- Read the remaining letters of a word such as `true`. -/
def word (expected : List UInt8) : Reader Unit :=
  match expected with
  | [] => fun s => .ok ((), s)
  | e :: more => fun
    | [] => stop .endInValue []
    | b :: rest => if b = e then word more rest else stop .expectedIdentifier rest

theorem length_word {expected s rest : List UInt8} (h : word expected s = .ok ((), rest)) :
    rest.length ≤ s.length := by
  induction expected generalizing s with
  | nil => simp only [word, Except.ok.injEq, Prod.mk.injEq, true_and] at h; simp [h]
  | cons e more ih =>
    cases s with
    | nil => simp [word, stop] at h
    | cons b s =>
      simp only [word] at h
      split at h
      · exact Nat.le_succ_of_le (ih h)
      · simp [stop] at h

/-! ### Strings -/

/-- The value of a hexadecimal digit. -/
def hexDigit? (b : UInt8) : Option Nat :=
  if 0x30 ≤ b ∧ b ≤ 0x39 then some (b.toNat - 0x30)
  else if 0x61 ≤ b ∧ b ≤ 0x66 then some (b.toNat - 0x57)
  else if 0x41 ≤ b ∧ b ≤ 0x46 then some (b.toNat - 0x37)
  else none

/-- Read four hexadecimal digits. -/
def hexFour : Reader Nat
  | a :: b :: c :: d :: rest =>
    match hexDigit? a, hexDigit? b, hexDigit? c, hexDigit? d with
    | some a, some b, some c, some d => .ok (((a * 16 + b) * 16 + c) * 16 + d, rest)
    | _, _, _, _ => stop .invalidEscape rest
  | _ => stop .endInString []

/-- The UTF-8 form of a code point. -/
def encodePoint (n : Nat) : List UInt8 :=
  String.utf8EncodeChar (Char.ofNat n)

/-- Whether a code unit opens a pair of surrogates. -/
def isHighSurrogate (n : Nat) : Bool :=
  0xD800 ≤ n && n ≤ 0xDBFF

/-- Whether a code unit closes a pair of surrogates. -/
def isLowSurrogate (n : Nat) : Bool :=
  0xDC00 ≤ n && n ≤ 0xDFFF

/-- Read the second half of a pair of surrogates, from its backslash on. -/
def lowHalf (high : Nat) : Reader (List UInt8)
  | 0x5C :: 0x75 :: rest =>
    match hexFour rest with
    | .error halt => .error halt
    | .ok (low, rest) =>
      if isLowSurrogate low then
        .ok (encodePoint ((high - 0xD800) * 0x400 + (low - 0xDC00) + 0x10000), rest)
      else stop .loneSurrogate rest
  | 0x5C :: _ :: rest => stop .cutHexEscape rest
  | [0x5C] => stop .endInString []
  | _ :: rest => stop .cutHexEscape rest
  | [] => stop .endInString []

/-- Read a code point escape from its digits on. -/
def pointEscape (s : List UInt8) : Except Halt (List UInt8 × List UInt8) :=
  match hexFour s with
  | .error halt => .error halt
  | .ok (n, rest) =>
    if isLowSurrogate n then stop .loneSurrogate rest
    else if isHighSurrogate n then lowHalf n rest
    else .ok (encodePoint n, rest)

/-- What the letter of a short escape stands for. -/
def shortEscape? (b : UInt8) : Option UInt8 :=
  match b with
  | 0x22 => some 0x22
  | 0x5C => some 0x5C
  | 0x2F => some 0x2F
  | 0x62 => some 0x08
  | 0x66 => some 0x0C
  | 0x6E => some 0x0A
  | 0x72 => some 0x0D
  | 0x74 => some 0x09
  | _ => none

/-- Read an escape from behind its backslash. -/
def escape : Reader (List UInt8)
  | [] => stop .endInString []
  | b :: rest =>
    match shortEscape? b with
    | some value => .ok ([value], rest)
    | none => if b = 0x75 then pointEscape rest else stop .invalidEscape rest

/-- Find the end of an escape, from behind its backslash. -/
def skimEscape : Reader (List UInt8)
  | [] => stop .endInString []
  | b :: rest =>
    match shortEscape? b with
    | some _ => .ok ([], rest)
    | none =>
      if b = 0x75 then
        match hexFour rest with
        | .error halt => .error halt
        | .ok (_, rest) => .ok ([], rest)
      else stop .invalidEscape rest

theorem length_hexFour {s rest : List UInt8} {n : Nat} (h : hexFour s = .ok (n, rest)) :
    rest.length < s.length := by
  unfold hexFour at h
  split at h
  · split at h
    · simp only [Except.ok.injEq, Prod.mk.injEq] at h
      simp only [← h.2, List.length_cons]
      omega
    · simp [stop] at h
  · simp [stop] at h

theorem length_lowHalf {high : Nat} {s out rest : List UInt8}
    (h : lowHalf high s = .ok (out, rest)) : rest.length < s.length := by
  unfold lowHalf at h
  split at h
  · split at h
    · simp at h
    · next low rest' hf =>
      have := length_hexFour hf
      split at h
      · simp only [Except.ok.injEq, Prod.mk.injEq] at h
        simp only [← h.2, List.length_cons]
        omega
      · simp [stop] at h
  all_goals simp [stop] at h

theorem length_pointEscape {s out rest : List UInt8} (h : pointEscape s = .ok (out, rest)) :
    rest.length < s.length := by
  unfold pointEscape at h
  split at h
  · simp at h
  · next n rest' hf =>
    have := length_hexFour hf
    split at h
    · simp [stop] at h
    · split at h
      · have := length_lowHalf h
        omega
      · simp only [Except.ok.injEq, Prod.mk.injEq] at h
        rw [← h.2]
        omega

theorem length_escape {s out rest : List UInt8} (h : escape s = .ok (out, rest)) :
    rest.length < s.length := by
  unfold escape at h
  split at h
  · simp [stop] at h
  · split at h
    · simp only [Except.ok.injEq, Prod.mk.injEq] at h
      simp [← h.2]
    · split at h
      · have := length_pointEscape h
        simp only [List.length_cons]
        omega
      · simp [stop] at h

theorem length_skimEscape {s out rest : List UInt8} (h : skimEscape s = .ok (out, rest)) :
    rest.length < s.length := by
  unfold skimEscape at h
  split at h
  · simp [stop] at h
  · split at h
    · simp only [Except.ok.injEq, Prod.mk.injEq] at h
      simp [← h.2]
    · split at h
      · split at h
        · simp at h
        · next hf =>
          have := length_hexFour hf
          simp only [Except.ok.injEq, Prod.mk.injEq] at h
          simp only [← h.2, List.length_cons]
          omega
      · simp [stop] at h

/-- The bytes of a string up to its closing quote, with escapes replaced. -/
def stringBytes (s : List UInt8) : Except Halt (List UInt8 × List UInt8) :=
  match s with
  | [] => stop .endInString []
  | b :: rest =>
    if b = 0x22 then .ok ([], rest)
    else if b = 0x5C then
      match h : escape rest with
      | .error halt => .error halt
      | .ok (out, behind) =>
        have : behind.length < rest.length := length_escape h
        match stringBytes behind with
        | .error halt => .error halt
        | .ok (more, rest) => .ok (out ++ more, rest)
    else if b < 0x20 then stop .controlCharacter rest
    else
      match stringBytes rest with
      | .error halt => .error halt
      | .ok (more, rest) => .ok (b :: more, rest)
termination_by s.length

/-- The input behind the closing quote of a string whose content does not matter. -/
def skimString (s : List UInt8) : Except Halt (Unit × List UInt8) :=
  match s with
  | [] => stop .endInString []
  | b :: rest =>
    if b = 0x22 then .ok ((), rest)
    else if b = 0x5C then
      match h : skimEscape rest with
      | .error halt => .error halt
      | .ok (_, behind) =>
        have : behind.length < rest.length := length_skimEscape h
        skimString behind
    else if b < 0x20 then stop .controlCharacter (b :: rest)
    else skimString rest
termination_by s.length

theorem length_stringBytes {s out rest : List UInt8} (h : stringBytes s = .ok (out, rest)) :
    rest.length < s.length := by
  fun_induction stringBytes s generalizing out rest <;>
    simp_all [stop] <;> grind

theorem length_skimString {s rest : List UInt8} (h : skimString s = .ok ((), rest)) :
    rest.length < s.length := by
  fun_induction skimString s generalizing rest <;>
    simp_all [stop] <;> grind

/-- Whether a byte continues a sequence of UTF-8. -/
def isContinuation (b : UInt8) : Bool :=
  0x80 ≤ b && b ≤ 0xBF

/-- The input from the first byte on that is no UTF-8. -/
def fromInvalid : List UInt8 → List UInt8
  | [] => []
  | a :: s =>
    if a < 0x80 then fromInvalid s
    else match s with
      | [] => a :: s
      | b :: s' =>
        if 0xC2 ≤ a ∧ a ≤ 0xDF ∧ isContinuation b then fromInvalid s'
        else match s' with
          | [] => a :: s
          | c :: s'' =>
            if isContinuation b ∧ isContinuation c ∧
                (0xE1 ≤ a ∧ a ≤ 0xEC ∨ a = 0xE0 ∧ 0xA0 ≤ b ∨ a = 0xED ∧ b ≤ 0x9F ∨
                  a = 0xEE ∨ a = 0xEF) then
              fromInvalid s''
            else match s'' with
              | [] => a :: s
              | d :: s''' =>
                if isContinuation b ∧ isContinuation c ∧ isContinuation d ∧
                    (0xF1 ≤ a ∧ a ≤ 0xF3 ∨ a = 0xF0 ∧ 0x90 ≤ b ∨ a = 0xF4 ∧ b ≤ 0x8F) then
                  fromInvalid s'''
                else a :: s

/-- Read a string from behind its opening quote. Its content has to be UTF-8. If it is not, the
place of the fault lies as many bytes before the end of the string as there are in the content from
the first wrong byte on. -/
def quoted : Reader String := fun s =>
  match stringBytes s with
  | .error halt => .error halt
  | .ok (content, rest) =>
    match String.fromUTF8? ⟨content.toArray⟩ with
    | some text => .ok (text, rest)
    | none =>
      stop .invalidUnicode (s.drop (s.length - (rest.length + (fromInvalid content).length)))

theorem length_quoted {s rest : List UInt8} {text : String} (h : quoted s = .ok (text, rest)) :
    rest.length < s.length := by
  unfold quoted at h
  split at h
  · simp at h
  · next hs =>
    split at h
    · simp only [Except.ok.injEq, Prod.mk.injEq] at h
      exact h.2 ▸ length_stringBytes hs
    · simp [stop] at h

/-! ### Numbers -/

/-- Whether a byte is a decimal digit. -/
def isDigit (b : UInt8) : Bool :=
  0x30 ≤ b && b ≤ 0x39

/-- The value of a decimal digit. -/
def digitValue (b : UInt8) : Nat :=
  b.toNat - 0x30

/-- The greatest unsigned 64-bit word. -/
def maxWord : Nat := 0xFFFFFFFFFFFFFFFF

/-- The greatest exponent that is read digit by digit. -/
def maxExponent : Nat := 0x7FFFFFFF

/-- Append digits to a whole number while it fits a 64-bit word. Returns the digits that no longer
fit as well. -/
def absorb (value : Nat) : List UInt8 → Nat × List UInt8
  | [] => (value, [])
  | b :: rest =>
    let next := value * 10 + digitValue b
    if next ≤ maxWord then absorb next rest else (value, b :: rest)

/-- The greatest power of ten that a number is scaled by in one step. -/
def greatestStep : Nat := 308

/-- Divide a number by the greatest step again and again, until nothing is left of it. -/
def shrink (x : Binary64) : Nat → Option Binary64
  | 0 => some x
  | times + 1 =>
    if x.significand = 0 then some x
    else
      match (Binary64.powerOfTen? greatestStep).bind x.div? with
      | some smaller => shrink smaller times
      | none => none

/-- Scale a number by a power of ten of any size, in steps that the format holds. There is no
result when it becomes too great. -/
def scale? (x : Binary64) (exponent : Int) : Option Binary64 :=
  let size := exponent.natAbs
  if exponent < 0 then
    let steps := (size - 1) / greatestStep
    match shrink x steps, Binary64.powerOfTen? (size - steps * greatestStep) with
    | some smaller, some power => smaller.div? power
    | _, _ => none
  else if size ≤ greatestStep then (Binary64.powerOfTen? size).bind x.mul?
  else if x.significand = 0 then some x
  else none

/-- The floating number `significand * 10 ^ exponent`. -/
def floating (negative : Bool) (significand : Nat) (exponent : Int) : Reader Number := fun rest =>
  match (Binary64.ofRatio? significand 1).bind (scale? · exponent) with
  | some x => .ok (.floating (x.withSign negative), rest)
  | none => stop .numberOutOfRange rest

/-- Read the digits of an exponent. Returns the digits from the one on that makes it too great to
hold, if there is one. -/
def exponentValue (value : Nat) : List UInt8 → Nat × Option (List UInt8)
  | [] => (value, none)
  | b :: rest =>
    let next := value * 10 + digitValue b
    if next ≤ maxExponent then exponentValue next rest else (value, some rest)

/-- Whether an exponent starts with a minus sign, and the input behind its sign. -/
def exponentSign : List UInt8 → Bool × List UInt8
  | 0x2B :: rest => (false, rest)
  | 0x2D :: rest => (true, rest)
  | s => (false, s)

/-- Keep an exponent in the range of a 32-bit word. -/
def clampExponent (e : Int) : Int :=
  max (-0x80000000) (min e 0x7FFFFFFF)

/-- Read an exponent from behind its letter. -/
def exponentPart (negative : Bool) (significand : Nat) (start : Int) : Reader Number := fun s =>
  let (down, s) := exponentSign s
  match s with
  | [] => stop .endInValue []
  | b :: behind =>
    if isDigit b then
      let digits := s.takeWhile isDigit
      let rest := s.dropWhile isDigit
      match exponentValue 0 digits with
      | (e, none) =>
        floating negative significand (clampExponent (if down then start - e else start + e)) rest
      | (_, some unread) =>
        if significand ≠ 0 ∧ ¬down then stop .numberOutOfRange (unread ++ rest)
        else .ok (.floating (Binary64.zero.withSign negative), rest)
    else stop .invalidNumber behind

/-- Whether a byte announces an exponent. -/
def isExponentMark (b : UInt8) : Bool :=
  b == 0x65 || b == 0x45

/-- Read a fraction from behind its point. -/
def fractionPart (negative : Bool) (significand : Nat) (start : Int) : Reader Number := fun s =>
  let digits := s.takeWhile isDigit
  let rest := s.dropWhile isDigit
  if digits.isEmpty then
    match rest with
    | [] => stop .endInValue []
    | _ :: behind => stop .invalidNumber behind
  else
    let (value, left) := absorb significand digits
    let exponent := start - (digits.length - left.length : Nat)
    match rest with
    | b :: behind =>
      if isExponentMark b then exponentPart negative value exponent behind
      else floating negative value exponent rest
    | [] => floating negative value exponent rest

/-- A whole number when it fits 64 bits, and a floating one for `-0` and beyond. -/
def wholeNumber (negative : Bool) (value : Nat) : Number :=
  if negative then
    if value = 0 ∨ 0x8000000000000000 < value then
      .floating (((Binary64.ofRatio? value 1).getD .zero).withSign true)
    else .whole (-(value : Int))
  else .whole value

/-- Read what may follow the whole digits of a number. -/
def numberTail (negative : Bool) (value : Nat) (overflow : Nat) : Reader Number := fun rest =>
  let plain : Except Halt (Number × List UInt8) :=
    if overflow = 0 then .ok (wholeNumber negative value, rest)
    else floating negative value overflow rest
  match rest with
  | b :: behind =>
    if b = 0x2E then fractionPart negative value overflow behind
    else if isExponentMark b then exponentPart negative value overflow behind
    else plain
  | [] => plain

/-- Read a number from behind its sign. -/
def numeral (negative : Bool) : Reader Number := fun s =>
  match s with
  | [] => stop .endInValue []
  | b :: behind =>
    if b = 0x30 then
      match behind with
      | c :: after =>
        if isDigit c then stop .invalidNumber after else numberTail negative 0 0 behind
      | [] => numberTail negative 0 0 behind
    else if isDigit b then
      let (value, left) := absorb 0 (s.takeWhile isDigit)
      numberTail negative value left.length (s.dropWhile isDigit)
    else stop .invalidNumber behind

theorem length_dropWhile_le (p : UInt8 → Bool) (s : List UInt8) :
    (s.dropWhile p).length ≤ s.length :=
  (List.dropWhile_sublist p).length_le

theorem length_exponentSign_le (s : List UInt8) : (exponentSign s).2.length ≤ s.length := by
  unfold exponentSign
  split <;> simp

theorem length_floating {negative : Bool} {significand : Nat} {exponent : Int} {s rest : List UInt8}
    {n : Number} (h : floating negative significand exponent s = .ok (n, rest)) : rest = s := by
  unfold floating at h
  split at h
  · simp_all
  · simp [stop] at h

theorem length_exponentPart {negative : Bool} {significand : Nat} {start : Int}
    {s rest : List UInt8} {n : Number}
    (h : exponentPart negative significand start s = .ok (n, rest)) :
    rest.length ≤ s.length := by
  have hs := length_exponentSign_le s
  unfold exponentPart at h
  simp only at h
  split at h
  · simp [stop] at h
  · next b behind hb =>
    have hd := length_dropWhile_le isDigit (exponentSign s).2
    split at h
    · split at h
      · have := length_floating h
        subst this
        omega
      · split at h
        · simp [stop] at h
        · simp only [Except.ok.injEq, Prod.mk.injEq] at h
          rw [← h.2]
          omega
    · simp [stop] at h

theorem length_fractionPart {negative : Bool} {significand : Nat} {start : Int}
    {s rest : List UInt8} {n : Number}
    (h : fractionPart negative significand start s = .ok (n, rest)) :
    rest.length ≤ s.length := by
  have hd := length_dropWhile_le isDigit s
  unfold fractionPart at h
  simp only at h
  split at h
  · split at h <;> simp [stop] at h
  · split at h
    · next b behind hb =>
      rw [hb] at hd
      simp only [List.length_cons] at hd
      split at h
      · have := length_exponentPart h
        omega
      · have := length_floating h
        subst this
        rw [hb]
        simpa using hd
    · have := length_floating h
      subst this
      exact hd

theorem length_numberTail {negative : Bool} {value overflow : Nat} {s rest : List UInt8}
    {n : Number} (h : numberTail negative value overflow s = .ok (n, rest)) :
    rest.length ≤ s.length := by
  unfold numberTail at h
  simp only at h
  have plain : (if overflow = 0 then .ok (wholeNumber negative value, s)
      else floating negative value overflow s) = Except.ok (n, rest) →
        rest.length ≤ s.length := by
    intro h
    split at h
    · simp_all
    · exact (length_floating h) ▸ Nat.le_refl _
  split at h
  · split at h
    · have := length_fractionPart h
      simp only [List.length_cons]
      omega
    · split at h
      · have := length_exponentPart h
        simp only [List.length_cons]
        omega
      · exact plain h
  · exact plain h

theorem length_numeral {negative : Bool} {s rest : List UInt8} {n : Number}
    (h : numeral negative s = .ok (n, rest)) : rest.length < s.length := by
  unfold numeral at h
  split at h
  · simp [stop] at h
  · next b behind =>
    split at h
    · split at h
      · split at h
        · simp [stop] at h
        · have := length_numberTail h
          simp only [List.length_cons] at this ⊢
          omega
      · have := length_numberTail h
        simp only [List.length_nil, List.length_cons] at this ⊢
        omega
    · split at h
      · next hd =>
        have := length_numberTail h
        have hb := length_dropWhile_le isDigit behind
        simp only [List.dropWhile_cons, hd, if_true, List.length_cons] at this ⊢
        omega
      · simp [stop] at h

/-- Find the end of an exponent, from behind its letter. -/
def skimExponent : Reader Unit := fun s =>
  match (exponentSign s).2 with
  | [] => stop .invalidNumber []
  | b :: behind =>
    if isDigit b then .ok ((), behind.dropWhile isDigit) else stop .invalidNumber behind

/-- Find the end of a fraction, from behind its point. -/
def skimFraction : Reader Unit := fun s =>
  let rest := s.dropWhile isDigit
  if (s.takeWhile isDigit).isEmpty then stop .invalidNumber rest.tail
  else match rest with
    | b :: behind => if isExponentMark b then skimExponent behind else .ok ((), rest)
    | [] => .ok ((), rest)

/-- Find the end of a number, from behind its whole digits. -/
def skimTail : Reader Unit := fun rest =>
  match rest with
  | b :: behind =>
    if b = 0x2E then skimFraction behind
    else if isExponentMark b then skimExponent behind
    else .ok ((), rest)
  | [] => .ok ((), rest)

/-- Find the end of a number, from behind its sign. -/
def skimNumber : Reader Unit := fun s =>
  match s with
  | [] => stop .invalidNumber []
  | b :: behind =>
    if b = 0x30 then
      match behind with
      | c :: after => if isDigit c then stop .invalidNumber after else skimTail behind
      | [] => skimTail behind
    else if isDigit b then skimTail (behind.dropWhile isDigit)
    else stop .invalidNumber behind

theorem length_skimExponent {s rest : List UInt8} (h : skimExponent s = .ok ((), rest)) :
    rest.length ≤ s.length := by
  have hs := length_exponentSign_le s
  unfold skimExponent at h
  split at h
  · simp [stop] at h
  · next b behind hb =>
    have hd := length_dropWhile_le isDigit behind
    rw [hb] at hs
    split at h
    · simp only [Except.ok.injEq, Prod.mk.injEq, true_and, List.length_cons] at h hs
      rw [← h]
      omega
    · simp [stop] at h

theorem length_skimFraction {s rest : List UInt8} (h : skimFraction s = .ok ((), rest)) :
    rest.length ≤ s.length := by
  have hd := length_dropWhile_le isDigit s
  unfold skimFraction at h
  simp only at h
  split at h
  · simp [stop] at h
  · split at h
    · next b behind hb =>
      rw [hb] at hd
      simp only [List.length_cons] at hd
      split at h
      · have := length_skimExponent h
        omega
      · simp only [Except.ok.injEq, Prod.mk.injEq, true_and] at h
        rw [← h, hb]
        simpa using hd
    · simp only [Except.ok.injEq, Prod.mk.injEq, true_and] at h
      rw [← h]
      exact hd

theorem length_skimTail {s rest : List UInt8} (h : skimTail s = .ok ((), rest)) :
    rest.length ≤ s.length := by
  unfold skimTail at h
  split at h
  · split at h
    · have := length_skimFraction h
      simp only [List.length_cons]
      omega
    · split at h
      · have := length_skimExponent h
        simp only [List.length_cons]
        omega
      · simp_all
  · simp_all

theorem length_skimNumber {s rest : List UInt8} (h : skimNumber s = .ok ((), rest)) :
    rest.length < s.length := by
  unfold skimNumber at h
  split at h
  · simp [stop] at h
  · next b behind =>
    have hd := length_dropWhile_le isDigit behind
    split at h
    · split at h
      · split at h
        · simp [stop] at h
        · have := length_skimTail h
          simp only [List.length_cons] at this ⊢
          omega
      · have := length_skimTail h
        simp only [List.length_nil, List.length_cons] at this ⊢
        omega
    · split at h
      · have := length_skimTail h
        simp only [List.length_cons]
        omega
      · simp [stop] at h

end Json

end AddonBuild
