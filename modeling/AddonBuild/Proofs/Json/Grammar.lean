import AddonBuild.Document
import AddonBuild.Proofs.Json.Relaxing
import AddonBuild.Proofs.Script.Encoding

/-!
# The grammar of JSON

The texts of JSON as their grammar derives them, apart from how they are read. None of them has a
comment or a trailing comma outside of its strings, so that such a text is left as it is when these
are left out.
-/

namespace AddonBuild

namespace Json

/-! ### Derivations -/

namespace Grammar

/-- White space, of any length. -/
def IsSpace (w : List Char) : Prop :=
  ∀ c ∈ w, c = ' ' ∨ c = '\t' ∨ c = '\n' ∨ c = '\r'

/-- A digit or more. -/
def IsDigits (w : List Char) : Prop :=
  w ≠ [] ∧ ∀ c ∈ w, '0' ≤ c ∧ c ≤ '9'

/-- The digits before the point of a number, which start with a zero only if they are just that. -/
def IsWhole (w : List Char) : Prop :=
  IsDigits w ∧ (w.head? = some '0' → w = ['0'])

/-- The point of a number and the digits behind it. -/
def IsFraction (w : List Char) : Prop :=
  ∃ digits, IsDigits digits ∧ w = '.' :: digits

/-- The exponent of a number, with or without a sign. -/
def IsExponent (w : List Char) : Prop :=
  ∃ mark sign digits, (mark = 'e' ∨ mark = 'E') ∧ (sign = [] ∨ sign = ['+'] ∨ sign = ['-']) ∧
    IsDigits digits ∧ w = mark :: (sign ++ digits)

/-- A number: a minus sign, a fraction and an exponent may be missing. -/
def IsNumber (w : List Char) : Prop :=
  ∃ sign whole fraction exponent, (sign = [] ∨ sign = ['-']) ∧ IsWhole whole ∧
    (fraction = [] ∨ IsFraction fraction) ∧ (exponent = [] ∨ IsExponent exponent) ∧
    w = sign ++ (whole ++ (fraction ++ exponent))

/-- A digit of a code unit that is written in hexadecimal. -/
def IsHexDigit (c : Char) : Prop :=
  ('0' ≤ c ∧ c ≤ '9') ∨ ('a' ≤ c ∧ c ≤ 'f') ∨ ('A' ≤ c ∧ c ≤ 'F')

/-- What stands between the quotes of a string. A code unit may be half of a pair without the
other half. -/
inductive IsContent : List Char → Prop where
  | nil : IsContent []
  | unescaped {c : Char} {rest : List Char} (hcontrol : 0x20 ≤ c.toNat) (hquote : c ≠ '"')
      (hslash : c ≠ '\\') (h : IsContent rest) : IsContent (c :: rest)
  | escape {c : Char} {rest : List Char} (hc : c ∈ ['"', '\\', '/', 'b', 'f', 'n', 'r', 't'])
      (h : IsContent rest) : IsContent ('\\' :: c :: rest)
  | unit {a b c d : Char} {rest : List Char} (ha : IsHexDigit a) (hb : IsHexDigit b)
      (hc : IsHexDigit c) (hd : IsHexDigit d) (h : IsContent rest) :
      IsContent ('\\' :: 'u' :: a :: b :: c :: d :: rest)

/-- A string with its quotes. -/
def IsString (w : List Char) : Prop :=
  ∃ content, IsContent content ∧ w = '"' :: (content ++ ['"'])

/-- The parts of a text that are made of one another. An element is a value with white space around
it. -/
inductive Category where
  | value
  | element
  | elements
  | member
  | members

/-- The texts that the grammar derives. -/
inductive Derives : Category → List Char → Prop where
  | null : Derives .value ['n', 'u', 'l', 'l']
  | true : Derives .value ['t', 'r', 'u', 'e']
  | false : Derives .value ['f', 'a', 'l', 's', 'e']
  | number {w : List Char} (h : IsNumber w) : Derives .value w
  | string {w : List Char} (h : IsString w) : Derives .value w
  | emptyArray {w : List Char} (h : IsSpace w) : Derives .value ('[' :: (w ++ [']']))
  | array {w : List Char} (h : Derives .elements w) : Derives .value ('[' :: (w ++ [']']))
  | emptyObject {w : List Char} (h : IsSpace w) : Derives .value ('\x7b' :: (w ++ ['\x7d']))
  | object {w : List Char} (h : Derives .members w) : Derives .value ('\x7b' :: (w ++ ['\x7d']))
  | element {before w behind : List Char} (hbefore : IsSpace before) (h : Derives .value w)
      (hbehind : IsSpace behind) : Derives .element (before ++ (w ++ behind))
  | lastElement {w : List Char} (h : Derives .element w) : Derives .elements w
  | elements {w rest : List Char} (h : Derives .element w) (hrest : Derives .elements rest) :
      Derives .elements (w ++ ',' :: rest)
  | member {before key behind w : List Char} (hbefore : IsSpace before) (hkey : IsString key)
      (hbehind : IsSpace behind) (h : Derives .element w) :
      Derives .member (before ++ (key ++ (behind ++ ':' :: w)))
  | lastMember {w : List Char} (h : Derives .member w) : Derives .members w
  | members {w rest : List Char} (h : Derives .member w) (hrest : Derives .members rest) :
      Derives .members (w ++ ',' :: rest)

/-- A text of JSON is a value with white space around it. -/
def IsDocument (text : String) : Prop :=
  Derives .element text.toList

end Grammar

/-! ### Scalars as tokens -/

open Grammar

open Script (encode encode_cons_of_lt encodeChar_of_lt toUInt8_inj ne_toUInt8_of_le
  le_of_mem_encodeChar forall_ascii)

lemma ne_of_mem_encodeChar {c d : Char} (hd : d.toNat < 0x80) (h : c ≠ d) {b : UInt8}
    (hb : b ∈ String.utf8EncodeChar c) : b ≠ d.toUInt8 := by
  by_cases hc : c.toNat < 0x80
  · rw [encodeChar_of_lt hc, List.mem_singleton] at hb
    rw [hb]
    exact mt (toUInt8_inj hc hd).mp h
  · exact ne_toUInt8_of_le (le_of_mem_encodeChar (Nat.le_of_not_lt hc) hb) hd

lemma Closed.append_char {body : List UInt8} (h : Closed body) {c : Char} (hquote : c ≠ '"')
    (hslash : c ≠ '\\') : Closed (String.utf8EncodeChar c ++ body) :=
  h.append_plain fun _ hb =>
    ⟨ne_of_mem_encodeChar (by decide) hquote hb, ne_of_mem_encodeChar (by decide) hslash hb⟩

lemma Grammar.IsHexDigit.ne {c : Char} (h : IsHexDigit c) : c ≠ '"' ∧ c ≠ '\\' := by
  constructor <;>
  · rintro rfl
    revert h
    unfold IsHexDigit
    decide

/-- A string of the grammar ends at its closing quote. -/
lemma Grammar.IsContent.closed {content : List Char} (h : IsContent content) :
    Closed (encode (content ++ ['"'])) := by
  induction h with
  | nil => exact .quote
  | @unescaped c rest hcontrol hquote hslash h ih => exact ih.append_char hquote hslash
  | @escape c rest hc h ih =>
    have hascii : c.toNat < 0x80 := by
      have hall : ['"', '\\', '/', 'b', 'f', 'n', 'r', 't'].all (·.toNat < 0x80) = true := rfl
      exact of_decide_eq_true (List.all_eq_true.mp hall c hc)
    rw [List.cons_append, List.cons_append, encode_cons_of_lt (by decide), encode_cons_of_lt hascii]
    exact .escape _ ih
  | @unit a b c d rest ha hb hc hd h ih =>
    have hplain {c : Char} {body : List UInt8} (hc : IsHexDigit c) (hbody : Closed body) :=
      hbody.append_char hc.ne.1 hc.ne.2
    exact .escape _ (hplain ha (hplain hb (hplain hc (hplain hd ih))))

/-- A token that is a value or a key on its own. -/
structure IsScalar (t : Token) : Prop where
  isToken : IsToken t
  ne_comma : t ≠ [0x2C]
  not_isClosing : ¬ IsClosing t

lemma IsToken.isScalar {b : UInt8} {rest : List UInt8} (h : IsToken (b :: rest))
    (hb : b ≠ 0x2C ∧ b ≠ 0x5D ∧ b ≠ 0x7D) : IsScalar (b :: rest) where
  isToken := h
  ne_comma heq := hb.1 (List.cons.inj heq).1
  not_isClosing := by
    rintro (heq | heq)
    · exact hb.2.1 (List.cons.inj heq).1
    · exact hb.2.2 (List.cons.inj heq).1

lemma Grammar.IsString.isScalar {w : List Char} (h : IsString w) : IsScalar (encode w) := by
  obtain ⟨content, hcontent, rfl⟩ := h
  rw [encode_cons_of_lt (by decide)]
  exact (IsToken.string hcontent.closed).isScalar (by decide)

/-- A character of a number or of a literal. -/
def isWordChar (c : Char) : Bool :=
  c.toNat < 0x80 && isWordByte c.toUInt8

lemma isScalar_of_isWordChar {w : List Char} (hne : w ≠ []) (h : w.all isWordChar = true) :
    IsScalar (encode w) := by
  obtain ⟨c, rest, rfl⟩ := List.exists_cons_of_ne_nil hne
  have hchar {d : Char} (hd : d ∈ c :: rest) : d.toNat < 0x80 ∧ isWordByte d.toUInt8 = true := by
    simpa [isWordChar] using List.all_eq_true.mp h d hd
  have hbytes : ∀ b ∈ encode (c :: rest), isWordByte b = true := by
    intro b hb
    obtain ⟨d, hd, hbd⟩ := List.mem_flatMap.mp hb
    rw [encodeChar_of_lt (hchar hd).1, List.mem_singleton] at hbd
    rw [hbd]
    exact (hchar hd).2
  rw [encode_cons_of_lt (hchar List.mem_cons_self).1] at hbytes ⊢
  have hfirst := hbytes _ List.mem_cons_self
  exact (IsToken.word hbytes).isScalar
    ⟨ne_of_isWordByte hfirst, ne_of_isWordByte hfirst, ne_of_isWordByte hfirst⟩

lemma Grammar.IsDigits.all_isWordChar {w : List Char} (h : IsDigits w) :
    w.all isWordChar = true := by
  refine List.all_eq_true.mpr fun c hc => ?_
  obtain ⟨hlow, hhigh⟩ := h.2 c hc
  have hascii : c.toNat < 0x80 :=
    Nat.lt_of_le_of_lt (UInt32.le_iff_toNat_le.mp hhigh) (by decide)
  exact forall_ascii (p := fun c => '0' ≤ c → c ≤ '9' → isWordChar c = true) (by decide) hascii
    hlow hhigh

lemma Grammar.IsNumber.isScalar {w : List Char} (h : IsNumber w) : IsScalar (encode w) := by
  obtain ⟨sign, whole, fraction, exponent, hsign, hwhole, hfraction, hexponent, rfl⟩ := h
  refine isScalar_of_isWordChar (by simp [hwhole.1.1]) ?_
  rw [List.all_append, List.all_append, List.all_append, hwhole.1.all_isWordChar]
  have hsign' : sign.all isWordChar = true := by
    rcases hsign with rfl | rfl <;> rfl
  have hfraction' : fraction.all isWordChar = true := by
    rcases hfraction with rfl | ⟨digits, hdigits, rfl⟩
    · rfl
    · rw [List.all_cons, hdigits.all_isWordChar]
      rfl
  have hexponent' : exponent.all isWordChar = true := by
    rcases hexponent with rfl | ⟨mark, sign, digits, hmark, hsign, hdigits, rfl⟩
    · rfl
    · rw [List.all_cons, List.all_append, hdigits.all_isWordChar]
      rcases hmark with rfl | rfl <;> rcases hsign with rfl | rfl | rfl <;> rfl
  rw [hsign', hfraction', hexponent']
  rfl

/-! ### Texts without comments and trailing commas -/

namespace Relaxed

/-- A part of a text that is kept in front of any other, and before which no comma closes. -/
structure Kept (w : List UInt8) : Prop where
  strip : ∀ s, stripFrom .plain (w ++ s) = w ++ stripFrom .plain s
  opens : ∀ s, closes (w ++ s) = false

lemma kept_of_isScalar {t : Token} (h : IsScalar t) : Kept t where
  strip _ := stripFrom_token h.isToken fun hcomma => absurd hcomma h.ne_comma
  opens s := Bool.eq_false_iff.mpr (mt (closes_token h.isToken s).mp h.not_isClosing)

lemma isBlank_of_isSpace {w : List Char} (h : IsSpace w) :
    ∀ b ∈ encode w, Json.isBlank b = true := by
  intro b hb
  obtain ⟨c, hc, hbc⟩ := List.mem_flatMap.mp hb
  rcases h c hc with rfl | rfl | rfl | rfl <;>
  · rw [encodeChar_of_lt (by decide), List.mem_singleton] at hbc
    rw [hbc]
    rfl

lemma strip_space {w : List Char} (h : IsSpace w) (s : List UInt8) :
    stripFrom .plain (encode w ++ s) = encode w ++ stripFrom .plain s :=
  stripFrom_plain_append fun b hb => ne_of_isBlank (isBlank_of_isSpace h b hb)

/-- White space around a part that is kept is kept. -/
lemma Kept.spaced {before behind : List Char} {w : List UInt8} (h : Kept w)
    (hbefore : IsSpace before) (hbehind : IsSpace behind) :
    Kept (encode before ++ (w ++ encode behind)) where
  strip s := by
    rw [List.append_assoc, strip_space hbefore, List.append_assoc, h.strip, strip_space hbehind]
    simp only [List.append_assoc]
  opens s := by
    have hblank : ∀ b ∈ encode before, isBlank b = true := fun b hb =>
      isBlank_of_isBlank (isBlank_of_isSpace hbefore b hb)
    rw [List.append_assoc, closes_append hblank, List.append_assoc]
    exact h.opens _

/-- Brackets around what is kept are kept. -/
lemma kept_brackets {first last : UInt8} {w : List UInt8}
    (hfirst : first = 0x5B ∨ first = 0x7B) (hlast : last = 0x5D ∨ last = 0x7D)
    (h : ∀ s, stripFrom .plain (w ++ s) = w ++ stripFrom .plain s) :
    Kept (first :: (w ++ [last])) where
  strip s := by
    have hplain {b : UInt8} (hb : b = 0x5B ∨ b = 0x7B ∨ b = 0x5D ∨ b = 0x7D) (s : List UInt8) :
        stripFrom .plain (b :: s) = b :: stripFrom .plain s := by
      rcases hb with rfl | rfl | rfl | rfl <;> rfl
    rw [List.cons_append, hplain (by tauto), List.append_assoc, h, List.singleton_append,
      hplain (by tauto)]
    simp
  opens s := by
    rcases hfirst with rfl | rfl <;> exact closes_cons rfl _

/-- A comma between parts that are kept is kept. -/
lemma Kept.comma {w rest : List UInt8} (h : Kept w) (hrest : Kept rest) :
    Kept (w ++ 0x2C :: rest) where
  strip s := by
    rw [List.append_assoc, h.strip, List.cons_append, stripFrom_comma (hrest.opens s), hrest.strip]
    simp
  opens s := by
    rw [List.append_assoc]
    exact h.opens _

/-- A colon between parts that are kept is kept. -/
lemma Kept.colon {w rest : List UInt8} (h : Kept w) (hrest : Kept rest) :
    Kept (w ++ 0x3A :: rest) where
  strip s := by
    have hcolon : ∀ s, stripFrom .plain (0x3A :: s) = 0x3A :: stripFrom .plain s := fun _ => rfl
    rw [List.append_assoc, h.strip, List.cons_append, hcolon, hrest.strip]
    simp
  opens s := by
    rw [List.append_assoc]
    exact h.opens _

/-- Whatever the grammar derives is kept. -/
lemma kept_of_derives {part : Category} {w : List Char} (h : Derives part w) : Kept (encode w) := by
  have hliteral {w : List Char} (hne : w ≠ []) (h : w.all isWordChar = true) : Kept (encode w) :=
    kept_of_isScalar (isScalar_of_isWordChar hne h)
  have hencode {c : Char} {first rest : List Char} (hc : c.toNat < 0x80) :
      encode (first ++ c :: rest) = encode first ++ c.toUInt8 :: encode rest := by
    rw [Script.encode_append, encode_cons_of_lt hc]
  have hbracketed {first last : Char} {w : List Char} (hfirst : first.toNat < 0x80)
      (hlast : last.toNat < 0x80) : encode (first :: (w ++ [last])) =
        first.toUInt8 :: (encode w ++ [last.toUInt8]) := by
    rw [encode_cons_of_lt hfirst, hencode hlast]
    rfl
  -- by what a value is made of; blanks around it are dropped on both sides
  induction h with
  | null | true | false => exact hliteral (List.cons_ne_nil _ _) rfl
  | number h => exact kept_of_isScalar h.isScalar
  | string h => exact kept_of_isScalar h.isScalar
  | emptyArray h =>
    rw [hbracketed (by decide) (by decide)]
    exact kept_brackets (.inl rfl) (.inl rfl) (strip_space h)
  | array h ih =>
    rw [hbracketed (by decide) (by decide)]
    exact kept_brackets (.inl rfl) (.inl rfl) ih.strip
  | emptyObject h =>
    rw [hbracketed (by decide) (by decide)]
    exact kept_brackets (.inr rfl) (.inr rfl) (strip_space h)
  | object h ih =>
    rw [hbracketed (by decide) (by decide)]
    exact kept_brackets (.inr rfl) (.inr rfl) ih.strip
  | element hbefore h hbehind ih =>
    rw [Script.encode_append, Script.encode_append]
    exact ih.spaced hbefore hbehind
  | lastElement h ih | lastMember h ih => exact ih
  | elements h hrest ih ihrest | members h hrest ih ihrest =>
    rw [hencode (by decide)]
    exact ih.comma ihrest
  | @member before key behind w hbefore hkey hbehind h ih =>
    have hcut : before ++ (key ++ (behind ++ ':' :: w)) =
        (before ++ (key ++ behind)) ++ ':' :: w := by
      simp
    rw [hcut, hencode (by decide), Script.encode_append, Script.encode_append]
    exact ((kept_of_isScalar hkey.isScalar).spaced hbefore hbehind).colon ih

/-- A text of JSON is left as it is. -/
lemma strip_of_isDocument {text : String} (h : IsDocument text) :
    strip text.toUTF8.data.toList = text.toUTF8.data.toList := by
  have hencode : text.toUTF8.data.toList = encode text.toList := Script.bytes_eq_encode text
  have hkept := (kept_of_derives h).strip []
  rw [List.append_nil] at hkept
  rw [hencode, strip, hkept]
  exact List.append_nil _

/-- A file of JSON is read alike in both ways. -/
lemma readRelaxed_of_isDocument {d : Disk} {file : Path} {text : String} (h : IsDocument text)
    (htext : d.readText file = .ok text) : Document.readRelaxed d file = Document.read d file := by
  rw [Document.readRelaxed, Document.read, Document.readAs, Document.readAs, htext]
  dsimp only
  rw [strip_of_isDocument h, id]

end Relaxed

end Json

end AddonBuild
