import AddonBuild.Json.Parser
import AddonBuild.Json.Relaxed
import Mathlib.Data.List.Basic
import Mathlib.Data.List.TakeWhile
import Mathlib.Tactic.Lemma
import Mathlib.Tactic.SplitIfs

/-!
# The tokens of a JSON text

A JSON text is made of brackets, commas and colons, of strings, and of words, which are its numbers
and literals, with blanks between them. Where a token ends can be seen without reading it: a string
reaches to its closing quote, and a word to the next byte that is not part of one.
-/

namespace AddonBuild

namespace Json

/-! ### Bytes -/

/-- A bracket, a comma or a colon. -/
def isMark (b : UInt8) : Bool :=
  b == 0x5B || b == 0x5D || b == 0x7B || b == 0x7D || b == 0x2C || b == 0x3A

/-- A byte that can be part of a word: neither blank nor a mark, and no quote. The slash, which
starts a comment of the relaxed dialect, and the form feed, which is a blank of it, are none
either. -/
def isWordByte (b : UInt8) : Bool :=
  !(isBlank b || isMark b || b == 0x22 || b == 0x2F || b == 0x0C)

/-- The bytes that are part of no word. -/
def separators : List UInt8 :=
  [0x20, 0x09, 0x0A, 0x0D, 0x5B, 0x5D, 0x7B, 0x7D, 0x2C, 0x3A, 0x22, 0x2F, 0x0C]

lemma mem_separators {b : UInt8} (h : isWordByte b = false) : b ∈ separators := by
  rw [isWordByte, Bool.not_eq_false'] at h
  simpa [isBlank, isMark, separators, or_assoc] using h

/-- What holds of all separators holds of every byte that is part of no word. -/
lemma of_not_isWordByte {p : UInt8 → Bool} (hp : separators.all p = true) {b : UInt8}
    (h : isWordByte b = false) : p b = true :=
  List.all_eq_true.mp hp b (mem_separators h)

/-- What holds of no separator holds of word bytes only. -/
lemma isWordByte_of {p : UInt8 → Bool} (hp : (separators.all fun b => !p b) = true) {b : UInt8}
    (h : p b = true) : isWordByte b = true := by
  rw [← Bool.not_eq_false]
  intro hword
  have hnot := of_not_isWordByte hp hword
  rw [h] at hnot
  cases hnot

lemma isWordByte_of_isDigit (b : UInt8) : isDigit b = true → isWordByte b = true :=
  isWordByte_of rfl

lemma isWordByte_of_isExponentMark (b : UInt8) :
    isExponentMark b = true → isWordByte b = true :=
  isWordByte_of rfl

lemma isWordByte_of_isMark {b : UInt8} (h : isMark b = true) : isWordByte b = false := by
  simp [isWordByte, h]

lemma isBlank_of_isWordByte {b : UInt8} (h : isWordByte b = true) : isBlank b = false := by
  simp only [isWordByte, Bool.not_eq_true', Bool.or_eq_false_iff] at h
  exact h.1.1.1.1

lemma ne_of_isWordByte {b c : UInt8} (h : isWordByte b = true)
    (hc : isWordByte c = false := by decide) : b ≠ c := by
  rintro rfl
  rw [h] at hc
  cases hc

/-! ### Tokens -/

/-- A piece of a text that is read as a whole. -/
abbrev Token := List UInt8

/-- What is behind the opening quote of a string, its closing quote included. -/
inductive Closed : List UInt8 → Prop where
  | quote : Closed [0x22]
  | escape (b : UInt8) {rest : List UInt8} (h : Closed rest) : Closed (0x5C :: b :: rest)
  | plain {b : UInt8} {rest : List UInt8} (hquote : b ≠ 0x22) (hslash : b ≠ 0x5C)
      (h : Closed rest) : Closed (b :: rest)

/-- The tokens are closed strings, words and marks. -/
inductive IsToken : Token → Prop where
  | string {body : List UInt8} (h : Closed body) : IsToken (0x22 :: body)
  | word {b : UInt8} {rest : List UInt8} (h : ∀ c ∈ b :: rest, isWordByte c = true) :
      IsToken (b :: rest)
  | mark {b : UInt8} (h : isMark b = true) : IsToken [b]

/-- Split off the rest of a string, its closing quote included. -/
def takeClosed : List UInt8 → List UInt8 × List UInt8
  | [] => ([], [])
  | 0x5C :: b :: rest => (0x5C :: b :: (takeClosed rest).1, (takeClosed rest).2)
  | 0x22 :: rest => ([0x22], rest)
  | b :: rest => (b :: (takeClosed rest).1, (takeClosed rest).2)

/-- Split off the token that starts with `b`. -/
def takeToken (b : UInt8) (behind : List UInt8) : Token × List UInt8 :=
  if b = 0x22 then (b :: (takeClosed behind).1, (takeClosed behind).2)
  else if isWordByte b then (b :: behind.takeWhile isWordByte, behind.dropWhile isWordByte)
  else ([b], behind)

lemma length_takeClosed_le (s : List UInt8) : (takeClosed s).2.length ≤ s.length := by
  fun_induction takeClosed s <;> simp_all <;> omega

lemma length_takeToken_le (b : UInt8) (behind : List UInt8) :
    (takeToken b behind).2.length ≤ behind.length := by
  rw [takeToken]
  split_ifs
  · exact length_takeClosed_le behind
  · exact (List.dropWhile_sublist _).length_le
  · exact Nat.le_refl _

lemma length_takeToken_lt {s behind : List UInt8} {b : UInt8} (h : skipBlank s = b :: behind) :
    (takeToken b behind).2.length < s.length := by
  have hskip := length_skipBlank_le s
  have htake := length_takeToken_le b behind
  rw [h, List.length_cons] at hskip
  omega

/-- The tokens of a text, without the blanks between them. -/
def tokens (s : List UInt8) : List Token :=
  match _h : skipBlank s with
  | [] => []
  | b :: behind => (takeToken b behind).1 :: tokens (takeToken b behind).2
termination_by s.length
decreasing_by exact length_takeToken_lt _h

lemma tokens_of_nil {s : List UInt8} (h : skipBlank s = []) : tokens s = [] := by
  unfold tokens
  split
  · rfl
  · next hcons =>
    rw [h] at hcons
    cases hcons

lemma tokens_of_cons {s : List UInt8} {b : UInt8} {behind : List UInt8}
    (h : skipBlank s = b :: behind) :
    tokens s = (takeToken b behind).1 :: tokens (takeToken b behind).2 := by
  conv_lhs => unfold tokens
  split
  · next hnil =>
    rw [h] at hnil
    cases hnil
  · next c rest hcons =>
    obtain ⟨rfl, rfl⟩ := List.cons.inj (h.symm.trans hcons)
    rfl

/-! ### Where tokens end -/

/-- What follows a word does not go on with it. -/
def Ends (rest : List UInt8) : Prop :=
  ∀ b ∈ rest.head?, isWordByte b = false

lemma ends_dropWhile (s : List UInt8) : Ends (s.dropWhile isWordByte) := by
  intro b hb
  have hhead := List.head?_dropWhile_not isWordByte s
  rw [Option.mem_def.mp hb] at hhead
  simpa using hhead

section Ends

variable {p : UInt8 → Bool} (hp : ∀ b, p b = true → isWordByte b = true) {r : List UInt8}
  (hr : Ends r)
include hp hr

lemma takeWhile_append_of_ends (w : List UInt8) : (w ++ r).takeWhile p = w.takeWhile p := by
  induction w with
  | nil =>
    cases r with
    | nil => rfl
    | cons b r =>
      have hb : p b = false := Bool.eq_false_iff.mpr fun h => by simpa [hp b h] using hr b rfl
      simp [hb]
  | cons b w ih => simp only [List.cons_append, List.takeWhile_cons, ih]

lemma dropWhile_append_of_ends (w : List UInt8) :
    (w ++ r).dropWhile p = w.dropWhile p ++ r := by
  induction w with
  | nil =>
    cases r with
    | nil => rfl
    | cons b r =>
      have hb : p b = false := Bool.eq_false_iff.mpr fun h => by simpa [hp b h] using hr b rfl
      simp [hb]
  | cons b w ih =>
    simp only [List.cons_append, List.dropWhile_cons, ih]
    split_ifs <;> rfl

end Ends

lemma Closed.takeClosed_append {body : List UInt8} (h : Closed body) (r : List UInt8) :
    takeClosed (body ++ r) = (body, r) := by
  induction h with
  | quote => rfl
  | escape b h ih => simp [takeClosed, ih]
  | @plain b rest hquote hslash h ih =>
    rw [List.cons_append, takeClosed, ih]
    · exact fun _ _ hb _ => hslash hb
    · exact hquote

/-- A token is split off whole where its word ends. -/
lemma IsToken.takeToken_append {b : UInt8} {tail r : List UInt8} (h : IsToken (b :: tail))
    (hr : isWordByte b = true → Ends r) : takeToken b (tail ++ r) = (b :: tail, r) := by
  rw [takeToken]
  cases h with
  | string h => rw [if_pos rfl, h.takeClosed_append]
  | word h =>
    have hb := h b List.mem_cons_self
    have htail : ∀ c ∈ tail, isWordByte c = true := fun c hc => h c (List.mem_cons_of_mem _ hc)
    rw [if_neg (ne_of_isWordByte hb), if_pos hb, takeWhile_append_of_ends (fun _ => id) (hr hb),
      dropWhile_append_of_ends (fun _ => id) (hr hb), List.takeWhile_eq_self_iff.mpr htail,
      List.dropWhile_eq_nil_iff.mpr htail]
    rfl
  | mark h =>
    have hword := isWordByte_of_isMark h
    have hquote : b ≠ 0x22 := by
      rintro rfl
      cases h
    rw [if_neg hquote, if_neg (by simp [hword])]
    rfl

end Json

end AddonBuild
