import AddonBuild.Json.Relaxed

/-!
# Slices of relaxed JSON

What is left of a text without comments and trailing commas is copied slice by slice. One index runs
over the text, and another one stays at the start of the slice that is not yet copied.
-/

namespace AddonBuild

namespace Json.Relaxed

/-- Where a string ends whose content is read from `i` on: behind its closing quote, or beyond the
text if there is none. -/
def stringEnd (s : List UInt8) (i : Nat) : Nat :=
  if h : i < s.length then
    if s[i] = 0x22 then i + 1
    else if s[i] = 0x5C then stringEnd s (i + 2)
    else stringEnd s (i + 1)
  else i + 1
termination_by s.length - i

/-- The next line feed, or the end of the text. -/
def lineEnd (s : List UInt8) (i : Nat) : Nat :=
  if h : i < s.length then
    if s[i] = 0x0A then i else lineEnd s (i + 1)
  else i
termination_by s.length - i

/-- The place behind the next mark that closes a comment, or the end of the text. -/
def blockEnd (s : List UInt8) (i : Nat) : Nat :=
  if h : i + 1 < s.length then
    if s[i] = 0x2A ∧ s[i + 1] = 0x2F then min (i + 2) s.length else blockEnd s (i + 1)
  else min (i + 2) s.length
termination_by s.length - i

/-- The next byte that is not blank, or the end of the text. -/
def blankEnd (s : List UInt8) (i : Nat) : Nat :=
  if h : i < s.length then
    if isBlank s[i] then blankEnd s (i + 1) else i
  else i
termination_by s.length - i

theorem lt_stringEnd (s : List UInt8) (i : Nat) : i < stringEnd s i := by
  fun_induction stringEnd s i <;> omega

theorem le_lineEnd (s : List UInt8) (i : Nat) : i ≤ lineEnd s i := by
  fun_induction lineEnd s i <;> omega

theorem lt_lineEnd {s : List UInt8} {i : Nat} (h : i < s.length) (hline : s[i] ≠ 0x0A) :
    i < lineEnd s i := by
  rw [lineEnd, dif_pos h, if_neg hline]
  exact le_lineEnd s (i + 1)

theorem lt_blockEnd {s : List UInt8} {k i : Nat} (hk : k < s.length) (hi : k ≤ i) :
    k < blockEnd s i := by
  fun_induction blockEnd s i <;> omega

/-- A part of a text, by the indices where it starts and stops. -/
structure Slice where
  start : Nat
  stop : Nat
deriving DecidableEq, Repr

/-- The bytes of a slice. -/
def Slice.cut (s : List UInt8) (slice : Slice) : List UInt8 :=
  (s.take slice.stop).drop slice.start

/-- The slices to copy from `i` on, when the text is copied up to `copied`. -/
def slicesFrom (s : List UInt8) (i copied : Nat) : List Slice :=
  if h : i < s.length then
    if s[i] = 0x22 then
      have := lt_stringEnd s (i + 1)
      slicesFrom s (stringEnd s (i + 1)) copied
    else if hline : s[i] = 0x2F ∧ s[i + 1]? = some 0x2F then
      have := lt_lineEnd h (by simp [hline.1])
      ⟨copied, i⟩ :: slicesFrom s (lineEnd s i) (lineEnd s i)
    else if s[i] = 0x2F ∧ s[i + 1]? = some 0x2A then
      have := lt_blockEnd h (Nat.le_add_right i 2)
      ⟨copied, i⟩ :: slicesFrom s (blockEnd s (i + 2)) (blockEnd s (i + 2))
    else if s[i] = 0x2C then
      match s[blankEnd s (i + 1)]? with
      | some 0x7D | some 0x5D => ⟨copied, i⟩ :: slicesFrom s (i + 1) (i + 1)
      | _ => slicesFrom s (i + 1) copied
    else slicesFrom s (i + 1) copied
  else [⟨min copied s.length, s.length⟩]
termination_by s.length - i

/-- The slices that are copied. -/
def slices (s : List UInt8) : List Slice :=
  slicesFrom s 0 0

end Json.Relaxed

end AddonBuild
