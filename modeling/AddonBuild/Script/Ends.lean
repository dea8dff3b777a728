import AddonBuild.Script.Scanner

/-!
# Where strings and templates end

The end of a string or of a template is an index into the bytes of a script. The expressions of a
template are passed in a loop of their own, which counts the braces that are open, and a template in
an expression is passed before the rest of it. The braces can be counted by any kind of number: a
count of 32 bits is exhausted by no script of less than 4 GiB.
-/

namespace AddonBuild

namespace Script

/-- A place of a script that does not lie before `i`, or its end if `i` lies beyond that. -/
abbrev Onward (s : Bytes) (i : Nat) : Type :=
  { j : Nat // min i s.length ≤ j ∧ j ≤ s.length }

/-- A place that does not lie before `j` does not lie before what is before `j`. -/
def Onward.since {s : Bytes} {j : Nat} (i : Nat) (p : Onward s j) (h : min i s.length ≤ j) :
    Onward s i :=
  ⟨p.val, by have := p.property; omega⟩

/-- Where a string ends whose content goes on at `i`: behind its closing quote, or else before the
end of the line or of the script. -/
def stringEnd (quote : UInt8) (s : Bytes) (i : Nat) : Onward s i :=
  if h : i < s.length then
    if s[i] = '\\'.toUInt8 then (stringEnd quote s (i + 2)).since i (by omega)
    else if s[i] = '\n'.toUInt8 then ⟨i, by omega⟩
    else if s[i] = quote then ⟨i + 1, by omega⟩
    else (stringEnd quote s (i + 1)).since i (by omega)
  else ⟨s.length, by omega⟩
termination_by s.length - i

section

variable (Count : Type) [OfNat Count 0] [OfNat Count 1] [Add Count] [Sub Count]
  [DecidableEq Count]

mutual

/-- Where a template ends whose text goes on at `i`: behind its closing mark, or else at the end of
the script. -/
def textEnd (s : Bytes) (i : Nat) : Onward s i :=
  if h : i < s.length then
    if s[i] = '\\'.toUInt8 then (textEnd s (i + 2)).since i (by omega)
    else if s[i] = '\x60'.toUInt8 then ⟨i + 1, by omega⟩
    else if hopen : s[i] = '$'.toUInt8 ∧ s[i + 1]? = some '\x7b'.toUInt8 then
      match expressionEnd s 1 (i + 2) (List.getElem?_eq_some_iff.mp hopen.2).1 with
      | ⟨j, hj⟩ => (textEnd s j).since i (by omega)
    else (textEnd s (i + 1)).since i (by omega)
  else ⟨s.length, by omega⟩
termination_by s.length - i

/-- Where an expression ends that goes on at `i` with as many braces open: behind the brace that
closes the first of them, or else at the end of the script. -/
def expressionEnd (s : Bytes) (depth : Count) (i : Nat) (hi : i ≤ s.length) : Onward s i :=
  if h : i < s.length ∧ depth ≠ 0 then
    if s[i] = '\x7b'.toUInt8 then
      (expressionEnd s (depth + 1) (i + 1) h.1).since i (by omega)
    else if s[i] = '\x7d'.toUInt8 then
      (expressionEnd s (depth - 1) (i + 1) h.1).since i (by omega)
    else if isQuoteByte s[i] then
      match stringEnd s[i] s (i + 1) with
      | ⟨j, hj⟩ => (expressionEnd s depth j hj.2).since i (by omega)
    else if s[i] = '\x60'.toUInt8 then
      match textEnd s (i + 1) with
      | ⟨j, hj⟩ => (expressionEnd s depth j hj.2).since i (by omega)
    else (expressionEnd s depth (i + 1) h.1).since i (by omega)
  else ⟨i, by omega⟩
termination_by s.length - i

end

end

/-- Where the template ends whose opening mark is at `start`. -/
def templateEnd (s : Bytes) (start : Nat) : Nat :=
  (textEnd Nat s (start + 1)).val

end Script

end AddonBuild
