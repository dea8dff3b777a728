import AddonBuild.Json.Parser
import Mathlib.Tactic.Lemma
import Mathlib.Tactic.SplitIfs

/-!
# The steps of the reader

What a step of the reader does is told by its phase and by the byte that it starts with. A step
that comes to an end starts a value, reads a key, passes a mark or closes what is open. These
alternatives are stated once, as a relation with its reasons, so that what holds along all steps
is proved alternative by alternative and no step is opened again.
-/

namespace AddonBuild

namespace Json

variable {reading : Reading} {phase : Phase} {stack : List Frame} {b : UInt8}
  {s rest : List UInt8} {o : Outcome}

/-! ### How a value starts -/

/-- The values that are words, with their first letter and the letters behind it. -/
inductive IsLiteral : UInt8 → List UInt8 → Json → Prop where
  | null : IsLiteral 0x6E [0x75, 0x6C, 0x6C] .null
  | yes : IsLiteral 0x74 [0x72, 0x75, 0x65] (.bool true)
  | no : IsLiteral 0x66 [0x61, 0x6C, 0x73, 0x65] (.bool false)

/-- The brackets that open a frame, and what may come next in it. -/
inductive Opens : UInt8 → Frame → Phase → Prop where
  | list : Opens 0x5B (.list []) .firstItem
  | record : Opens 0x7B (.record [] "") .firstKey

/-- All that can be read where a value starts with `b`: the outcome and the input that is left. -/
inductive StartsValue (reading : Reading) (stack : List Frame) (b : UInt8) (s : List UInt8) :
    Outcome → List UInt8 → Prop where
  | literal {letters rest : List UInt8} {v : Json} (hb : IsLiteral b letters v)
      (h : word letters s = .ok ((), rest)) :
      StartsValue reading stack b s (complete v stack) rest
  | string {text : String} {rest : List UInt8} (hb : b = 0x22)
      (h : stringBy reading s = .ok (text, rest)) :
      StartsValue reading stack b s (complete (.string text) stack) rest
  | minus {v : Json} {rest : List UInt8} (hb : b = 0x2D)
      (h : numberBy reading true s = .ok (v, rest)) :
      StartsValue reading stack b s (complete v stack) rest
  | digit {v : Json} {rest : List UInt8} (hb : isDigit b = true)
      (h : numberBy reading false (b :: s) = .ok (v, rest)) :
      StartsValue reading stack b s (complete v stack) rest
  | opening {frame : Frame} {phase : Phase} (hb : Opens b frame phase)
      (hroom : reading = .strict → stack.length < maxDepth) :
      StartsValue reading stack b s (.more phase (frame :: stack)) s

lemma openFrame_eq_ok {frame : Frame} :
    openFrame reading stack frame phase s = .ok (o, rest) ↔
      (reading = .strict → stack.length < maxDepth) ∧ o = .more phase (frame :: stack) ∧
        rest = s := by
  unfold openFrame
  split_ifs with hfull
  · refine ⟨nofun, fun ⟨hroom, _⟩ => ?_⟩
    exact absurd (hroom hfull.1) (Nat.not_lt_of_le hfull.2)
  · rw [Except.ok.injEq, Prod.mk.injEq, eq_comm, @eq_comm _ s]
    refine ⟨fun h => ⟨fun hreading => ?_, h⟩, fun h => h.2⟩
    exact Nat.lt_of_not_le fun hle => hfull ⟨hreading, hle⟩

lemma ne_of_isDigit {c : UInt8} (hb : isDigit b = true) (hc : isDigit c = false := by decide) :
    b ≠ c := by
  rintro rfl
  rw [hb] at hc
  cases hc

/-- No other value starts with a digit. -/
lemma startValue_of_isDigit {v : Json} (hb : isDigit b = true)
    (h : numberBy reading false (b :: s) = .ok (v, rest)) :
    startValue reading stack b s = .ok (complete v stack, rest) := by
  rw [startValue, if_neg (ne_of_isDigit hb), if_neg (ne_of_isDigit hb),
    if_neg (ne_of_isDigit hb), if_neg (ne_of_isDigit hb), if_neg (ne_of_isDigit hb), if_pos hb, h]

lemma startValue_eq_ok :
    startValue reading stack b s = .ok (o, rest) ↔ StartsValue reading stack b s o rest := by
  constructor
  · intro h
    unfold startValue at h
    split_ifs at h with hnull hyes hno hquote hminus hdigit hlist hrecord
    · split at h
      · cases h
      · next hread =>
        obtain ⟨rfl, rfl⟩ := Prod.mk.inj (Except.ok.inj h)
        exact .literal (hnull ▸ .null) hread
    · split at h
      · cases h
      · next hread =>
        obtain ⟨rfl, rfl⟩ := Prod.mk.inj (Except.ok.inj h)
        exact .literal (hyes ▸ .yes) hread
    · split at h
      · cases h
      · next hread =>
        obtain ⟨rfl, rfl⟩ := Prod.mk.inj (Except.ok.inj h)
        exact .literal (hno ▸ .no) hread
    · split at h
      · cases h
      · next hread =>
        obtain ⟨rfl, rfl⟩ := Prod.mk.inj (Except.ok.inj h)
        exact .string hquote hread
    · split at h
      · cases h
      · next hread =>
        obtain ⟨rfl, rfl⟩ := Prod.mk.inj (Except.ok.inj h)
        exact .minus hminus hread
    · split at h
      · cases h
      · next hread =>
        obtain ⟨rfl, rfl⟩ := Prod.mk.inj (Except.ok.inj h)
        exact .digit hdigit hread
    · obtain ⟨hroom, rfl, rfl⟩ := openFrame_eq_ok.mp h
      exact .opening (hlist ▸ .list) hroom
    · obtain ⟨hroom, rfl, rfl⟩ := openFrame_eq_ok.mp h
      exact .opening (hrecord ▸ .record) hroom
    · cases h
  · intro h
    cases h with
    | literal hb h => cases hb <;> simp [startValue, h]
    | string hb h => simp [startValue, hb, h]
    | minus hb h => simp [startValue, hb, h]
    | digit hb h => exact startValue_of_isDigit hb h
    | opening hb hroom => cases hb <;> exact openFrame_eq_ok.mpr ⟨hroom, rfl, rfl⟩

/-- No value starts with the bracket that closes an array. -/
lemma StartsValue.ne_bracket (h : StartsValue reading stack b s o rest) : b ≠ 0x5D := by
  rintro rfl
  cases h with
  | literal hb => cases hb
  | string hb => cases hb
  | minus hb => cases hb
  | digit hb => cases hb
  | opening hb => cases hb

/-! ### What a step does -/

/-- The frames that know a key which waits for its value. -/
def withKey (key : String) : List Frame → List Frame
  | .record done _ :: outer => .record done key :: outer
  | stack => stack

/-- The phases in which a value may come. -/
inductive Phase.TakesValue : Phase → Prop where
  | value : TakesValue .value
  | first : TakesValue .firstItem
  | next : TakesValue .nextItem

/-- The phases in which a key may come. -/
inductive Phase.TakesKey : Phase → Prop where
  | first : TakesKey .firstKey
  | next : TakesKey .nextKey

/-- The marks that are passed in a phase, with the phase behind them. -/
inductive Phase.Passes : Phase → UInt8 → Phase → Prop where
  | item : Passes .afterItem 0x2C .nextItem
  | colon : Passes .colon 0x3A .value
  | member : Passes .afterMember 0x2C .nextKey

/-- The brackets that close the innermost frame in a phase. -/
inductive Phase.Closes : Phase → UInt8 → Prop where
  | emptyList : Closes .firstItem 0x5D
  | list : Closes .afterItem 0x5D
  | emptyRecord : Closes .firstKey 0x7D
  | record : Closes .afterMember 0x7D

/-- All that a step which starts with `b` can do: the outcome and the input that is left. -/
inductive Steps (reading : Reading) (phase : Phase) (stack : List Frame) (b : UInt8)
    (s : List UInt8) : Outcome → List UInt8 → Prop where
  | value {o : Outcome} {rest : List UInt8} (hphase : phase.TakesValue)
      (h : StartsValue reading stack b s o rest) : Steps reading phase stack b s o rest
  | key {key : String} {rest : List UInt8} (hphase : phase.TakesKey) (hb : b = 0x22)
      (h : stringBy reading s = .ok (key, rest)) :
      Steps reading phase stack b s (.more .colon (withKey key stack)) rest
  | mark {next : Phase} (h : phase.Passes b next) :
      Steps reading phase stack b s (.more next stack) s
  | closing (h : phase.Closes b) : Steps reading phase stack b s (close stack) s

lemma startKey_eq_ok :
    startKey reading stack s = .ok (o, rest) ↔
      ∃ key, stringBy reading s = .ok (key, rest) ∧ o = .more .colon (withKey key stack) := by
  unfold startKey
  cases stringBy reading s with
  | error halt => simp
  | ok found =>
    obtain ⟨key, left⟩ := found
    rcases stack with _ | ⟨done | ⟨done, before⟩, outer⟩
    all_goals
      simp only [withKey, Except.ok.injEq, Prod.mk.injEq]
      grind

lemma steps_of_step (h : step reading phase stack b s = .ok (o, rest)) :
    Steps reading phase stack b s o rest := by
  unfold step at h
  cases phase with
  | value => exact .value .value (startValue_eq_ok.mp h)
  | firstItem =>
    dsimp only at h
    split_ifs at h with hb
    · obtain ⟨rfl, rfl⟩ := Prod.mk.inj (Except.ok.inj h)
      exact .closing (hb ▸ .emptyList)
    · exact .value .first (startValue_eq_ok.mp h)
  | nextItem =>
    dsimp only at h
    split_ifs at h
    · cases h
    · exact .value .next (startValue_eq_ok.mp h)
  | afterItem =>
    dsimp only at h
    split_ifs at h with hcomma hb
    · obtain ⟨rfl, rfl⟩ := Prod.mk.inj (Except.ok.inj h)
      exact .mark (hcomma ▸ .item)
    · obtain ⟨rfl, rfl⟩ := Prod.mk.inj (Except.ok.inj h)
      exact .closing (hb ▸ .list)
    · cases h
  | firstKey =>
    dsimp only at h
    split_ifs at h with hb hquote
    · obtain ⟨rfl, rfl⟩ := Prod.mk.inj (Except.ok.inj h)
      exact .closing (hb ▸ .emptyRecord)
    · obtain ⟨key, hread, rfl⟩ := startKey_eq_ok.mp h
      exact .key .first hquote hread
    · cases h
  | nextKey =>
    dsimp only at h
    split_ifs at h with hquote
    · obtain ⟨key, hread, rfl⟩ := startKey_eq_ok.mp h
      exact .key .next hquote hread
    · cases h
    · cases h
  | colon =>
    dsimp only at h
    split_ifs at h with hcolon
    · obtain ⟨rfl, rfl⟩ := Prod.mk.inj (Except.ok.inj h)
      exact .mark (hcolon ▸ .colon)
    · cases h
  | afterMember =>
    dsimp only at h
    split_ifs at h with hcomma hb
    · obtain ⟨rfl, rfl⟩ := Prod.mk.inj (Except.ok.inj h)
      exact .mark (hcomma ▸ .member)
    · obtain ⟨rfl, rfl⟩ := Prod.mk.inj (Except.ok.inj h)
      exact .closing (hb ▸ .record)
    · cases h

lemma Steps.step_eq (h : Steps reading phase stack b s o rest) :
    step reading phase stack b s = .ok (o, rest) := by
  cases h with
  | value hphase h =>
    have hstart := startValue_eq_ok.mpr h
    have hb := h.ne_bracket
    cases hphase with
    | value => exact hstart
    | first => exact (if_neg hb).trans hstart
    | next => exact (if_neg fun hclosing => hb hclosing.1).trans hstart
  | key hphase hb h =>
    subst hb
    cases hphase <;> exact startKey_eq_ok.mpr ⟨_, h, rfl⟩
  | mark h => cases h <;> rfl
  | closing h => cases h <;> rfl

/-- A step comes to an end just as one of the alternatives. -/
lemma step_eq_ok :
    step reading phase stack b s = .ok (o, rest) ↔ Steps reading phase stack b s o rest :=
  ⟨steps_of_step, Steps.step_eq⟩

end Json

end AddonBuild
