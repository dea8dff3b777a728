import AddonBuild.Json.Lexeme

/-!
# Reading JSON

A text is read lexeme by lexeme. What is open at a moment (arrays and objects that are not yet
closed) is held in a stack of frames, and the phase says what may come next. The same steps serve
to read a value and to check a text without keeping its value; the latter accepts more, since it
looks neither into strings nor at the size of numbers and counts no depth.
-/

namespace AddonBuild

namespace Json

/-- How closely a text is read. -/
inductive Reading where
  | strict
  | skim
deriving DecidableEq, Repr

/-- An array or an object that is not yet closed. The items of an array are held last one first.
An object knows the key that waits for its value. -/
inductive Frame where
  | list (done : List Json)
  | record (done : Members) (key : String)

/-- What may come next. -/
inductive Phase where
  | value
  | firstItem
  | nextItem
  | afterItem
  | firstKey
  | nextKey
  | colon
  | afterMember
deriving DecidableEq, Repr

/-- What is wrong when the input ends. -/
def Phase.endCause (reading : Reading) : Phase → Cause
  | .value | .nextItem => .endInValue
  | .firstItem | .afterItem => .endInList
  | .firstKey | .colon | .afterMember => .endInObject
  | .nextKey => if reading = .strict then .endInValue else .endInObject

/-- What one lexeme leads to. -/
inductive Outcome where
  | done (value : Json)
  | more (phase : Phase) (stack : List Frame)

/-- The number of arrays and objects that may be open at once. -/
def maxDepth : Nat := 127

/-- Hand a finished value to the innermost frame. -/
def complete (value : Json) : List Frame → Outcome
  | [] => .done value
  | .list done :: outer => .more .afterItem (.list (value :: done) :: outer)
  | .record done key :: outer => .more .afterMember (.record (done.insert key value) "" :: outer)

/-- Close the innermost frame. -/
def close : List Frame → Outcome
  | [] => .done .null
  | .list done :: outer => complete (.array done.reverse) outer
  | .record done _ :: outer => complete (.object done) outer

/-- Open a frame, if the nesting allows it. -/
def openFrame (reading : Reading) (stack : List Frame) (frame : Frame) (phase : Phase) :
    Reader Outcome := fun rest =>
  if reading = .strict ∧ maxDepth ≤ stack.length then stop .tooDeep rest
  else .ok (.more phase (frame :: stack), rest)

/-- Read a string from behind its quote, closely or not. -/
def stringBy (reading : Reading) : Reader String := fun s =>
  match reading with
  | .strict => quoted s
  | .skim =>
    match skimString s with
    | .error halt => .error halt
    | .ok (_, rest) => .ok ("", rest)

/-- Read a number from behind its sign, closely or not. -/
def numberBy (reading : Reading) (negative : Bool) : Reader Json := fun s =>
  match reading with
  | .strict =>
    match numeral negative s with
    | .error halt => .error halt
    | .ok (n, rest) => .ok (.number n, rest)
  | .skim =>
    match skimNumber s with
    | .error halt => .error halt
    | .ok (_, rest) => .ok (.null, rest)

/-- Read a value, or the bracket that opens one, whose first byte is `b`. -/
def startValue (reading : Reading) (stack : List Frame) (b : UInt8) : Reader Outcome := fun rest =>
  if b = 0x6E then
    match word [0x75, 0x6C, 0x6C] rest with
    | .error halt => .error halt
    | .ok (_, rest) => .ok (complete .null stack, rest)
  else if b = 0x74 then
    match word [0x72, 0x75, 0x65] rest with
    | .error halt => .error halt
    | .ok (_, rest) => .ok (complete (.bool true) stack, rest)
  else if b = 0x66 then
    match word [0x61, 0x6C, 0x73, 0x65] rest with
    | .error halt => .error halt
    | .ok (_, rest) => .ok (complete (.bool false) stack, rest)
  else if b = 0x22 then
    match stringBy reading rest with
    | .error halt => .error halt
    | .ok (text, rest) => .ok (complete (.string text) stack, rest)
  else if b = 0x2D then
    match numberBy reading true rest with
    | .error halt => .error halt
    | .ok (value, rest) => .ok (complete value stack, rest)
  else if isDigit b then
    match numberBy reading false (b :: rest) with
    | .error halt => .error halt
    | .ok (value, rest) => .ok (complete value stack, rest)
  else if b = 0x5B then openFrame reading stack (.list []) .firstItem rest
  else if b = 0x7B then openFrame reading stack (.record [] "") .firstKey rest
  else stop .expectedValue rest

/-- Read a key from behind its quote. -/
def startKey (reading : Reading) (stack : List Frame) : Reader Outcome := fun rest =>
  match stringBy reading rest with
  | .error halt => .error halt
  | .ok (key, rest) =>
    match stack with
    | .record done _ :: outer => .ok (.more .colon (.record done key :: outer), rest)
    | _ => .ok (.more .colon stack, rest)

/-- Read the lexeme that starts with `b`. -/
def step (reading : Reading) (phase : Phase) (stack : List Frame) (b : UInt8) :
    Reader Outcome := fun rest =>
  match phase with
  | .value => startValue reading stack b rest
  | .firstItem =>
    if b = 0x5D then .ok (close stack, rest) else startValue reading stack b rest
  | .nextItem =>
    if b = 0x5D ∧ reading = .strict then stop .trailingComma rest
    else startValue reading stack b rest
  | .afterItem =>
    if b = 0x2C then .ok (.more .nextItem stack, rest)
    else if b = 0x5D then .ok (close stack, rest)
    else stop .expectedCommaOrBracket rest
  | .firstKey =>
    if b = 0x7D then .ok (close stack, rest)
    else if b = 0x22 then startKey reading stack rest
    else stop .keyNotString rest
  | .nextKey =>
    if b = 0x22 then startKey reading stack rest
    else if b = 0x7D ∧ reading = .strict then stop .trailingComma rest
    else stop .keyNotString rest
  | .colon =>
    if b = 0x3A then .ok (.more .value stack, rest) else stop .expectedColon rest
  | .afterMember =>
    if b = 0x2C then .ok (.more .nextKey stack, rest)
    else if b = 0x7D then .ok (close stack, rest)
    else stop .expectedCommaOrBrace rest

/-! ### No step gives back input -/

theorem length_stringBy {reading : Reading} {s rest : List UInt8} {text : String}
    (h : stringBy reading s = .ok (text, rest)) : rest.length ≤ s.length := by
  unfold stringBy at h
  split at h
  · exact Nat.le_of_lt (length_quoted h)
  · split at h
    · simp at h
    · next hs =>
      simp only [Except.ok.injEq, Prod.mk.injEq] at h
      exact h.2 ▸ Nat.le_of_lt (length_skimString hs)

theorem length_numberBy {reading : Reading} {negative : Bool} {s rest : List UInt8} {v : Json}
    (h : numberBy reading negative s = .ok (v, rest)) : rest.length < s.length := by
  unfold numberBy at h
  split at h
  · split at h
    · simp at h
    · next hs =>
      simp only [Except.ok.injEq, Prod.mk.injEq] at h
      exact h.2 ▸ length_numeral hs
  · split at h
    · simp at h
    · next hs =>
      simp only [Except.ok.injEq, Prod.mk.injEq] at h
      exact h.2 ▸ length_skimNumber hs

theorem length_openFrame {reading : Reading} {stack : List Frame} {frame : Frame} {phase : Phase}
    {s rest : List UInt8} {o : Outcome}
    (h : openFrame reading stack frame phase s = .ok (o, rest)) : rest.length ≤ s.length := by
  unfold openFrame at h
  split at h
  · simp [stop] at h
  · simp_all

theorem length_startValue {reading : Reading} {stack : List Frame} {b : UInt8}
    {s rest : List UInt8} {o : Outcome} (h : startValue reading stack b s = .ok (o, rest)) :
    rest.length ≤ s.length := by
  unfold startValue at h
  have letters : ∀ {expected : List UInt8} {v : Json} {r : List UInt8} {u : Unit},
      word expected s = .ok (u, r) → (complete v stack, r) = (o, rest) →
        rest.length ≤ s.length := by
    intro expected v r u hw he
    exact (Prod.mk.inj he).2 ▸ length_word hw
  repeat' split at h
  all_goals first
    | (simp [stop] at h; done)
    | exact length_openFrame h
    | exact letters (by assumption) (Except.ok.inj h)
    | (have he := (Prod.mk.inj (Except.ok.inj h)).2
       subst he
       first
         | exact length_stringBy (by assumption)
         | exact Nat.le_of_lt (length_numberBy (by assumption))
         | exact Nat.le_of_lt_succ (length_numberBy (by assumption)))

theorem length_startKey {reading : Reading} {stack : List Frame} {s rest : List UInt8}
    {o : Outcome} (h : startKey reading stack s = .ok (o, rest)) : rest.length ≤ s.length := by
  unfold startKey at h
  split at h
  · simp at h
  · next hs =>
    have := length_stringBy hs
    split at h <;> simp_all

theorem length_step {reading : Reading} {phase : Phase} {stack : List Frame} {b : UInt8}
    {s rest : List UInt8} {o : Outcome} (h : step reading phase stack b s = .ok (o, rest)) :
    rest.length ≤ s.length := by
  unfold step at h
  repeat' split at h
  all_goals first
    | (simp [stop] at h; done)
    | exact length_startValue h
    | exact length_startKey h
    | exact (Prod.mk.inj (Except.ok.inj h)).2 ▸ Nat.le_refl _

/-! ### Whole texts -/

/-- Read on until the outermost value is complete. -/
def run (reading : Reading) (phase : Phase) (stack : List Frame) (s : List UInt8) :
    Except Halt (Json × List UInt8) :=
  match h : skipBlank s with
  | [] => stop (phase.endCause reading) []
  | b :: behind =>
    match hs : step reading phase stack b behind with
    | .error halt => .error halt
    | .ok (.done value, rest) => .ok (value, rest)
    | .ok (.more phase stack, rest) =>
      have : rest.length < s.length := by
        have hle := length_skipBlank_le s
        have hstep := length_step hs
        rw [h, List.length_cons] at hle
        omega
      run reading phase stack rest
termination_by s.length

/-- Read a value from the front of the input. -/
def value (reading : Reading) : Reader Json :=
  run reading .value []

/-- Read a text that holds one value and nothing else. -/
def document (reading : Reading) (s : List UInt8) : Except Halt Json :=
  match value reading s with
  | .error halt => .error halt
  | .ok (value, rest) =>
    match skipBlank rest with
    | [] => .ok value
    | _ :: behind => stop .trailingCharacters behind

/-- The value of a JSON text. -/
def parse (input : List UInt8) : Except Fault Json :=
  (document .strict input).mapError (Fault.of input)

/-- Whether a text has the shape of JSON. -/
def check (input : List UInt8) : Except Fault Unit :=
  ((document .skim input).map fun _ => ()).mapError (Fault.of input)

end Json

end AddonBuild
