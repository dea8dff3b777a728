/-!
# Globs

A glob selects relative paths. `?` stands for one character, `*` for any run of characters, and a
class in brackets for one of its characters, or, after `!`, for one that is not in it; none of
these reaches across a slash. `**` has to fill a component of its own and stands for any number of
components.
-/

namespace AddonBuild

/-- A character or a range of characters of a class. -/
inductive Glob.Specifier where
  | single (c : Char)
  | range (low high : Char)
deriving DecidableEq, Repr

/-- One element of a glob. -/
inductive Glob.Token where
  | char (c : Char)
  | anyChar
  | anySequence
  | anyComponents
  | within (specifiers : List Glob.Specifier)
  | except (specifiers : List Glob.Specifier)
deriving DecidableEq, Repr

/-- A glob, with the text that it was read from. -/
structure Glob where
  source : String
  tokens : List Glob.Token
deriving DecidableEq, Repr

namespace Glob

/-! ### Reading -/

/-- What is wrong with the text of a glob, at the number of the character. -/
inductive Fault where
  | tooManyStars (position : Nat)
  | partialComponent (position : Nat)
  | invalidClass (position : Nat)
deriving DecidableEq, Repr

/-- The wording of a fault. -/
def Fault.message : Fault → String
  | .tooManyStars p =>
    s!"Pattern syntax error near position {p}: " ++
      "wildcards are either regular `*` or recursive `**`"
  | .partialComponent p =>
    s!"Pattern syntax error near position {p}: " ++
      "recursive wildcards must form a single path component"
  | .invalidClass p => s!"Pattern syntax error near position {p}: invalid range pattern"

/-- The members of a class. -/
def specifiers : List Char → List Specifier
  | low :: '-' :: high :: rest => .range low high :: specifiers rest
  | c :: rest => .single c :: specifiers rest
  | [] => []

/-- Split off the members of a class, of which the first may be a closing bracket. -/
def classMembers? : List Char → Option (List Char × List Char)
  | [] => none
  | first :: rest =>
    match rest.dropWhile (· ≠ ']') with
    | [] => none
    | _ :: behind => some (first :: rest.takeWhile (· ≠ ']'), behind)

/-- Read a class from behind its opening bracket. -/
def readClass? (s : List Char) : Option (Token × List Char) :=
  match s with
  | '!' :: rest => (classMembers? rest).map fun (members, behind) =>
      (.except (specifiers members), behind)
  | _ => (classMembers? s).map fun (members, behind) => (.within (specifiers members), behind)

theorem length_classMembers? {s members behind : List Char}
    (h : classMembers? s = some (members, behind)) : behind.length < s.length := by
  unfold classMembers? at h
  split at h
  · simp at h
  · next first rest =>
    have hd := (List.dropWhile_sublist (· ≠ ']') (l := rest)).length_le
    split at h
    · simp at h
    · next hb =>
      rw [hb] at hd
      simp only [Option.some.injEq, Prod.mk.injEq, List.length_cons] at h hd ⊢
      rw [← h.2]
      omega

theorem length_readClass? {s behind : List Char} {t : Token}
    (h : readClass? s = some (t, behind)) : behind.length < s.length := by
  unfold readClass? at h
  split at h
  · obtain ⟨found, hf, he⟩ := Option.map_eq_some_iff.mp h
    have := length_classMembers? hf
    simp only [Prod.mk.injEq] at he
    simp only [List.length_cons, ← he.2]
    omega
  · obtain ⟨found, hf, he⟩ := Option.map_eq_some_iff.mp h
    simp only [Prod.mk.injEq] at he
    exact he.2 ▸ length_classMembers? hf

/-- Add the token for whole components, once for a run of them. The run is not joined at the very
start of a glob. -/
def pushComponents (tokens : List Token) : List Token :=
  if 1 < tokens.length ∧ tokens.head? = some .anyComponents then tokens
  else .anyComponents :: tokens

/-- Read the tokens of a glob. `tokens` holds the ones read so far, the last one first, `before`
the character in front, and `position` the number of characters read. -/
def readFrom (tokens : List Token) (before : Option Char) (position : Nat) (s : List Char) :
    Except Fault (List Token) :=
  match s with
  | [] => .ok tokens.reverse
  | '?' :: rest => readFrom (.anyChar :: tokens) (some '?') (position + 1) rest
  | '*' :: '*' :: '*' :: _ => .error (.tooManyStars (position + 2))
  | '*' :: '*' :: rest =>
    if before = none ∨ before = some '/' then
      match rest with
      | [] => readFrom (pushComponents tokens) (some '*') (position + 2) []
      | '/' :: rest => readFrom (pushComponents tokens) (some '/') (position + 3) rest
      | _ => .error (.partialComponent (position + 2))
    else .error (.partialComponent (position - 1))
  | '*' :: rest => readFrom (.anySequence :: tokens) (some '*') (position + 1) rest
  | '[' :: rest =>
    match h : readClass? rest with
    | some (token, behind) =>
      have : behind.length < rest.length := length_readClass? h
      readFrom (token :: tokens) (some ']') (position + 1 + (rest.length - behind.length)) behind
    | none => .error (.invalidClass position)
  | c :: rest => readFrom (.char c :: tokens) (some c) (position + 1) rest
termination_by s.length

/-- The glob that a text denotes. -/
def parse (source : String) : Except Fault Glob :=
  (readFrom [] none 0 source.toList).map fun tokens => ⟨source, tokens⟩

/-! ### Matching -/

/-- Whether a character belongs to a class. -/
def isSpecified (specifiers : List Specifier) (c : Char) : Bool :=
  specifiers.any fun
    | .single s => c = s
    | .range low high => low ≤ c && c ≤ high

/-- Whether a token for one character accepts it. -/
def Token.accepts (c : Char) : Token → Bool
  | .char expected => c = expected
  | .anyChar => c ≠ '/'
  | .within specifiers => c ≠ '/' && isSpecified specifiers c
  | .except specifiers => c ≠ '/' && !isSpecified specifiers c
  | .anySequence | .anyComponents => false

/-- How an attempt to match ends. Running out of text with tokens left rules out every longer
attempt as well. -/
inductive Verdict where
  | matched
  | mismatched
  | exhausted
deriving DecidableEq, Repr

/-- Try the rest of a glob here and behind each further character up to a slash. -/
def sweep (attempt : List Char → Verdict) : List Char → Verdict
  | [] => attempt []
  | c :: rest =>
    match attempt (c :: rest) with
    | .mismatched => if c = '/' then .mismatched else sweep attempt rest
    | verdict => verdict

/-- Try the rest of a glob behind each further slash, and at the end. -/
def sweepComponents (attempt : List Char → Verdict) : List Char → Verdict
  | [] => attempt []
  | c :: rest =>
    if c = '/' then
      match attempt rest with
      | .mismatched => sweepComponents attempt rest
      | verdict => verdict
    else sweepComponents attempt rest

/-- Match tokens against a text. -/
def run : List Token → List Char → Verdict
  | [], s => if s.isEmpty then .matched else .mismatched
  | .anySequence :: tokens, s => sweep (run tokens) s
  | .anyComponents :: tokens, s =>
    match run tokens s with
    | .mismatched => sweepComponents (run tokens) s
    | verdict => verdict
  | _ :: _, [] => .exhausted
  | token :: tokens, c :: rest => if token.accepts c then run tokens rest else .mismatched

/-- Whether a glob matches the whole of a text. -/
def isMatch (g : Glob) (text : String) : Bool :=
  run g.tokens text.toList = .matched

end Glob

end AddonBuild
