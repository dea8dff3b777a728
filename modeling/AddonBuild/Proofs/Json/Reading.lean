import AddonBuild.Proofs.Json.Stepping
import AddonBuild.Proofs.Json.Tokens
import AddonBuild.Proofs.Steps

/-!
# Reading token by token

What a token leads to does not depend on what follows it, as long as a word ends where it does. So
the value of a text depends on its tokens alone, and not on the blanks between them.
-/

namespace AddonBuild

namespace Json

variable {w r : List UInt8}

/-! ### Readers and what follows -/

/-- What a reader answers, with more input left behind. -/
def carry {α : Type} (r : List UInt8) (answer : Except Halt (α × List UInt8)) :
    Option (α × List UInt8) :=
  answer.toOption.map fun (a, rest) => (a, rest ++ r)

lemma carry_eq_some {α : Type} {answer : Except Halt (α × List UInt8)} {a : α}
    {behind : List UInt8} :
    carry r answer = some (a, behind) ↔ ∃ rest, answer = .ok (a, rest) ∧ behind = rest ++ r := by
  cases answer with
  | error halt => simp [carry, Except.toOption]
  | ok found =>
    obtain ⟨a', rest'⟩ := found
    simp only [carry, Except.toOption, Option.map_some, Option.some.injEq, Prod.mk.injEq,
      Except.ok.injEq]
    grind

@[simp] lemma toOption_stop {α : Type} (cause : Cause) (rest : List UInt8) :
    (stop cause rest : Except Halt α).toOption = none := rfl

@[simp] lemma carry_stop {α : Type} (cause : Cause) (rest : List UInt8) :
    carry r (stop cause rest : Except Halt (α × List UInt8)) = none := rfl

@[simp] lemma toOption_ok {α : Type} (a : α) :
    (.ok a : Except Halt α).toOption = some a := rfl

@[simp] lemma carry_ok {α : Type} (a : α) (rest : List UInt8) :
    carry r (.ok (a, rest)) = some (a, rest ++ r) := rfl

/-! ### Words -/

lemma floating_append (negative : Bool) (significand : Nat) (exponent : Int) (w : List UInt8) :
    (floating negative significand exponent (w ++ r)).toOption =
      carry r (floating negative significand exponent w) := by
  rw [floating, floating]
  split <;> rfl

section Words

variable (hr : Ends r)
include hr

lemma exponentSign_append (w : List UInt8) :
    exponentSign (w ++ r) = ((exponentSign w).1, (exponentSign w).2 ++ r) := by
  cases w with
  | nil =>
    cases r with
    | nil => rfl
    | cons b r =>
      have hb := hr b rfl
      rw [List.nil_append]
      unfold exponentSign
      split
      case h_3 => rfl
      all_goals
        next heq =>
        rw [(List.cons.inj heq).1] at hb
        cases hb
  | cons b w =>
    rw [List.cons_append]
    unfold exponentSign
    split <;> simp_all

lemma takeWhile_isDigit_append (w : List UInt8) :
    (w ++ r).takeWhile isDigit = w.takeWhile isDigit :=
  takeWhile_append_of_ends isWordByte_of_isDigit hr w

lemma dropWhile_isDigit_append (w : List UInt8) :
    (w ++ r).dropWhile isDigit = w.dropWhile isDigit ++ r :=
  dropWhile_append_of_ends isWordByte_of_isDigit hr w

lemma isDigit_of_ends {b : UInt8} {more : List UInt8} (hcons : r = b :: more) :
    isDigit b = false := by
  rw [← Bool.not_eq_true]
  intro hdigit
  have hword := hr b (by rw [hcons]; rfl)
  rw [isWordByte_of_isDigit b hdigit] at hword
  cases hword

lemma isExponentMark_of_ends {b : UInt8} {more : List UInt8} (hcons : r = b :: more) :
    isExponentMark b = false := by
  rw [← Bool.not_eq_true]
  intro hmark
  have hword := hr b (by rw [hcons]; rfl)
  rw [isWordByte_of_isExponentMark b hmark] at hword
  cases hword

lemma exponentPart_append (negative : Bool) (significand : Nat) (start : Int) (w : List UInt8) :
    (exponentPart negative significand start (w ++ r)).toOption =
      carry r (exponentPart negative significand start w) := by
  rw [exponentPart, exponentPart, exponentSign_append hr]
  generalize exponentSign w = sign
  obtain ⟨down, s⟩ := sign
  dsimp only
  have htake := takeWhile_isDigit_append hr s
  have hdrop := dropWhile_isDigit_append hr s
  cases s with
  | nil =>
    cases r with
    | nil => rfl
    | cons b r => simp [isDigit_of_ends hr rfl]
  | cons b s =>
    rw [htake, hdrop]
    simp only [List.cons_append]
    by_cases hdigit : isDigit b = true
    · simp only [hdigit, if_true]
      generalize exponentValue 0 ((b :: s).takeWhile isDigit) = found
      obtain ⟨e, _ | unread⟩ := found
      · exact floating_append _ _ _ _
      · dsimp only
        split_ifs <;> rfl
    · simp [hdigit]

lemma fractionPart_append (negative : Bool) (significand : Nat) (start : Int) (w : List UInt8) :
    (fractionPart negative significand start (w ++ r)).toOption =
      carry r (fractionPart negative significand start w) := by
  rw [fractionPart, fractionPart, takeWhile_isDigit_append hr, dropWhile_isDigit_append hr]
  dsimp only
  generalize w.dropWhile isDigit = rest
  split_ifs
  · cases rest with
    | nil => cases r <;> rfl
    | cons b rest => rfl
  · generalize absorb significand (w.takeWhile isDigit) = absorbed
    obtain ⟨value, left⟩ := absorbed
    dsimp only
    cases rest with
    | nil =>
      cases r with
      | nil => exact floating_append _ _ _ []
      | cons b r =>
        simp only [List.nil_append, isExponentMark_of_ends hr rfl, Bool.false_eq_true, if_false]
        exact floating_append _ _ _ []
    | cons b rest =>
      simp only [List.cons_append]
      split_ifs
      · exact exponentPart_append hr _ _ _ _
      · exact floating_append _ _ _ (b :: rest)

lemma numberTail_append (negative : Bool) (value overflow : Nat) (w : List UInt8) :
    (numberTail negative value overflow (w ++ r)).toOption =
      carry r (numberTail negative value overflow w) := by
  have hplain (w : List UInt8) : (if overflow = 0 then .ok (wholeNumber negative value, w ++ r)
      else floating negative value overflow (w ++ r) : Except Halt _).toOption =
      carry r (if overflow = 0 then .ok (wholeNumber negative value, w)
        else floating negative value overflow w) := by
    split_ifs
    · rfl
    · exact floating_append _ _ _ w
  unfold numberTail
  dsimp only
  cases w with
  | nil =>
    cases r with
    | nil => exact hplain []
    | cons b r =>
      have hpoint : b ≠ 0x2E := by
        rintro rfl
        cases hr 0x2E rfl
      simp only [List.nil_append, hpoint, isExponentMark_of_ends hr rfl, Bool.false_eq_true,
        if_false]
      exact hplain []
  | cons b w =>
    simp only [List.cons_append]
    by_cases hpoint : b = 0x2E
    · rw [if_pos hpoint, if_pos hpoint]
      exact fractionPart_append hr _ _ _ _
    rw [if_neg hpoint, if_neg hpoint]
    by_cases hmark : isExponentMark b = true
    · rw [if_pos hmark, if_pos hmark]
      exact exponentPart_append hr _ _ _ _
    · rw [if_neg hmark, if_neg hmark]
      exact hplain (b :: w)

lemma numeral_append (negative : Bool) (w : List UInt8) :
    (numeral negative (w ++ r)).toOption = carry r (numeral negative w) := by
  have htake := takeWhile_isDigit_append hr w
  have hdrop := dropWhile_isDigit_append hr w
  unfold numeral
  cases w with
  | nil =>
    cases r with
    | nil => rfl
    | cons b r =>
      have hzero : b ≠ 0x30 := by
        rintro rfl
        cases hr 0x30 rfl
      simp [isDigit_of_ends hr rfl, hzero]
  | cons b w =>
    rw [htake, hdrop]
    simp only [List.cons_append]
    split_ifs with hzero hdigit
    · cases w with
      | nil =>
        have htail := numberTail_append hr negative 0 0 []
        cases r with
        | nil => exact htail
        | cons c r =>
          simp only [List.nil_append, isDigit_of_ends hr rfl, Bool.false_eq_true, if_false]
          exact htail
      | cons c w =>
        simp only [List.cons_append]
        split_ifs
        · rfl
        · exact numberTail_append hr negative 0 0 (c :: w)
    · exact numberTail_append hr negative _ _ _
    · rfl

end Words

/-! ### What a word leaves -/

section Suffix

variable {s rest : List UInt8} {n : Number}

lemma suffix_of_exponentPart {negative : Bool} {significand : Nat} {start : Int}
    (h : exponentPart negative significand start s = .ok (n, rest)) : rest <:+ s := by
  have hsign : (exponentSign s).2 <:+ s := by
    unfold exponentSign
    split
    · exact List.suffix_cons _ _
    · exact List.suffix_cons _ _
    · exact List.suffix_refl _
  refine List.IsSuffix.trans ?_ hsign
  have hdrop := List.dropWhile_suffix (l := (exponentSign s).2) isDigit
  unfold exponentPart at h
  dsimp only at h
  split at h
  · cases h
  · next b behind hb =>
    by_cases hdigit : isDigit b = true
    · rw [if_pos hdigit] at h
      generalize exponentValue 0 ((exponentSign s).2.takeWhile isDigit) = found at h
      obtain ⟨e, _ | unread⟩ := found
      · rwa [length_floating h]
      · dsimp only at h
        split_ifs at h
        · cases h
        all_goals rwa [← (Prod.mk.inj (Except.ok.inj h)).2]
    · rw [if_neg hdigit] at h
      cases h

lemma suffix_of_fractionPart {negative : Bool} {significand : Nat} {start : Int}
    (h : fractionPart negative significand start s = .ok (n, rest)) : rest <:+ s := by
  have hdrop := List.dropWhile_suffix (l := s) isDigit
  unfold fractionPart at h
  dsimp only at h
  split_ifs at h
  · split at h <;> cases h
  · split at h
    · next b behind hb =>
      rw [hb] at hdrop
      split_ifs at h
      · exact (suffix_of_exponentPart h).trans ((List.suffix_cons b behind).trans hdrop)
      · rwa [length_floating h, hb]
    · rwa [length_floating h]

lemma suffix_of_numberTail {negative : Bool} {value overflow : Nat}
    (h : numberTail negative value overflow s = .ok (n, rest)) : rest <:+ s := by
  have hplain (h : (if overflow = 0 then .ok (wholeNumber negative value, s)
      else floating negative value overflow s) = Except.ok (n, rest)) : rest <:+ s := by
    split_ifs at h
    · obtain ⟨-, rfl⟩ := Prod.mk.inj (Except.ok.inj h)
      exact List.suffix_refl _
    · obtain rfl := length_floating h
      exact List.suffix_refl _
  unfold numberTail at h
  dsimp only at h
  cases s with
  | nil => exact hplain h
  | cons b s =>
    dsimp only at h
    by_cases hpoint : b = 0x2E
    · rw [if_pos hpoint] at h
      exact (suffix_of_fractionPart h).trans (List.suffix_cons b s)
    rw [if_neg hpoint] at h
    by_cases hmark : isExponentMark b = true
    · rw [if_pos hmark] at h
      exact (suffix_of_exponentPart h).trans (List.suffix_cons b s)
    · rw [if_neg hmark] at h
      exact hplain h

lemma suffix_of_numeral {negative : Bool} (h : numeral negative s = .ok (n, rest)) :
    rest <:+ s := by
  unfold numeral at h
  cases s with
  | nil => cases h
  | cons b s =>
    dsimp only at h
    split_ifs at h
    · refine List.IsSuffix.trans ?_ (List.suffix_cons b s)
      cases s with
      | nil => exact suffix_of_numberTail h
      | cons c s =>
        dsimp only at h
        split_ifs at h
        · cases h
        · exact suffix_of_numberTail h
    · exact (suffix_of_numberTail h).trans (List.dropWhile_suffix _)
    · cases h

end Suffix

/-! ### Strings -/

/-- What an escape stands for does not depend on what follows it. -/
lemma hexFour_append {s rest : List UInt8} {n : Nat} (h : hexFour s = .ok (n, rest)) :
    ∃ digits, s = digits ++ rest ∧ (∀ r, hexFour (digits ++ r) = .ok (n, r)) ∧
      ∀ b ∈ digits, b ≠ 0x22 ∧ b ≠ 0x5C := by
  unfold hexFour at h
  split at h
  · next a b c d rest' =>
    split at h
    · next ha hb hc hd =>
      obtain ⟨rfl, rfl⟩ := Prod.mk.inj (Except.ok.inj h)
      refine ⟨[a, b, c, d], rfl, fun r => by simp [hexFour, ha, hb, hc, hd], ?_⟩
      have hdigit {b : UInt8} {n : Nat} (h : hexDigit? b = some n) : b ≠ 0x22 ∧ b ≠ 0x5C := by
        constructor <;>
        · rintro rfl
          cases h
      simp only [List.mem_cons, List.not_mem_nil, or_false, forall_eq_or_imp, forall_eq]
      exact ⟨hdigit ha, hdigit hb, hdigit hc, hdigit hd⟩
    · cases h
  · cases h

lemma Closed.append_plain {plain body : List UInt8} (h : Closed body)
    (hplain : ∀ b ∈ plain, b ≠ 0x22 ∧ b ≠ 0x5C) : Closed (plain ++ body) := by
  induction plain with
  | nil => exact h
  | cons b plain ih =>
    obtain ⟨hb, hrest⟩ := List.forall_mem_cons.mp hplain
    exact .plain hb.1 hb.2 (ih hrest)

lemma lowHalf_append {high : Nat} {s out rest : List UInt8}
    (h : lowHalf high s = .ok (out, rest)) :
    ∃ half, s = half ++ rest ∧ (∀ r, lowHalf high (half ++ r) = .ok (out, r)) ∧
      ∀ body, Closed body → Closed (half ++ body) := by
  unfold lowHalf at h
  split at h
  · next rest' =>
    split at h
    · cases h
    · next low behind hfour =>
      obtain ⟨digits, rfl, hdigits, hplain⟩ := hexFour_append hfour
      split_ifs at h with hlow
      · obtain ⟨rfl, rfl⟩ := Prod.mk.inj (Except.ok.inj h)
        refine ⟨0x5C :: 0x75 :: digits, rfl, fun r => ?_, fun body hbody => ?_⟩
        · simp [lowHalf, hdigits, hlow]
        · exact .escape _ (hbody.append_plain hplain)
      · cases h
  all_goals cases h

lemma pointEscape_append {s out rest : List UInt8} (h : pointEscape s = .ok (out, rest)) :
    ∃ digits, s = digits ++ rest ∧ (∀ r, pointEscape (digits ++ r) = .ok (out, r)) ∧
      ∀ body, Closed body → Closed (digits ++ body) := by
  unfold pointEscape at h
  split at h
  · cases h
  · next n behind hfour =>
    obtain ⟨digits, rfl, hdigits, hplain⟩ := hexFour_append hfour
    split_ifs at h with hlow hhigh
    · cases h
    · obtain ⟨half, rfl, hhalf, hclosed⟩ := lowHalf_append h
      refine ⟨digits ++ half, (List.append_assoc _ _ _).symm, fun r => ?_, fun body hbody => ?_⟩
      · simp [pointEscape, hdigits, hlow, hhigh, hhalf]
      · rw [List.append_assoc]
        exact (hclosed body hbody).append_plain hplain
    · obtain ⟨rfl, rfl⟩ := Prod.mk.inj (Except.ok.inj h)
      refine ⟨digits, rfl, fun r => ?_, fun body hbody => hbody.append_plain hplain⟩
      simp [pointEscape, hdigits, hlow, hhigh]

lemma escape_append {s out rest : List UInt8} (h : escape s = .ok (out, rest)) :
    ∃ letters, s = letters ++ rest ∧ (∀ r, escape (letters ++ r) = .ok (out, r)) ∧
      ∀ body, Closed body → Closed (0x5C :: (letters ++ body)) := by
  unfold escape at h
  split at h
  · cases h
  · next b behind =>
    split at h
    · next value hvalue =>
      obtain ⟨rfl, rfl⟩ := Prod.mk.inj (Except.ok.inj h)
      exact ⟨[b], rfl, fun r => by simp [escape, hvalue], fun body => .escape b⟩
    · next hvalue =>
      split_ifs at h with hpoint
      · obtain ⟨digits, rfl, hdigits, hclosed⟩ := pointEscape_append h
        refine ⟨b :: digits, rfl, fun r => ?_, fun body hbody => .escape b (hclosed body hbody)⟩
        simp only [List.cons_append, escape, hvalue]
        rw [if_pos hpoint]
        exact hdigits r
      · cases h

lemma stringBytes_escape {s out behind more rest : List UInt8} (h : escape s = .ok (out, behind))
    (hmore : stringBytes behind = .ok (more, rest)) :
    stringBytes (0x5C :: s) = .ok (out ++ more, rest) := by
  rw [stringBytes, if_neg (by decide), if_pos rfl]
  split
  · next herror => cases herror.symm.trans h
  · next hescape =>
    obtain ⟨rfl, rfl⟩ := Prod.mk.inj (Except.ok.inj (hescape.symm.trans h))
    rw [hmore]

lemma stringBytes_append {s content rest : List UInt8} (h : stringBytes s = .ok (content, rest)) :
    ∃ body, s = body ++ rest ∧ (∀ r, stringBytes (body ++ r) = .ok (content, r)) ∧
      Closed body := by
  fun_induction stringBytes s generalizing content rest with
  | case2 =>
    obtain ⟨rfl, rfl⟩ := Prod.mk.inj (Except.ok.inj h)
    exact ⟨[0x22], rfl, fun r => by simp [stringBytes], .quote⟩
  | case5 s out behind hescape _ more rest' hmore _ ih =>
    obtain ⟨rfl, rfl⟩ := Prod.mk.inj (Except.ok.inj h)
    obtain ⟨letters, rfl, hletters, hclosed⟩ := escape_append hescape
    obtain ⟨body, rfl, hbody, hend⟩ := ih hmore
    refine ⟨0x5C :: (letters ++ body), by simp, fun r => ?_, hclosed body hend⟩
    rw [List.cons_append, List.append_assoc]
    exact stringBytes_escape (hletters _) (hbody r)
  | case8 b s hquote hslash hcontrol more rest' hmore ih =>
    obtain ⟨rfl, rfl⟩ := Prod.mk.inj (Except.ok.inj h)
    obtain ⟨body, rfl, hbody, hend⟩ := ih hmore
    refine ⟨b :: body, rfl, fun r => ?_, .plain hquote hslash hend⟩
    rw [List.cons_append, stringBytes, if_neg hquote, if_neg hslash, if_neg hcontrol, hbody]
  | case1 | case3 | case4 | case6 | case7 => cases h

lemma quoted_append {s rest : List UInt8} {text : String} (h : quoted s = .ok (text, rest)) :
    ∃ body, s = body ++ rest ∧ (∀ r, quoted (body ++ r) = .ok (text, r)) ∧ Closed body := by
  unfold quoted at h
  split at h
  · cases h
  · next content behind hbytes =>
    obtain ⟨body, rfl, hbody, hclosed⟩ := stringBytes_append hbytes
    split at h
    · next text' htext =>
      obtain ⟨rfl, rfl⟩ := Prod.mk.inj (Except.ok.inj h)
      exact ⟨body, rfl, fun r => by simp [quoted, hbody, htext], hclosed⟩
    · cases h

/-! ### Single tokens -/

section Steps

variable {reading : Reading} {phase phase' : Phase} {stack stack' : List Frame} {b : UInt8}
  {behind rest : List UInt8} {o : Outcome} {v : Json}

lemma word_eq_ok {expected : List UInt8} :
    word expected behind = .ok ((), rest) ↔ behind = expected ++ rest := by
  induction expected generalizing behind with
  | nil => simp [word]
  | cons e more ih =>
    cases behind with
    | nil => simp [word, stop]
    | cons b behind =>
      simp only [word, List.cons_append, List.cons.injEq, ← ih]
      split_ifs with hb <;> simp [hb, stop]

/-- A reader that is not disturbed by what follows fails or answers the same. -/
lemma cases_of_carry {α : Type} {long short : Except Halt (α × List UInt8)}
    (h : long.toOption = carry r short) :
    (∃ halt halt', long = .error halt ∧ short = .error halt') ∨
      ∃ a rest, long = .ok (a, rest ++ r) ∧ short = .ok (a, rest) := by
  cases short with
  | error halt' =>
    cases long with
    | error halt => exact .inl ⟨halt, halt', rfl, rfl⟩
    | ok found => cases h
  | ok found =>
    obtain ⟨a, rest⟩ := found
    exact .inr ⟨a, rest, toOption_eq_some.mp h, rfl⟩

lemma numberBy_append (hr : Ends r) (negative : Bool) (w : List UInt8) :
    (numberBy .strict negative (w ++ r)).toOption = carry r (numberBy .strict negative w) := by
  rw [numberBy, numberBy]
  rcases cases_of_carry (numeral_append hr negative w) with
    ⟨_, _, hlong, hshort⟩ | ⟨_, _, hlong, hshort⟩ <;>
  · rw [hlong, hshort]
    rfl

lemma suffix_of_numberBy {negative : Bool} (h : numberBy .strict negative behind = .ok (v, rest)) :
    rest <:+ behind := by
  rw [numberBy] at h
  split at h
  · cases h
  · next hnumeral =>
    obtain ⟨-, rfl⟩ := Prod.mk.inj (Except.ok.inj h)
    exact suffix_of_numeral hnumeral

/-- A number that ends where its word does is the word, whatever stands behind it. -/
lemma numberBy_word {negative : Bool} (hends : Ends rest)
    (h : numberBy .strict negative behind = .ok (v, rest)) :
    ∃ w, behind = w ++ rest ∧ (∀ c ∈ w, isWordByte c = true) ∧
      ∀ r, Ends r → numberBy .strict negative (w ++ r) = .ok (v, r) := by
  have hword : ∀ c ∈ behind.takeWhile isWordByte, isWordByte c = true :=
    fun _ hc => List.mem_takeWhile_imp hc
  have hsplit := List.takeWhile_append_dropWhile (p := isWordByte) (l := behind)
  have hcarry := numberBy_append (ends_dropWhile behind) negative (behind.takeWhile isWordByte)
  rw [hsplit, h, toOption_ok, eq_comm, carry_eq_some] at hcarry
  obtain ⟨left, hleft, rfl⟩ := hcarry
  -- nothing of the word is left
  obtain rfl : left = [] := by
    cases left with
    | nil => rfl
    | cons c left =>
      have hc := hword c ((suffix_of_numberBy hleft).mem List.mem_cons_self)
      rw [hends c rfl] at hc
      cases hc
  refine ⟨behind.takeWhile isWordByte, hsplit.symm, hword, fun r hr => ?_⟩
  have happend := numberBy_append hr negative (behind.takeWhile isWordByte)
  rw [hleft] at happend
  exact toOption_eq_some.mp happend

lemma IsLiteral.isToken {letters : List UInt8} (h : IsLiteral b letters v) :
    IsToken (b :: letters) := by
  cases h <;> exact .word (List.all_eq_true.mp rfl)

lemma Opens.isMark {frame : Frame} (h : Opens b frame phase) : isMark b = true := by
  cases h <;> rfl

lemma Phase.Passes.isMark (h : phase.Passes b phase') : isMark b = true := by
  cases h <;> rfl

lemma Phase.Closes.isMark (h : phase.Closes b) : isMark b = true := by
  cases h <;> rfl

/-- A value starts with a token, and in the same way whatever follows the token. -/
lemma StartsValue.exists_token (h : StartsValue .strict stack b behind o rest)
    (hends : isWordByte b = true → Ends rest) :
    ∃ tail, behind = tail ++ rest ∧ IsToken (b :: tail) ∧
      ∀ r, (isWordByte b = true → Ends r) → StartsValue .strict stack b (tail ++ r) o r := by
  cases h with
  | literal hb h =>
    exact ⟨_, word_eq_ok.mp h, hb.isToken, fun r _ => .literal hb (word_eq_ok.mpr rfl)⟩
  | string hb h =>
    obtain ⟨body, rfl, hbody, hclosed⟩ := quoted_append h
    exact ⟨body, rfl, hb ▸ .string hclosed, fun r _ => .string hb (hbody r)⟩
  | minus hb h =>
    have hword : isWordByte b = true := hb ▸ rfl
    obtain ⟨w, rfl, hw, hnumber⟩ := numberBy_word (hends hword) h
    exact ⟨w, rfl, .word (List.forall_mem_cons.mpr ⟨hword, hw⟩),
      fun r hr => .minus hb (hnumber r (hr hword))⟩
  | digit hb h =>
    have hword := isWordByte_of_isDigit b hb
    obtain ⟨w, hsplit, hw, hnumber⟩ := numberBy_word (hends hword) h
    cases w with
    | nil =>
      rw [hsplit] at h
      exact absurd (length_numberBy h) (Nat.lt_irrefl _)
    | cons c tail =>
      obtain ⟨rfl, rfl⟩ := List.cons.inj hsplit
      exact ⟨tail, rfl, .word hw, fun r hr => .digit hb (hnumber r (hr hword))⟩
  | opening hb hroom =>
    exact ⟨[], rfl, .mark hb.isMark, fun r _ => .opening hb hroom⟩

/-- Reading a token leads to an outcome, whatever follows the token. -/
def Leads (phase : Phase) (stack : List Frame) (b : UInt8) (tail : List UInt8) (o : Outcome) :
    Prop :=
  IsToken (b :: tail) ∧
    ∀ r, (isWordByte b = true → Ends r) → step .strict phase stack b (tail ++ r) = .ok (o, r)

/-- What a step reads is a token, if the word that it reads ends there. -/
lemma leads_of_step (h : step .strict phase stack b behind = .ok (o, rest))
    (hends : isWordByte b = true → Ends rest) :
    ∃ tail, behind = tail ++ rest ∧ Leads phase stack b tail o := by
  cases steps_of_step h with
  | value hphase h =>
    obtain ⟨tail, rfl, htoken, hstart⟩ := h.exists_token hends
    exact ⟨tail, rfl, htoken, fun r hr => step_eq_ok.mpr (.value hphase (hstart r hr))⟩
  | key hphase hb h =>
    obtain ⟨body, rfl, hbody, hclosed⟩ := quoted_append h
    exact ⟨body, rfl, hb ▸ .string hclosed,
      fun r _ => step_eq_ok.mpr (.key hphase hb (hbody r))⟩
  | mark hpasses =>
    exact ⟨[], rfl, .mark hpasses.isMark, fun r _ => step_eq_ok.mpr (.mark hpasses)⟩
  | closing hcloses =>
    exact ⟨[], rfl, .mark hcloses.isMark, fun r _ => step_eq_ok.mpr (.closing hcloses)⟩

/-- The phases behind a finished value that is not the outermost one. -/
def Phase.IsAfter (phase : Phase) : Prop :=
  phase = .afterItem ∨ phase = .afterMember

lemma isAfter_of_complete (h : complete v stack = .more phase stack') : phase.IsAfter := by
  match stack with
  | [] => cases h
  | .list done :: outer =>
    cases h
    exact .inl rfl
  | .record done key :: outer =>
    cases h
    exact .inr rfl

/-- A word completes a value. -/
lemma isAfter_of_step (hword : isWordByte b = true)
    (h : step reading phase stack b behind = .ok (.more phase' stack', rest)) :
    phase'.IsAfter := by
  have hquote : b ≠ 0x22 := ne_of_isWordByte hword
  have hmark : isMark b ≠ true := fun hmark => by
    rw [isWordByte_of_isMark hmark] at hword
    cases hword
  generalize ho : Outcome.more phase' stack' = o at h
  cases steps_of_step h with
  | value _ h =>
    cases h with
    | literal | minus | digit => exact isAfter_of_complete ho.symm
    | string hb => exact absurd hb hquote
    | opening hb => exact absurd hb.isMark hmark
  | key _ hb => exact absurd hb hquote
  | mark hpasses => exact absurd hpasses.isMark hmark
  | closing hcloses => exact absurd hcloses.isMark hmark

/-- No word stands right behind a value. -/
lemma Phase.IsAfter.isWordByte_of_step (hafter : phase.IsAfter)
    (h : step reading phase stack b behind = .ok (o, rest)) : isWordByte b = false := by
  cases steps_of_step h with
  | value hphase _ => rcases hafter with rfl | rfl <;> cases hphase
  | key hphase => rcases hafter with rfl | rfl <;> cases hphase
  | mark hpasses => exact isWordByte_of_isMark hpasses.isMark
  | closing hcloses => exact isWordByte_of_isMark hcloses.isMark

end Steps

/-! ### Whole texts -/

/-- Reading tokens one by one completes the outermost value. -/
inductive Accepts : Phase → List Frame → List Token → Json → Prop where
  | last {phase : Phase} {stack : List Frame} {b : UInt8} {tail : List UInt8} {v : Json}
      (h : Leads phase stack b tail (.done v)) : Accepts phase stack [b :: tail] v
  | next {phase phase' : Phase} {stack stack' : List Frame} {b : UInt8} {tail : List UInt8}
      {rest : List Token} {v : Json} (h : Leads phase stack b tail (.more phase' stack'))
      (hrest : Accepts phase' stack' rest v) : Accepts phase stack ((b :: tail) :: rest) v

lemma isWordByte_of_isBlank {b : UInt8} (h : isBlank b = true) : isWordByte b = false := by
  simp [isWordByte, h]

/-- What blanks or a byte behind them do not go on with. -/
lemma ends_of_skipBlank {s : List UInt8}
    (h : ∀ b ∈ (skipBlank s).head?, isWordByte b = false) : Ends s := by
  intro b hb
  match s with
  | c :: s =>
    obtain rfl : c = b := Option.some.inj hb
    by_cases hblank : isBlank c = true
    · exact isWordByte_of_isBlank hblank
    · refine h c ?_
      rw [skipBlank, List.dropWhile_cons_of_neg hblank]
      rfl

/-- Behind a value no word is read, so a run goes on only where a word has ended. -/
lemma Phase.IsAfter.ends_of_run {phase : Phase} (hafter : phase.IsAfter) {reading : Reading}
    {stack : List Frame} {s rest : List UInt8} {v : Json}
    (h : run reading phase stack s = .ok (v, rest)) : Ends s := by
  refine ends_of_skipBlank fun c hc => ?_
  obtain ⟨behind, hskip⟩ : ∃ behind, skipBlank s = c :: behind :=
    ⟨_, (List.cons_head?_tail hc).symm⟩
  rw [run] at h
  split at h
  · next hnil => rw [hskip] at hnil; cases hnil
  · next hcons =>
    obtain ⟨rfl, rfl⟩ := List.cons.inj (hskip.symm.trans hcons)
    split at h
    · cases h
    all_goals
      next hstep => exact hafter.isWordByte_of_step hstep

/-- A value is accepted token by token. -/
lemma accepts_of_run {phase : Phase} {stack : List Frame} {s rest : List UInt8} {v : Json}
    (h : run .strict phase stack s = .ok (v, rest)) (hrest : skipBlank rest = []) :
    Accepts phase stack (tokens s) v := by
  fun_induction run .strict phase stack s with
  | case1 => cases h
  | case2 => cases h
  | case3 phase stack s b behind hskip value rest' hstep =>
    obtain ⟨rfl, rfl⟩ := Prod.mk.inj (Except.ok.inj h)
    have hends : Ends rest' := ends_of_skipBlank (by simp [hrest])
    obtain ⟨tail, rfl, hleads⟩ := leads_of_step hstep fun _ => hends
    rw [tokens_of_cons hskip, hleads.1.takeToken_append fun _ => hends, tokens_of_nil hrest]
    exact .last hleads
  | case4 phase stack s b behind hskip phase' stack' rest' hstep _ ih =>
    have hends (hword : isWordByte b = true) : Ends rest' :=
      (isAfter_of_step hword hstep).ends_of_run h
    obtain ⟨tail, rfl, hleads⟩ := leads_of_step hstep hends
    rw [tokens_of_cons hskip, hleads.1.takeToken_append hends]
    exact .next hleads (ih h)

/-- A text of tokens with nothing but blanks around them. -/
inductive Spaced : List Token → List UInt8 → Prop where
  | done {blanks : List UInt8} (h : ∀ b ∈ blanks, isBlank b = true) : Spaced [] blanks
  | token {blanks s : List UInt8} {t : Token} {rest : List Token}
      (h : ∀ b ∈ blanks, isBlank b = true) (hrest : Spaced rest s) :
      Spaced (t :: rest) (blanks ++ (t ++ s))

lemma skipBlank_append {blanks : List UInt8} (h : ∀ b ∈ blanks, isBlank b = true)
    (s : List UInt8) : skipBlank (blanks ++ s) = skipBlank s :=
  List.dropWhile_append_of_pos h

lemma isBlank_of_isMark {b : UInt8} (h : isMark b = true) : isBlank b = false := by
  have hcases : (!(isMark b && isBlank b)) = true :=
    of_not_isWordByte (p := fun b => !(isMark b && isBlank b)) rfl (isWordByte_of_isMark h)
  simpa [h] using hcases

lemma skipBlank_of_isToken {b : UInt8} {tail : List UInt8} (h : IsToken (b :: tail))
    (s : List UInt8) : skipBlank (b :: s) = b :: s := by
  refine List.dropWhile_cons_of_neg ?_
  rw [Bool.not_eq_true]
  cases h with
  | string h => rfl
  | word h => exact isBlank_of_isWordByte (h b List.mem_cons_self)
  | mark h => exact isBlank_of_isMark h

lemma run_of_step {reading : Reading} {phase : Phase} {stack : List Frame}
    {s behind rest : List UInt8} {b : UInt8} (hskip : skipBlank s = b :: behind) {o : Outcome}
    (hstep : step reading phase stack b behind = .ok (o, rest)) :
    run reading phase stack s =
      match o with
      | .done value => .ok (value, rest)
      | .more phase stack => run reading phase stack rest := by
  rw [run]
  split
  · next hnil =>
    rw [hskip] at hnil
    cases hnil
  · next hcons =>
    obtain ⟨rfl, rfl⟩ := List.cons.inj (hskip.symm.trans hcons)
    split
    all_goals
      next hstep' =>
      rw [hstep] at hstep'
      cases hstep'
      try rfl

/-- Tokens that are accepted are read, whatever blanks are around them. -/
lemma Accepts.exists_run {phase : Phase} {stack : List Frame} {toks : List Token} {v : Json}
    (h : Accepts phase stack toks v) {s : List UInt8} (hs : Spaced toks s) :
    ∃ rest, run .strict phase stack s = .ok (v, rest) ∧ skipBlank rest = [] := by
  induction h generalizing s with
  | @last phase stack b tail v hleads =>
    cases hs with
    | @token blanks s _ _ hblanks hrest =>
      cases hrest with
      | done hbehind =>
        have hskip : skipBlank s = [] := List.dropWhile_eq_nil_iff.mpr hbehind
        refine ⟨s, run_of_step ?_ (hleads.2 s fun _ => ends_of_skipBlank (by simp [hskip])), hskip⟩
        rw [skipBlank_append hblanks, List.cons_append, skipBlank_of_isToken hleads.1]
  | @next phase phase' stack stack' b tail rest v hleads haccepts ih =>
    cases hs with
    | @token blanks s _ _ hblanks hrest =>
      obtain ⟨left, hrun, hleft⟩ := ih hrest
      have hends (hword : isWordByte b = true) : Ends s :=
        (isAfter_of_step hword (hleads.2 [] fun _ _ h => by cases h)).ends_of_run hrun
      refine ⟨left, ?_, hleft⟩
      rw [run_of_step ?_ (hleads.2 s hends)]
      · exact hrun
      · rw [skipBlank_append hblanks, List.cons_append, skipBlank_of_isToken hleads.1]

/-- A text is read when its value is and nothing but blanks is left. -/
lemma parse_eq_ok {s : List UInt8} {v : Json} :
    parse s = .ok v ↔ ∃ rest, run .strict .value [] s = .ok (v, rest) ∧ skipBlank rest = [] := by
  simp only [parse, document, value]
  cases run .strict .value [] s with
  | error halt => simp [Except.mapError]
  | ok found =>
    obtain ⟨v', rest⟩ := found
    dsimp only
    cases hskip : skipBlank rest with
    | nil => simp [Except.mapError, hskip]
    | cons b behind => simp [Except.mapError, stop, hskip]

lemma Accepts.isToken {phase : Phase} {stack : List Frame} {toks : List Token} {v : Json}
    (h : Accepts phase stack toks v) : ∀ t ∈ toks, IsToken t := by
  induction h with
  | last h => exact List.forall_mem_singleton.mpr h.1
  | next h hrest ih => exact List.forall_mem_cons.mpr ⟨h.1, ih⟩

/-- The tokens that close an array or an object. -/
def IsClosing (t : Token) : Prop :=
  t = [0x5D] ∨ t = [0x7D]

/-- An item or a member must follow a comma. -/
lemma not_isClosing_of_comma {phase phase' : Phase} {stack stack' : List Frame} {b : UInt8}
    {tail : List UInt8} {o : Outcome} (h : Leads phase stack 0x2C [] (.more phase' stack'))
    (hnext : Leads phase' stack' b tail o) : ¬ IsClosing (b :: tail) := by
  have hcomma := h.2 [] fun _ _ hb => by cases hb
  have hphase : phase' = .nextItem ∨ phase' = .nextKey := by
    cases phase with
    | afterItem =>
      cases hcomma
      exact .inl rfl
    | afterMember =>
      cases hcomma
      exact .inr rfl
    | value | firstItem | nextItem | firstKey | nextKey | colon => cases hcomma
  have hstep := hnext.2 [] fun _ _ hb => by cases hb
  rintro (heq | heq) <;>
  · obtain ⟨rfl, rfl⟩ := List.cons.inj heq
    rcases hphase with rfl | rfl <;> cases hstep

/-- In a JSON text no comma stands before a closing bracket. -/
lemma Accepts.isChain {phase : Phase} {stack : List Frame} {toks : List Token} {v : Json}
    (h : Accepts phase stack toks v) :
    toks.IsChain fun t u => t = [0x2C] → ¬ IsClosing u := by
  induction h with
  | last h => exact .singleton _
  | @next phase phase' stack stack' b tail rest v h hrest ih =>
    cases hrest with
    | last hnext | next hnext =>
      refine .cons_cons (fun hcomma => ?_) ih
      obtain ⟨rfl, rfl⟩ := List.cons.inj hcomma
      exact not_isClosing_of_comma h hnext

end Json

end AddonBuild
