import AddonBuild.Document
import AddonBuild.Proofs.Json.Skimming
import Mathlib.Data.List.Count

/-!
# Checking and reading

Reading a text closely and checking it go through the same steps, with the same things open, as
long as every step of the one is one of the other. A step that is made when a text is checked can
fail when it is read for three reasons only: a string that is not legible, a number that is too
great, and a nesting that is too deep. So the texts that are read are those that pass the check and
have none of these among their tokens.
-/

namespace AddonBuild

namespace Json

variable {reading reading' : Reading} {phase : Phase} {stack stack' : List Frame} {b : UInt8}
  {s rest : List UInt8} {o : Outcome}

/-! ### Tokens that can be read -/

/-- A number that is greater than all floating numbers, with or without a minus sign. -/
inductive IsTooGreat : Token → Prop where
  | positive {t left : List UInt8} (h : numeral false t = .error ⟨.numberOutOfRange, left⟩) :
      IsTooGreat t
  | negative {t left : List UInt8} (h : numeral true t = .error ⟨.numberOutOfRange, left⟩) :
      IsTooGreat (0x2D :: t)

/-- How many of some tokens open an array or an object. -/
def openings (toks : List Token) : Nat :=
  toks.count [0x5B] + toks.count [0x7B]

/-- How many of some tokens close an array or an object. -/
def closings (toks : List Token) : Nat :=
  toks.count [0x5D] + toks.count [0x7D]

/-- Tokens without anything that is refused only when they are read: their strings are legible, none
of their numbers is too great, and with what is open before them nothing is nested too deep. -/
structure IsReadable (depth : Nat) (toks : List Token) : Prop where
  legible : ∀ body, 0x22 :: body ∈ toks → Legible body
  bounded : ∀ t ∈ toks, ¬ IsTooGreat t
  nested : ∀ front, front <+: toks → depth + openings front ≤ closings front + maxDepth

/-! ### Two ways of reading in step -/

/-- Two frames of one kind. -/
inductive Frame.Alike : Frame → Frame → Prop where
  | list {done done' : List Json} : Alike (.list done) (.list done')
  | record {done done' : Members} {key key' : String} :
      Alike (.record done key) (.record done' key')

/-- Two outcomes that leave the same things open. -/
inductive Outcome.Alike : Outcome → Outcome → Prop where
  | done {v v' : Json} : Alike (.done v) (.done v')
  | more {phase : Phase} {stack stack' : List Frame} (h : List.Forall₂ Frame.Alike stack stack') :
      Alike (.more phase stack) (.more phase stack')

/-- What a step finds is there for a way of reading: the string, the number or the room that it
needs. -/
structure Admits (reading : Reading) (depth : Nat) (b : UInt8) (s : List UInt8) : Prop where
  string : b = 0x22 → ∃ found, stringBy reading s = .ok found
  minus : b = 0x2D → ∃ found, numberBy reading true s = .ok found
  digit : isDigit b = true → ∃ found, numberBy reading false (b :: s) = .ok found
  opening : b = 0x5B ∨ b = 0x7B → reading = .strict → depth < maxDepth

lemma skim_of_stringBy {text : String} (h : stringBy .strict s = .ok (text, rest)) :
    stringBy .skim s = .ok ("", rest) := by
  obtain ⟨body, rfl, hbody⟩ := legible_of_quoted h
  simp only [stringBy, hbody.skimString]

lemma skim_of_numberBy {negative : Bool} {v : Json}
    (h : numberBy .strict negative s = .ok (v, rest)) :
    numberBy .skim negative s = .ok (.null, rest) := by
  have hskims := skims_numeral negative s
  unfold numberBy at h ⊢
  dsimp only at h ⊢
  split at h
  · cases h
  · next n behind hnumeral =>
    obtain ⟨-, rfl⟩ := Prod.mk.inj (Except.ok.inj h)
    rw [hnumeral] at hskims
    generalize skimNumber s = skimmed at hskims ⊢
    cases hskims
    rfl

/-- A string ends at the same place, however it is read. -/
lemma exists_stringBy {text : String} (h : stringBy reading s = .ok (text, rest))
    (hfound : ∃ found, stringBy reading' s = .ok found) :
    ∃ text', stringBy reading' s = .ok (text', rest) := by
  obtain ⟨⟨text', rest'⟩, h'⟩ := hfound
  cases reading <;> cases reading'
  · exact ⟨_, h⟩
  · exact ⟨_, skim_of_stringBy h⟩
  · have hrest := (skim_of_stringBy h').symm.trans h
    obtain rfl := (Prod.mk.inj (Except.ok.inj hrest)).2
    exact ⟨_, h'⟩
  · exact ⟨_, h⟩

/-- A number ends at the same place, however it is read. -/
lemma exists_numberBy {negative : Bool} {v : Json}
    (h : numberBy reading negative s = .ok (v, rest))
    (hfound : ∃ found, numberBy reading' negative s = .ok found) :
    ∃ v', numberBy reading' negative s = .ok (v', rest) := by
  obtain ⟨⟨v', rest'⟩, h'⟩ := hfound
  cases reading <;> cases reading'
  · exact ⟨_, h⟩
  · exact ⟨_, skim_of_numberBy h⟩
  · have hrest := (skim_of_numberBy h').symm.trans h
    obtain rfl := (Prod.mk.inj (Except.ok.inj hrest)).2
    exact ⟨_, h'⟩
  · exact ⟨_, h⟩

/-- What is there for close reading is there for skimming. -/
lemma Admits.skim {depth : Nat} (h : Admits .strict depth b s) (depth' : Nat) :
    Admits .skim depth' b s where
  string hb := by
    obtain ⟨⟨_, _⟩, hfound⟩ := h.string hb
    exact ⟨_, skim_of_stringBy hfound⟩
  minus hb := by
    obtain ⟨⟨_, _⟩, hfound⟩ := h.minus hb
    exact ⟨_, skim_of_numberBy hfound⟩
  digit hb := by
    obtain ⟨⟨_, _⟩, hfound⟩ := h.digit hb
    exact ⟨_, skim_of_numberBy hfound⟩
  opening _ hreading := nomatch hreading

lemma alike_complete (v v' : Json) (h : List.Forall₂ Frame.Alike stack stack') :
    (complete v stack).Alike (complete v' stack') := by
  cases h with
  | nil => exact .done
  | cons hframe houter =>
    cases hframe with
    | list => exact .more (.cons .list houter)
    | record => exact .more (.cons .record houter)

lemma alike_close (h : List.Forall₂ Frame.Alike stack stack') :
    (close stack).Alike (close stack') := by
  cases h with
  | nil => exact .done
  | cons hframe houter =>
    cases hframe with
    | list => exact alike_complete _ _ houter
    | record => exact alike_complete _ _ houter

lemma alike_withKey (key key' : String) (h : List.Forall₂ Frame.Alike stack stack') :
    List.Forall₂ Frame.Alike (withKey key stack) (withKey key' stack') := by
  cases h with
  | nil => exact .nil
  | cons hframe houter =>
    cases hframe with
    | list => exact .cons .list houter
    | record => exact .cons .record houter

lemma Opens.alike {frame : Frame} (h : Opens b frame phase) : frame.Alike frame := by
  cases h with
  | list => exact .list
  | record => exact .record

lemma Opens.isOpening {frame : Frame} (h : Opens b frame phase) : b = 0x5B ∨ b = 0x7B := by
  cases h with
  | list => exact .inl rfl
  | record => exact .inr rfl

lemma StartsValue.alike (h : StartsValue reading stack b s o rest)
    (hstack : List.Forall₂ Frame.Alike stack stack') (hadmits : Admits reading' stack'.length b s) :
    ∃ o', StartsValue reading' stack' b s o' rest ∧ o.Alike o' := by
  cases h with
  | literal hb hread => exact ⟨_, .literal hb hread, alike_complete _ _ hstack⟩
  | string hb hread =>
    obtain ⟨text', hread'⟩ := exists_stringBy hread (hadmits.string hb)
    exact ⟨_, .string hb hread', alike_complete _ _ hstack⟩
  | minus hb hread =>
    obtain ⟨v', hread'⟩ := exists_numberBy hread (hadmits.minus hb)
    exact ⟨_, .minus hb hread', alike_complete _ _ hstack⟩
  | digit hb hread =>
    obtain ⟨v', hread'⟩ := exists_numberBy hread (hadmits.digit hb)
    exact ⟨_, .digit hb hread', alike_complete _ _ hstack⟩
  | opening hb _ =>
    exact ⟨_, .opening hb (hadmits.opening hb.isOpening), .more (.cons hb.alike hstack)⟩

/-- A step of one way of reading is one of the other, if what it finds is there for it. -/
lemma alike_step (hstack : List.Forall₂ Frame.Alike stack stack')
    (hadmits : Admits reading' stack'.length b s)
    (h : step reading phase stack b s = .ok (o, rest)) :
    ∃ o', step reading' phase stack' b s = .ok (o', rest) ∧ o.Alike o' := by
  cases steps_of_step h with
  | value hphase hstart =>
    obtain ⟨o', hstart', halike⟩ := hstart.alike hstack hadmits
    exact ⟨o', step_eq_ok.mpr (.value hphase hstart'), halike⟩
  | key hphase hb hread =>
    obtain ⟨key', hread'⟩ := exists_stringBy hread (hadmits.string hb)
    exact ⟨_, step_eq_ok.mpr (.key hphase hb hread'), .more (alike_withKey _ _ hstack)⟩
  | mark hpasses => exact ⟨_, step_eq_ok.mpr (.mark hpasses), .more hstack⟩
  | closing hcloses => exact ⟨_, step_eq_ok.mpr (.closing hcloses), alike_close hstack⟩

/-! ### What a step finds -/

lemma admits_of_ne {depth : Nat} (hquote : b ≠ 0x22) (hminus : b ≠ 0x2D)
    (hdigit : isDigit b = false) (hopening : ¬ (b = 0x5B ∨ b = 0x7B)) :
    Admits reading depth b s where
  string hb := absurd hb hquote
  minus hb := absurd hb hminus
  digit hb := by rw [hdigit] at hb; cases hb
  opening hb := absurd hb hopening

/-- Nothing but a string is looked for behind a quote. -/
lemma admits_of_quote {depth : Nat} {text : String} (hb : b = 0x22)
    (h : stringBy reading s = .ok (text, rest)) : Admits reading depth b s := by
  subst hb
  exact ⟨fun _ => ⟨_, h⟩, nofun, nofun, fun hb => absurd hb (by decide)⟩

lemma StartsValue.admits (h : StartsValue reading stack b s o rest) :
    Admits reading stack.length b s := by
  cases h with
  | literal hb _ =>
    cases hb <;> exact admits_of_ne (by decide) (by decide) rfl (by decide)
  | string hb hread => exact admits_of_quote hb hread
  | minus hb hread =>
    subst hb
    exact ⟨nofun, fun _ => ⟨_, hread⟩, nofun, fun hb => absurd hb (by decide)⟩
  | digit hb hread =>
    refine ⟨fun h => absurd h (ne_of_isDigit hb), fun h => absurd h (ne_of_isDigit hb),
      fun _ => ⟨_, hread⟩, ?_⟩
    rintro (h | h)
    · exact absurd h (ne_of_isDigit hb)
    · exact absurd h (ne_of_isDigit hb)
  | opening hb hroom =>
    cases hb <;> exact ⟨nofun, nofun, nofun, fun _ => hroom⟩

/-- A step is made only where what it finds is there. -/
lemma admits_of_step (h : step reading phase stack b s = .ok (o, rest)) :
    Admits reading stack.length b s := by
  cases steps_of_step h with
  | value _ hstart => exact hstart.admits
  | key _ hb hread => exact admits_of_quote hb hread
  | mark hpasses =>
    cases hpasses <;> exact admits_of_ne (by decide) (by decide) rfl (by decide)
  | closing hcloses =>
    cases hcloses <;> exact admits_of_ne (by decide) (by decide) rfl (by decide)

/-! ### Tokens, one by one -/

lemma takeClosed_append_self (s : List UInt8) : (takeClosed s).1 ++ (takeClosed s).2 = s := by
  fun_induction takeClosed s <;> simp_all

lemma openings_cons (t : Token) (toks : List Token) :
    openings (t :: toks) = openings [t] + openings toks := by
  simp only [openings, List.count_cons, List.count_nil]
  omega

lemma closings_cons (t : Token) (toks : List Token) :
    closings (t :: toks) = closings [t] + closings toks := by
  simp only [closings, List.count_cons, List.count_nil]
  omega

/-- A token that starts with a quote is closed by one. -/
lemma IsToken.closed {body : List UInt8} (h : IsToken (0x22 :: body)) : Closed body := by
  cases h with
  | string hclosed => exact hclosed
  | word hword => cases hword 0x22 List.mem_cons_self
  | mark hmark => cases hmark

/-- A token that starts with a mark is the mark. -/
lemma IsToken.tail_eq_nil {tail : List UInt8} (h : IsToken (b :: tail)) (hb : isMark b = true) :
    tail = [] := by
  cases h with
  | string => cases hb
  | word h =>
    have hword := h b List.mem_cons_self
    rw [isWordByte_of_isMark hb] at hword
    cases hword
  | mark => rfl

lemma openings_token {tail : List UInt8} (h : IsToken (b :: tail)) :
    openings [b :: tail] = if b = 0x5B ∨ b = 0x7B then 1 else 0 := by
  split_ifs with hb
  · obtain rfl := h.tail_eq_nil (by rcases hb with rfl | rfl <;> rfl)
    rcases hb with rfl | rfl <;> rfl
  · rw [not_or] at hb
    simp [openings, hb.1, hb.2]

lemma closings_token {tail : List UInt8} (h : IsToken (b :: tail)) :
    closings [b :: tail] = if b = 0x5D ∨ b = 0x7D then 1 else 0 := by
  split_ifs with hb
  · obtain rfl := h.tail_eq_nil (by rcases hb with rfl | rfl <;> rfl)
    rcases hb with rfl | rfl <;> rfl
  · rw [not_or] at hb
    simp [closings, hb.1, hb.2]

/-- What is open behind a token. -/
def IsLevel (depth : Nat) (t : Token) (depth' : Nat) : Prop :=
  depth' + closings [t] = depth + openings [t]

lemma IsReadable.tail {depth depth' : Nat} {t : Token} {toks : List Token}
    (h : IsReadable depth (t :: toks)) (hlevel : IsLevel depth t depth') :
    IsReadable depth' toks where
  legible body hbody := h.legible body (List.mem_cons_of_mem _ hbody)
  bounded u hu := h.bounded u (List.mem_cons_of_mem _ hu)
  nested front hfront := by
    have hnested := h.nested (t :: front) (List.cons_prefix_cons.mpr ⟨rfl, hfront⟩)
    rw [openings_cons, closings_cons] at hnested
    unfold IsLevel at hlevel
    omega

lemma isReadable_singleton {depth : Nat} {t : Token}
    (hlegible : ∀ body, t = 0x22 :: body → Legible body) (hbounded : ¬ IsTooGreat t)
    (hdepth : depth ≤ maxDepth) (hroom : depth + openings [t] ≤ maxDepth) :
    IsReadable depth [t] where
  legible body hbody := hlegible body (List.mem_singleton.mp hbody).symm
  bounded u hu := List.mem_singleton.mp hu ▸ hbounded
  nested front hfront := by
    rcases List.prefix_cons_iff.mp hfront with rfl | ⟨behind, rfl, hbehind⟩
    · exact Nat.le_trans hdepth (Nat.le_add_left _ _)
    · obtain rfl := List.prefix_nil.mp hbehind
      exact Nat.le_trans hroom (Nat.le_add_left _ _)

lemma IsReadable.cons {depth depth' : Nat} {t : Token} {toks : List Token}
    (hfirst : IsReadable depth [t]) (hlevel : IsLevel depth t depth')
    (h : IsReadable depth' toks) : IsReadable depth (t :: toks) where
  legible body hbody := by
    rcases List.mem_cons.mp hbody with hbody | hbody
    · exact hfirst.legible body (List.mem_singleton.mpr hbody)
    · exact h.legible body hbody
  bounded u hu := by
    rcases List.mem_cons.mp hu with hu | hu
    · exact hfirst.bounded u (List.mem_singleton.mpr hu)
    · exact h.bounded u hu
  nested front hfront := by
    rcases List.prefix_cons_iff.mp hfront with rfl | ⟨behind, rfl, hbehind⟩
    · exact hfirst.nested [] List.nil_prefix
    · have hnested := h.nested behind hbehind
      rw [openings_cons, closings_cons]
      unfold IsLevel at hlevel
      omega

lemma length_of_complete {v : Json} (h : complete v stack = .more phase stack') :
    stack'.length = stack.length := by
  match stack with
  | [] => cases h
  | .list done :: outer | .record done key :: outer =>
    cases h
    rfl

lemma length_of_close (h : close stack = .more phase stack') :
    stack'.length + 1 = stack.length := by
  match stack with
  | [] => cases h
  | .list done :: outer | .record done key :: outer =>
    rw [length_of_complete h]
    rfl

lemma length_withKey (key : String) (stack : List Frame) :
    (withKey key stack).length = stack.length := by
  match stack with
  | [] | .list done :: outer | .record done _ :: outer => rfl

/-- A token that is no bracket leaves as many frames as there are. -/
lemma isLevel_of_ne {depth : Nat} {tail : List UInt8} (htoken : IsToken (b :: tail))
    (hopening : ¬ (b = 0x5B ∨ b = 0x7B)) (hclosing : ¬ (b = 0x5D ∨ b = 0x7D)) :
    IsLevel depth (b :: tail) depth := by
  rw [IsLevel, openings_token htoken, closings_token htoken, if_neg hopening, if_neg hclosing]

lemma Opens.isLevel {frame : Frame} {depth : Nat} {tail : List UInt8} (h : Opens b frame phase)
    (htoken : IsToken (b :: tail)) : IsLevel depth (b :: tail) (depth + 1) := by
  rw [IsLevel, openings_token htoken, closings_token htoken, if_pos h.isOpening]
  cases h <;> rfl

lemma Phase.Closes.isLevel {depth : Nat} {tail : List UInt8} (h : phase.Closes b)
    (htoken : IsToken (b :: tail)) : IsLevel (depth + 1) (b :: tail) depth := by
  rw [IsLevel, openings_token htoken, closings_token htoken]
  cases h <;> rfl

lemma StartsValue.isLevel {tail : List UInt8}
    (h : StartsValue reading stack b s (.more phase stack') rest)
    (htoken : IsToken (b :: tail)) : IsLevel stack.length (b :: tail) stack'.length := by
  generalize ho : Outcome.more phase stack' = o at h
  cases h with
  | literal hb _ =>
    rw [length_of_complete ho.symm]
    cases hb <;> exact isLevel_of_ne htoken (by decide) (by decide)
  | string hb _ =>
    subst hb
    rw [length_of_complete ho.symm]
    exact isLevel_of_ne htoken (by decide) (by decide)
  | minus hb _ =>
    subst hb
    rw [length_of_complete ho.symm]
    exact isLevel_of_ne htoken (by decide) (by decide)
  | digit hb _ =>
    rw [length_of_complete ho.symm]
    exact isLevel_of_ne htoken (not_or.mpr ⟨ne_of_isDigit hb, ne_of_isDigit hb⟩)
      (not_or.mpr ⟨ne_of_isDigit hb, ne_of_isDigit hb⟩)
  | opening hb _ =>
    cases ho
    exact hb.isLevel htoken

/-- A token opens a frame, closes one, or leaves as many of them as there are. -/
lemma isLevel_of_step {tail : List UInt8} {phase' : Phase} (htoken : IsToken (b :: tail))
    (h : step reading phase stack b s = .ok (.more phase' stack', rest)) :
    IsLevel stack.length (b :: tail) stack'.length := by
  generalize ho : Outcome.more phase' stack' = o at h
  cases steps_of_step h with
  | value _ hstart =>
    subst ho
    exact hstart.isLevel htoken
  | key _ hb _ =>
    subst hb
    cases ho
    rw [length_withKey]
    exact isLevel_of_ne htoken (by decide) (by decide)
  | mark hpasses =>
    cases ho
    cases hpasses <;> exact isLevel_of_ne htoken (by decide) (by decide)
  | closing hcloses =>
    rw [← length_of_close ho.symm]
    exact hcloses.isLevel htoken

/-! ### Whole texts -/

/-- What is there for skimming is there for close reading, where tokens can be read. -/
lemma IsReadable.admits {depth depth' : Nat} {toks : List Token}
    (h : IsReadable depth ((takeToken b s).1 :: toks)) (hadmits : Admits .skim depth' b s) :
    Admits .strict depth b s := by
  have hsplit := List.takeWhile_append_dropWhile (p := isWordByte) (l := s)
  have hword (hb : isWordByte b = true) : (takeToken b s).1 = b :: s.takeWhile isWordByte := by
    rw [takeToken, if_neg (ne_of_isWordByte hb), if_pos hb]
  have hbounded := h.bounded _ List.mem_cons_self
  -- a number that is passed over may be too great to be read; the bound rules that out
  have hnumber {negative : Bool} {w : List UInt8}
      (hgreat : ∀ left, numeral negative w ≠ .error ⟨.numberOutOfRange, left⟩)
      (hskim : ∃ found, numberBy .skim negative (w ++ s.dropWhile isWordByte) = .ok found) :
      ∃ found, numberBy .strict negative (w ++ s.dropWhile isWordByte) = .ok found := by
    obtain ⟨found, hfound⟩ := hskim
    unfold numberBy at hfound ⊢
    dsimp only at hfound ⊢
    split at hfound
    · cases hfound
    · next hread =>
      obtain ⟨n, hn⟩ := exists_numeral (ends_dropWhile s) hgreat hread
      rw [hn]
      exact ⟨_, rfl⟩
  refine ⟨fun hb => ?_, fun hb => ?_, fun hb => ?_, fun hb _ => ?_⟩
  · subst hb
    obtain ⟨text, htext⟩ := (h.legible _ List.mem_cons_self).exists_quoted (takeClosed s).2
    rw [takeClosed_append_self] at htext
    exact ⟨_, htext⟩
  · have hskim := hadmits.minus hb
    subst hb
    rw [hword rfl] at hbounded
    rw [← hsplit] at hskim ⊢
    exact hnumber (fun left hleft => hbounded (.negative hleft)) hskim
  · have hskim := hadmits.digit hb
    rw [hword (isWordByte_of_isDigit b hb)] at hbounded
    rw [← hsplit, ← List.cons_append] at hskim ⊢
    exact hnumber (fun left hleft => hbounded (.positive hleft)) hskim
  · have htoken : (takeToken b s).1 = [b] := by
      rcases hb with rfl | rfl <;> rfl
    have hnested := h.nested [(takeToken b s).1] (List.cons_prefix_cons.mpr ⟨rfl, List.nil_prefix⟩)
    rw [htoken] at hnested
    have hone : openings [[b]] = 1 ∧ closings [[b]] = 0 := by
      rcases hb with rfl | rfl <;> exact ⟨rfl, rfl⟩
    omega

/-- What is read closely is skimmed. -/
lemma exists_run_skim {v : Json} (hstack : List.Forall₂ Frame.Alike stack stack')
    (h : run .strict phase stack s = .ok (v, rest)) :
    ∃ v', run .skim phase stack' s = .ok (v', rest) := by
  fun_induction run .strict phase stack s generalizing stack' with
  | case1 => cases h
  | case2 => cases h
  | case3 phase stack s b behind hskip value rest' hstep =>
    obtain ⟨-, rfl⟩ := Prod.mk.inj (Except.ok.inj h)
    obtain ⟨o', hstep', halike⟩ := alike_step hstack ((admits_of_step hstep).skim _) hstep
    cases halike
    exact ⟨_, run_of_step hskip hstep'⟩
  | case4 phase stack s b behind hskip phase' next rest' hstep _ ih =>
    obtain ⟨o', hstep', halike⟩ := alike_step hstack ((admits_of_step hstep).skim _) hstep
    cases halike with
    | more hnext =>
      obtain ⟨v', hv'⟩ := ih hnext h
      exact ⟨v', (run_of_step hskip hstep').trans hv'⟩

/-- What is skimmed is read closely, if its tokens can be. -/
lemma exists_run_strict {v' : Json} (hstack : List.Forall₂ Frame.Alike stack' stack)
    (h : run .skim phase stack' s = .ok (v', rest)) (hrest : skipBlank rest = [])
    (hreadable : IsReadable stack.length (tokens s)) :
    ∃ v, run .strict phase stack s = .ok (v, rest) := by
  fun_induction run .skim phase stack' s generalizing stack with
  | case1 => cases h
  | case2 => cases h
  | case3 phase stack' s b behind hskip value rest' hstep =>
    obtain ⟨-, rfl⟩ := Prod.mk.inj (Except.ok.inj h)
    rw [tokens_of_cons hskip] at hreadable
    obtain ⟨o, hstep', halike⟩ :=
      alike_step hstack (hreadable.admits (admits_of_step hstep)) hstep
    cases halike
    exact ⟨_, run_of_step hskip hstep'⟩
  | case4 phase stack' s b behind hskip phase' next rest' hstep _ ih =>
    have htokens := tokens_of_cons hskip
    rw [htokens] at hreadable
    obtain ⟨o, hstep', halike⟩ :=
      alike_step hstack (hreadable.admits (admits_of_step hstep)) hstep
    cases halike with
    | more hnext =>
      have hends (hword : isWordByte b = true) : Ends rest' :=
        (isAfter_of_step hword hstep').ends_of_run h
      obtain ⟨tail, rfl, hleads⟩ := leads_of_step hstep' hends
      rw [hleads.1.takeToken_append hends] at hreadable
      obtain ⟨v, hv⟩ := ih hnext h (hreadable.tail (isLevel_of_step hleads.1 hstep'))
      exact ⟨v, (run_of_step hskip hstep').trans hv⟩

/-- A token that is read can be read, where it is. -/
lemma Leads.isReadable {tail : List UInt8} (h : Leads phase stack b tail o)
    (hdepth : stack.length ≤ maxDepth) :
    IsReadable stack.length [b :: tail] ∧ stack.length + openings [b :: tail] ≤ maxDepth := by
  have hstep := h.2 [] fun _ _ hb => nomatch hb
  have hadmits := admits_of_step hstep
  rw [List.append_nil] at hadmits
  have hnumeral {negative : Bool} {s left : List UInt8}
      (hfound : ∃ found, numberBy .strict negative s = .ok found) :
      numeral negative s ≠ .error ⟨.numberOutOfRange, left⟩ := by
    rintro herror
    obtain ⟨found, hfound⟩ := hfound
    simp only [numberBy, herror] at hfound
    cases hfound
  have hroom : stack.length + openings [b :: tail] ≤ maxDepth := by
    rw [openings_token h.1]
    split_ifs with hb
    · exact hadmits.opening hb rfl
    · exact hdepth
  refine ⟨isReadable_singleton (fun body hbody => ?_) ?_ hdepth hroom, hroom⟩
  · obtain ⟨rfl, rfl⟩ := List.cons.inj hbody
    obtain ⟨⟨text, rest⟩, hquoted⟩ := hadmits.string rfl
    obtain ⟨body, rfl, hlegible⟩ := legible_of_quoted hquoted
    -- the token ends where the string does
    have hend := h.1.closed.takeClosed_append []
    rw [List.append_nil, hlegible.closed.takeClosed_append] at hend
    rw [← (Prod.mk.inj hend).1]
    exact hlegible
  · intro hgreat
    cases hgreat with
    | positive herror =>
      by_cases hdigit : isDigit b = true
      · exact hnumeral (hadmits.digit hdigit) herror
      · have hzero : b ≠ 0x30 := by
          rintro rfl
          exact hdigit rfl
        simp [numeral, hzero, hdigit, stop] at herror
    | negative herror => exact hnumeral (hadmits.minus rfl) herror

/-- Tokens that are read can be read. -/
lemma Accepts.isReadable {toks : List Token} {v : Json} (h : Accepts phase stack toks v)
    (hdepth : stack.length ≤ maxDepth) : IsReadable stack.length toks := by
  induction h with
  | last hleads => exact (hleads.isReadable hdepth).1
  | @next phase phase' stack stack' b tail rest v hleads _ ih =>
    obtain ⟨hfirst, hroom⟩ := hleads.isReadable hdepth
    have hlevel := isLevel_of_step hleads.1 (hleads.2 [] fun _ _ hb => nomatch hb)
    refine hfirst.cons hlevel (ih ?_)
    unfold IsLevel at hlevel
    omega

lemma check_eq_ok : check s = .ok () ↔
    ∃ v rest, run .skim .value [] s = .ok (v, rest) ∧ skipBlank rest = [] := by
  simp only [check, document, value]
  cases run .skim .value [] s with
  | error halt => simp [Except.mapError, Except.map]
  | ok found =>
    obtain ⟨v, rest⟩ := found
    dsimp only
    cases hskip : skipBlank rest with
    | nil => simp [Except.mapError, Except.map, hskip]
    | cons b behind => simp [Except.mapError, Except.map, stop, hskip]

/-- A text has a value just if it passes the check and its tokens can be read. -/
lemma exists_parse_iff :
    (∃ v, parse s = .ok v) ↔ check s = .ok () ∧ IsReadable 0 (tokens s) := by
  rw [check_eq_ok]
  constructor
  · rintro ⟨v, hparse⟩
    obtain ⟨rest, hrun, hrest⟩ := parse_eq_ok.mp hparse
    obtain ⟨v', hskim⟩ := exists_run_skim .nil hrun
    exact ⟨⟨v', rest, hskim, hrest⟩,
      (accepts_of_run hrun hrest).isReadable (Nat.zero_le maxDepth)⟩
  · rintro ⟨⟨v', rest, hskim, hrest⟩, hreadable⟩
    obtain ⟨v, hrun⟩ := exists_run_strict .nil hskim hrest hreadable
    exact ⟨v, parse_eq_ok.mpr ⟨rest, hrun, hrest⟩⟩

end Json

/-- A file can be turned into a module just if it passes the check, all of its strings are legible,
none of its numbers is too great and nothing in it is nested too deep. -/
theorem Document.exists_toModule_iff (file : Path) (content : ByteArray) :
    (∃ text, toModule file content = .ok text) ↔
      validate file content = .ok () ∧ Json.IsReadable 0 (Json.tokens content.data.toList) := by
  have hmodule : (∃ text, toModule file content = .ok text) ↔
      ∃ v, Json.parse content.data.toList = .ok v := by
    rw [toModule]
    cases Json.parse content.data.toList <;> simp [Except.mapError, Except.map]
  rw [hmodule, Json.exists_parse_iff, validate, mapError_eq_ok]

end AddonBuild
