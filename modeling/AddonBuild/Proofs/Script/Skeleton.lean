import AddonBuild.Script.Specifier
import Mathlib.Tactic.Lemma
import Mathlib.Tactic.SplitIfs

/-!
# The skeleton of a script

A script without the contents of its closed strings. Everything that tells the specifiers among
lexemes from the others commutes with taking the skeleton, so that the contents of strings do not
matter for it.
-/

namespace AddonBuild

namespace Script

/-- A lexeme without its content, if it is a closed string. -/
def Lexeme.skeleton : Lexeme → Lexeme
  | .string quote _ true => .string quote [] true
  | l => l

/-- A specifier without its text. -/
def Specifier.skeleton (s : Specifier) : Specifier :=
  { s with text := "" }

/-- A find in the skeleton of the lexemes. -/
def Found.skeleton (f : Found) : Found :=
  ⟨f.lead.map Lexeme.skeleton, f.specifier.skeleton, f.rest.map Lexeme.skeleton⟩

/-- A piece of the skeleton. -/
def Piece.skeleton : Piece → Piece
  | .plain l => .plain l.skeleton
  | .specifier s => .specifier s.skeleton

/-! ### Single lexemes -/

lemma Lexeme.skeleton_of_ne {l : Lexeme} (h : ∀ quote content, l ≠ .string quote content true) :
    l.skeleton = l := by
  unfold Lexeme.skeleton
  split
  · exact absurd rfl (h _ _)
  · rfl

@[simp] lemma Lexeme.skeleton_word (chars : List Char) :
    (Lexeme.word chars).skeleton = .word chars := rfl

@[simp] lemma Lexeme.skeleton_mark (c : Char) : (Lexeme.mark c).skeleton = .mark c := rfl

lemma Lexeme.exists_skeleton_string (quote : Char) (content : List Char) (closed : Bool) :
    ∃ content', (Lexeme.string quote content closed).skeleton = .string quote content' closed := by
  cases closed with
  | true => exact ⟨[], rfl⟩
  | false => exact ⟨content, rfl⟩

@[simp] lemma Lexeme.isTrivia_skeleton (l : Lexeme) : l.skeleton.isTrivia = l.isTrivia := by
  unfold Lexeme.skeleton
  split <;> rfl

lemma Lexeme.skeleton_eq_mark {l : Lexeme} {c : Char} : l.skeleton = .mark c ↔ l = .mark c := by
  unfold Lexeme.skeleton
  split <;> simp

lemma Lexeme.skeleton_eq_word {l : Lexeme} {chars : List Char} :
    l.skeleton = .word chars ↔ l = .word chars := by
  unfold Lexeme.skeleton
  split <;> simp

lemma Lexeme.skeleton_ne_string {l : Lexeme} {quote : Char} {content : List Char}
    (h : ∀ quote content, l ≠ .string quote content true) :
    l.skeleton ≠ .string quote content true := by
  rw [l.skeleton_of_ne h]
  exact h quote content

/-! ### Looking ahead -/

lemma significant_skeleton (ls : List Lexeme) :
    significant (ls.map Lexeme.skeleton) = (significant ls).map Lexeme.skeleton := by
  have htrivia : Lexeme.isTrivia ∘ Lexeme.skeleton = Lexeme.isTrivia :=
    funext Lexeme.isTrivia_skeleton
  rw [significant, List.dropWhile_map, htrivia]
  rfl

@[simp] lemma stringFollows_skeleton (ls : List Lexeme) :
    stringFollows (ls.map Lexeme.skeleton) = stringFollows ls := by
  rw [stringFollows, significant_skeleton, stringFollows]
  cases significant ls with
  | nil => rfl
  | cons l rest =>
    cases l with
    | string quote content closed =>
      obtain ⟨content', h⟩ := Lexeme.exists_skeleton_string quote content closed
      rw [List.map_cons, h]
    | _ => rfl

@[simp] lemma closesCall_skeleton (ls : List Lexeme) :
    closesCall (ls.map Lexeme.skeleton) = closesCall ls := by
  rw [closesCall, significant_skeleton, closesCall]
  cases significant ls with
  | nil => rfl
  | cons l rest =>
    cases l with
    | string quote content closed =>
      obtain ⟨content', h⟩ := Lexeme.exists_skeleton_string quote content closed
      rw [List.map_cons, h]
    | _ => rfl

section LookAhead

variable (kind : Kind) (passed ls : List Lexeme)

lemma literal?_skeleton :
    literal? kind (passed.map Lexeme.skeleton) (ls.map Lexeme.skeleton) =
      (literal? kind passed ls).map Found.skeleton := by
  fun_induction literal? kind passed ls with
  | case1 passed quote content rest =>
    rw [List.map_cons, Lexeme.skeleton, literal?, ← List.map_reverse]
    rfl
  | case2 passed l rest hne hl ih =>
    rw [List.map_cons, literal?, if_pos (by simpa using hl)]
    · exact ih
    · exact fun _ _ => Lexeme.skeleton_ne_string hne
  | case3 passed l rest hne hl =>
    rw [List.map_cons, literal?, if_neg (by simpa using hl)]
    · rfl
    · exact fun _ _ => Lexeme.skeleton_ne_string hne
  | case4 passed => rfl

lemma clause?_skeleton (inBraces : Bool) :
    clause? kind inBraces (passed.map Lexeme.skeleton) (ls.map Lexeme.skeleton) =
      (clause? kind inBraces passed ls).map Found.skeleton := by
  fun_induction clause? kind inBraces passed ls with
  | case1 => rfl
  | case2 => rfl
  | case3 inBraces passed rest hb ih =>
    rw [← ih, List.map_cons, Lexeme.skeleton_mark, clause?, if_pos rfl, if_neg hb]
    rfl
  | case4 passed rest _ ih =>
    rw [← ih]
    rfl
  | case5 inBraces passed rest hb _ =>
    rw [List.map_cons, Lexeme.skeleton_mark, clause?, if_neg (by decide), if_pos rfl, if_neg hb]
    rfl
  | case6 inBraces passed c rest hopen hclose hc ih =>
    rw [← ih, List.map_cons, Lexeme.skeleton_mark, clause?, if_neg hopen, if_neg hclose, if_pos hc]
    rfl
  | case7 inBraces passed c rest hopen hclose hc =>
    rw [List.map_cons, Lexeme.skeleton_mark, clause?, if_neg hopen, if_neg hclose, if_neg hc]
    rfl
  | case8 inBraces passed chars rest hfrom =>
    rw [← literal?_skeleton, List.map_cons, Lexeme.skeleton_word, clause?, stringFollows_skeleton,
      if_pos hfrom]
    rfl
  | case9 inBraces passed chars rest hfrom ih =>
    rw [← ih, List.map_cons, Lexeme.skeleton_word, clause?, stringFollows_skeleton, if_neg hfrom]
    rfl
  | case10 passed quote content closed rest ih =>
    obtain ⟨content', hstring⟩ := Lexeme.exists_skeleton_string quote content closed
    rw [← ih, List.map_cons, List.map_cons, hstring]
    rfl
  | case11 inBraces passed quote content closed rest hb =>
    obtain ⟨content', hstring⟩ := Lexeme.exists_skeleton_string quote content closed
    rw [List.map_cons, hstring, clause?, if_neg hb]
    rfl
  | case12 => rfl
  | case13 inBraces passed l rest hmark hword hstring htemplate ih =>
    have hl : l.skeleton = l := Lexeme.skeleton_of_ne fun quote content =>
      hstring quote content true
    rw [← ih, List.map_cons, List.map_cons, hl, clause?]
    · exact hmark
    · exact hword
    · exact hstring
    · exact htemplate

lemma call?_skeleton :
    call? (passed.map Lexeme.skeleton) (ls.map Lexeme.skeleton) =
      (call? passed ls).map Found.skeleton := by
  have hcloses : (fun f => closesCall f.rest) ∘ Found.skeleton = fun f => closesCall f.rest :=
    funext fun f => closesCall_skeleton f.rest
  rw [call?, literal?_skeleton, Option.filter_map, hcloses]
  rfl

lemma import?_skeleton : import? (passed.map Lexeme.skeleton) (ls.map Lexeme.skeleton) =
    (import? passed ls).map Found.skeleton := by
  fun_induction import? passed ls with
  | case1 => rfl
  | case2 passed l rest hl ih =>
    rw [← ih, List.map_cons, import?, Lexeme.isTrivia_skeleton, if_pos hl]
    rfl
  | case3 passed l rest hl hstring =>
    rw [← literal?_skeleton, List.map_cons, import?, Lexeme.isTrivia_skeleton, if_neg hl,
      if_pos (by rwa [← stringFollows_skeleton] at hstring)]
  | case4 passed rest hl hstring =>
    rw [← call?_skeleton]
    rfl
  | case5 passed rest hl hstring => rfl
  | case6 passed l rest hl hstring hcall hdot =>
    rw [← clause?_skeleton, List.map_cons, import?, Lexeme.isTrivia_skeleton, if_neg hl,
      if_neg (by rwa [← stringFollows_skeleton] at hstring),
      if_neg (by rwa [Lexeme.skeleton_eq_mark]), if_neg (by rwa [Lexeme.skeleton_eq_mark])]

lemma statement?_skeleton (word : List Char) :
    statement? word (ls.map Lexeme.skeleton) = (statement? word ls).map Found.skeleton := by
  rw [statement?, statement?]
  split_ifs
  · exact import?_skeleton [] ls
  · exact clause?_skeleton .exportFrom [] ls false
  · rfl

end LookAhead

/-! ### Pieces -/

lemma piecesFrom_of_some {chars : List Char} {rest : List Lexeme} {f : Found}
    (h : statement? chars rest = some f) :
    piecesFrom false (.word chars :: rest) =
      .plain (.word chars) :: f.lead.map .plain ++
        .specifier f.specifier :: piecesFrom false f.rest := by
  rw [piecesFrom]
  split
  · next found hfound =>
    obtain rfl : found = f := Option.some.inj (hfound.symm.trans h)
    rfl
  · next hnone => cases hnone.symm.trans h

lemma piecesFrom_of_none {afterDot : Bool} {chars : List Char} {rest : List Lexeme}
    (h : (if afterDot then none else statement? chars rest) = none) :
    piecesFrom afterDot (.word chars :: rest) =
      .plain (.word chars) :: piecesFrom false rest := by
  rw [piecesFrom]
  split
  · next found hfound => cases hfound.symm.trans h
  · rfl

lemma piecesFrom_of_ne {l : Lexeme} (h : ∀ chars, l ≠ .word chars) (afterDot : Bool)
    (rest : List Lexeme) :
    piecesFrom afterDot (l :: rest) = .plain l :: piecesFrom (l = .mark '.') rest := by
  rw [piecesFrom]
  exact h

lemma piecesFrom_skeleton (afterDot : Bool) (ls : List Lexeme) :
    piecesFrom afterDot (ls.map Lexeme.skeleton) =
      (piecesFrom afterDot ls).map Piece.skeleton := by
  fun_induction piecesFrom afterDot ls with
  | case1 => rw [List.map_nil, piecesFrom]; rfl
  | case2 afterDot chars rest found hfound ih =>
    obtain ⟨rfl, hf⟩ := found_of_ite hfound
    have hskeleton := statement?_skeleton rest chars
    rw [hf, Option.map_some] at hskeleton
    have hlead : (found.lead.map Lexeme.skeleton).map Piece.plain =
        (found.lead.map Piece.plain).map Piece.skeleton := by
      rw [List.map_map, List.map_map]
      rfl
    rw [List.map_cons, Lexeme.skeleton_word, piecesFrom_of_some hskeleton, List.map_append,
      List.map_cons, List.map_cons, ← ih, ← hlead]
    rfl
  | case3 afterDot chars rest hnone ih =>
    rw [List.map_cons, Lexeme.skeleton_word, piecesFrom_of_none, ih]
    · rfl
    · rw [statement?_skeleton]
      cases afterDot with
      | true => rfl
      | false => rw [show statement? chars rest = none from hnone]; rfl
  | case4 afterDot l rest hword ih =>
    rw [List.map_cons, piecesFrom_of_ne, List.map_cons, ← ih]
    · simp only [Lexeme.skeleton_eq_mark]
      rfl
    · intro chars h
      exact hword chars (Lexeme.skeleton_eq_word.mp h)

lemma Piece.skeleton_lexeme (p : Piece) : p.lexeme.skeleton = p.skeleton.lexeme := by
  cases p <;> rfl

lemma map_skeleton_lexeme (ps : List Piece) :
    (ps.map Piece.lexeme).map Lexeme.skeleton = (ps.map Piece.skeleton).map Piece.lexeme := by
  rw [List.map_map, List.map_map]
  exact List.map_congr_left fun p _ => p.skeleton_lexeme

/-- A piece is known by its skeleton and the lexeme it is written as. -/
lemma Piece.eq_of_skeleton_eq {p q : Piece} (hskeleton : p.skeleton = q.skeleton)
    (hlexeme : p.lexeme = q.lexeme) : p = q := by
  cases p with
  | plain l =>
    cases q with
    | plain m => exact congrArg Piece.plain hlexeme
    | specifier s => cases hskeleton
  | specifier s =>
    cases q with
    | plain m => cases hskeleton
    | specifier t =>
      obtain ⟨kind, quote, text⟩ := s
      obtain ⟨kind', quote', text'⟩ := t
      simp only [Piece.skeleton, Specifier.skeleton, Piece.specifier.injEq, Specifier.mk.injEq,
        and_true] at hskeleton
      simp only [Piece.lexeme, Specifier.lexeme, Lexeme.string.injEq, String.toList_inj,
        and_true] at hlexeme
      rw [hskeleton.1, hskeleton.2, hlexeme.2]

lemma pieces_eq_of_skeleton_eq {ps qs : List Piece}
    (hskeleton : ps.map Piece.skeleton = qs.map Piece.skeleton)
    (hlexeme : ps.map Piece.lexeme = qs.map Piece.lexeme) : ps = qs := by
  induction ps generalizing qs with
  | nil => exact (List.map_eq_nil_iff.mp hskeleton.symm).symm
  | cons p ps ih =>
    cases qs with
    | nil => cases hskeleton
    | cons q qs =>
      obtain ⟨hp, hps⟩ := List.cons.inj hskeleton
      obtain ⟨hq, hqs⟩ := List.cons.inj hlexeme
      rw [Piece.eq_of_skeleton_eq hp hq, ih hps hqs]

end Script

end AddonBuild
