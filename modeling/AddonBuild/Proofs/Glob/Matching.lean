import AddonBuild.Glob
import Mathlib.Data.List.Infix
import Mathlib.Tactic.Lemma
import Mathlib.Tactic.SplitIfs

/-!
# Globs of trees

The glob `p/**` of a tree is read as the tokens of `p` with the token for whole components behind a
slash, if `p` has no class and no `**` of its own. It matches what lies in a directory that `p`
spells, where every `*` of `p` stands for a run of characters without a slash.
-/

namespace AddonBuild

namespace Glob

/-! ### Attempts that run out of text -/

/-- An attempt that runs out of text does not succeed on less of it. -/
def Steady (attempt : List Char → Verdict) : Prop :=
  ∀ s r, r <:+ s → attempt s = .exhausted → attempt r ≠ .matched

section Sweep

variable {attempt : List Char → Verdict} {s : List Char}

lemma exists_of_sweep (h : sweep attempt s = .matched) :
    ∃ r, r <:+ s ∧ attempt r = .matched := by
  induction s with
  | nil => exact ⟨[], List.suffix_refl _, h⟩
  | cons c s ih =>
    rw [sweep] at h
    cases hc : attempt (c :: s) with
    | matched => exact ⟨c :: s, List.suffix_refl _, hc⟩
    | exhausted => simp [hc] at h
    | mismatched =>
      simp only [hc] at h
      split_ifs at h
      obtain ⟨r, hr, hmatched⟩ := ih h
      exact ⟨r, hr.trans (List.suffix_cons c s), hmatched⟩

lemma Steady.not_matched_of_sweep (hsteady : Steady attempt) (h : sweep attempt s = .exhausted)
    {r : List Char} (hr : r <:+ s) : attempt r ≠ .matched := by
  induction s with
  | nil => exact hsteady [] r hr h
  | cons c s ih =>
    rw [sweep] at h
    cases hc : attempt (c :: s) with
    | matched => simp [hc] at h
    | exhausted => exact hsteady _ r hr hc
    | mismatched =>
      simp only [hc] at h
      split_ifs at h
      rcases List.suffix_cons_iff.mp hr with rfl | hr
      · rw [hc]
        exact Verdict.noConfusion
      · exact ih h hr

/-- What matches behind a run without a slash is found. -/
lemma Steady.sweep_append (hsteady : Steady attempt) {w : List Char} (hw : '/' ∉ w)
    (h : attempt s = .matched) : sweep attempt (w ++ s) = .matched := by
  induction w with
  | nil =>
    cases s with
    | nil => exact h
    | cons c s => rw [List.nil_append, sweep, h]
  | cons c w ih =>
    obtain ⟨hc, hw⟩ := not_or.mp (mt List.mem_cons.mpr hw)
    rw [List.cons_append, sweep]
    cases hattempt : attempt (c :: (w ++ s)) with
    | matched => rfl
    | exhausted => exact absurd h (hsteady _ s (List.suffix_append (c :: w) s) hattempt)
    | mismatched =>
      simp only [if_neg (Ne.symm hc)]
      exact ih hw

end Sweep

lemma Steady.run_cons {token : Token} {tokens : List Token} (h : Steady (run tokens))
    (htoken : token ≠ .anyComponents) : Steady (run (token :: tokens)) := by
  intro s r hr hs hmatched
  have hone (hnil : run (token :: tokens) [] = .exhausted) (hcons : ∀ c rest,
      run (token :: tokens) (c :: rest) =
        if token.accepts c then run tokens rest else .mismatched) : False := by
    cases r with
    | nil =>
      rw [hnil] at hmatched
      cases hmatched
    | cons c r =>
      cases s with
      | nil => cases List.suffix_nil.mp hr
      | cons b s =>
        rw [hcons] at hs hmatched
        split_ifs at hs hmatched
        refine h s r ?_ hs hmatched
        rcases List.suffix_cons_iff.mp hr with heq | hr
        · rw [(List.cons.inj heq).2]
        · exact (List.suffix_cons c r).trans hr
  cases token with
  | anyComponents => exact htoken rfl
  | anySequence =>
    obtain ⟨t, ht, hmatched⟩ := exists_of_sweep hmatched
    exact h.not_matched_of_sweep hs (ht.trans hr) hmatched
  | char | anyChar | within | except => exact hone rfl fun _ _ => rfl

/-! ### What lies in a directory -/

/-- The token of a character that belongs to no class and to no `**`. -/
def plainToken (c : Char) : Token :=
  if c = '?' then .anyChar else if c = '*' then .anySequence else .char c

/-- The tokens of `/**`. -/
def inside : List Token :=
  [.char '/', .anyComponents]

/-- A pattern spells a text that has a run without a slash in place of each star. -/
inductive Spells : List Char → List Char → Prop where
  | nil : Spells [] []
  | char {c : Char} {p s : List Char} (hc : c ≠ '*') (h : Spells p s) : Spells (c :: p) (c :: s)
  | star {w p s : List Char} (hw : '/' ∉ w) (h : Spells p s) : Spells ('*' :: p) (w ++ s)

lemma Spells.append {p s p' s' : List Char} (h : Spells p s) (h' : Spells p' s') :
    Spells (p ++ p') (s ++ s') := by
  induction h with
  | nil => exact h'
  | char hc h ih => exact .char hc ih
  | star hw h ih =>
    rw [List.append_assoc]
    exact .star hw ih

lemma Spells.of_cons {c : Char} {p s : List Char} (hc : c ≠ '*') (h : Spells (c :: p) s) :
    ∃ rest, s = c :: rest ∧ Spells p rest := by
  cases h with
  | char _ h => exact ⟨_, rfl, h⟩
  | star => exact absurd rfl hc

/-- A glob of whole components matches every text. -/
lemma run_anyComponents (s : List Char) : run [.anyComponents] s = .matched := by
  have hsweep (s : List Char) : sweepComponents (run []) s = .matched := by
    induction s with
    | nil => rfl
    | cons c s ih =>
      rw [sweepComponents]
      split_ifs
      · cases s with
        | nil => rfl
        | cons b s => exact ih
      · exact ih
  cases s with
  | nil => rfl
  | cons c s => exact hsweep (c :: s)

lemma steady_inside : Steady (run inside) := by
  intro s r hr hs
  cases s with
  | nil =>
    rw [List.suffix_nil.mp hr]
    exact Verdict.noConfusion
  | cons c s =>
    have hrun : run inside (c :: s) =
        if Token.accepts c (.char '/') then run [.anyComponents] s else .mismatched := rfl
    rw [hrun, run_anyComponents] at hs
    split_ifs at hs

lemma steady_run (p : List Char) : Steady (run (p.map plainToken ++ inside)) := by
  induction p with
  | nil => exact steady_inside
  | cons c p ih =>
    refine ih.run_cons ?_
    rw [plainToken]
    split_ifs <;> exact Token.noConfusion

/-- The glob of a tree matches what lies in a directory that the pattern spells. -/
lemma Spells.run_eq {p s : List Char} (h : Spells p s) (rest : List Char) :
    run (p.map plainToken ++ inside) (s ++ '/' :: rest) = .matched := by
  induction h with
  | nil => exact run_anyComponents rest
  | @char c p s hc h ih =>
    by_cases hany : c = '?'
    · subst hany
      exact ih
    · have htoken : plainToken c = .char c := by rw [plainToken, if_neg hany, if_neg hc]
      rw [List.map_cons, htoken, List.cons_append, List.cons_append]
      simpa [run, Token.accepts] using ih
  | @star w p s hw h ih =>
    rw [List.append_assoc]
    exact (steady_run p).sweep_append hw ih

/-! ### Reading -/

section Reading

variable (tokens : List Token) (before : Option Char) (position : Nat)

lemma readFrom_char {c : Char} (hany : c ≠ '?') (hstar : c ≠ '*') (hclass : c ≠ '[')
    (rest : List Char) :
    readFrom tokens before position (c :: rest) =
      readFrom (.char c :: tokens) (some c) (position + 1) rest := by
  rw [readFrom]
  · exact hany
  · exact fun _ heq _ => hstar heq
  · exact fun _ heq _ => hstar heq
  · exact hstar
  · exact hclass

lemma readFrom_star {rest : List Char} (h : rest.head? ≠ some '*') :
    readFrom tokens before position ('*' :: rest) =
      readFrom (.anySequence :: tokens) (some '*') (position + 1) rest := by
  rw [readFrom]
  · rintro _ rfl
    exact h rfl
  · rintro _ rfl
    exact h rfl

lemma readFrom_components : readFrom tokens (some '/') position ['*', '*'] =
    .ok (pushComponents tokens).reverse := by
  rw [readFrom, if_pos (.inr rfl)]
  exact readFrom.eq_1 _ _ _

/-- The glob of a tree is read character by character. -/
lemma readFrom_tree {p : List Char} (hclass : '[' ∉ p) (hstars : ¬ ['*', '*'] <:+: p) :
    readFrom tokens before position (p ++ ['/', '*', '*']) =
      .ok (tokens.reverse ++ p.map plainToken ++ inside) := by
  induction p generalizing tokens before position with
  | nil =>
    rw [List.nil_append, readFrom_char _ _ _ (by decide) (by decide) (by decide),
      readFrom_components]
    simp [pushComponents, inside]
  | cons c p ih =>
    obtain ⟨hc, hclass⟩ := not_or.mp (mt List.mem_cons.mpr hclass)
    have hrest := fun token before position =>
      ih (token :: tokens) before position hclass
        (mt (·.trans (List.suffix_cons c p).isInfix) hstars)
    have hresult (token : Token) (htoken : plainToken c = token) :
        tokens.reverse ++ (c :: p).map plainToken ++ inside =
          (token :: tokens).reverse ++ p.map plainToken ++ inside := by
      simp [htoken]
    rw [List.cons_append]
    by_cases hany : c = '?'
    · subst hany
      rw [hresult .anyChar rfl, ← hrest, readFrom]
    -- a star is read by itself, because no other star follows it
    by_cases hstar : c = '*'
    · subst hstar
      rw [hresult .anySequence rfl, ← hrest, readFrom_star]
      cases p with
      | nil => decide
      | cons b p =>
        intro hb
        obtain rfl := Option.some.inj hb
        exact hstars (List.prefix_append ['*', '*'] p).isInfix
    · have htoken : plainToken c = .char c := by rw [plainToken, if_neg hany, if_neg hstar]
      rw [hresult _ htoken, ← hrest, readFrom_char _ _ _ hany hstar (Ne.symm hc)]

end Reading

/-- The glob of a tree is read if its pattern has no class and no `**` of its own. -/
lemma parse_tree {p : String} (hclass : '[' ∉ p.toList) (hstars : ¬ ['*', '*'] <:+: p.toList) :
    parse (p ++ "/**") = .ok ⟨p ++ "/**", p.toList.map plainToken ++ inside⟩ := by
  rw [parse, String.toList_append]
  exact congrArg (Except.map _) (readFrom_tree [] none 0 hclass hstars)

lemma parse_everything : parse "**" = .ok ⟨"**", [.anyComponents]⟩ := by
  with_unfolding_all rfl

end Glob

end AddonBuild
