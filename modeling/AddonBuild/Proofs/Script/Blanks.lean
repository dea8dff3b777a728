import AddonBuild.Proofs.Script.Rereading
import AddonBuild.Proofs.Script.Shifts

/-!
# One more blank between lexemes

A blank can be put between any two lexemes of a script: the same specifiers are found, those behind
it later by its size. It is a lexeme of its own there, unless the lexeme before it lasts up to the
end of its line, as some comments do and strings that are not closed; such a lexeme takes it in. No
other character can be put everywhere, and that includes the white space that counts as part of a
word or as a mark.
-/

namespace AddonBuild

namespace Script

/-! ### One lexeme -/

/-- The last lexeme before a place and what it is when a character is put there. -/
inductive Extends (c : Char) : List Lexeme → List Lexeme → Prop where
  | blank : Extends c [] [.blank c]
  | comment (chars : List Char) : Extends c [.comment chars] [.comment (chars ++ [c])]
  | string (quote : Char) (content : List Char) :
    Extends c [.string quote content false] [.string quote (content ++ [c]) false]

lemma Extends.spelling_eq {c : Char} {ls ls' : List Lexeme} (h : Extends c ls ls') :
    spelling ls' = spelling ls ++ [c] := by
  cases h with
  | blank => rfl
  | comment chars => simp [Lexeme.chars]
  | string quote content => simp [Lexeme.chars]

lemma isWordChar_of_isBlank {c : Char} (h : isBlank c = true) : isWordChar c = false := by
  simp only [isBlank, Bool.or_eq_true, decide_eq_true_eq] at h
  obtain (((rfl | rfl) | rfl) | rfl) | rfl := h <;> decide

/-- A comment goes on with what is put before the end of its line. -/
lemma takeLine_insert {c : Char} {s : List Char} (hc : c ≠ '\n')
    (h : (takeLine s).2.head? = some '\n') :
    takeLine ((takeLine s).1 ++ c :: (takeLine s).2) = ((takeLine s).1 ++ [c], (takeLine s).2) := by
  have hall : ∀ d ∈ (takeLine s).1 ++ [c], decide (d ≠ '\n') = true := by
    intro d hd
    rcases List.mem_append.mp hd with hd | hd
    · exact List.all_eq_true.mp List.all_takeWhile d hd
    · rw [List.mem_singleton.mp hd]
      exact decide_eq_true hc
  have hstop : ∀ d ∈ (takeLine s).2.head?, decide (d ≠ '\n') = false := by
    rw [h]
    rintro d ⟨⟩
    rfl
  obtain ⟨htake, hdrop⟩ := takeWhile_append hall hstop
  rw [List.append_assoc] at htake hdrop
  exact Prod.ext htake hdrop

/-- The content of a string that is not closed goes on with what is put before the end of its
line. -/
lemma takeContent_insert {quote c : Char} {s : List Char} (hbackslash : c ≠ '\\')
    (hstop : ¬ (c = '\n' ∨ c = quote)) (h : (takeContent quote s).2.head? = some '\n') :
    takeContent quote ((takeContent quote s).1 ++ c :: (takeContent quote s).2) =
      ((takeContent quote s).1 ++ [c], (takeContent quote s).2) := by
  fun_induction takeContent quote s with
  | case1 => cases h
  | case2 d rest ih =>
    show takeContent quote
      ('\\' :: d :: ((takeContent quote rest).1 ++ c :: (takeContent quote rest).2)) = _
    rw [takeContent, ih h]
    rfl
  | case3 d rest hpair hline =>
    rw [List.nil_append, takeContent_cons fun _ _ hc _ => hbackslash hc, if_neg hstop,
      takeContent_cons hpair, if_pos hline]
    rfl
  | case4 d rest hpair hd ih =>
    show takeContent quote
      (d :: ((takeContent quote rest).1 ++ c :: (takeContent quote rest).2)) = _
    rw [takeContent_cons, if_neg hd, ih h]
    · rfl
    · rintro e t rfl -
      cases rest with
      | nil => cases h
      | cons e rest => exact hpair e rest rfl rfl

lemma takeString_insert {quote c : Char} {s content rest : List Char} (hq : isQuote quote = true)
    (hc : isBlank c = true) (h : takeString quote s = (.string quote content false, rest))
    (hrest : rest ≠ []) (hline : rest.head? ≠ some c) :
    takeString quote (content ++ c :: rest) = (.string quote (content ++ [c]) false, rest) := by
  obtain ⟨hcontent, hend⟩ := takeContent_eq_of_open h
  have hend := hend.resolve_left hrest
  have hbackslash : c ≠ '\\' := by
    rintro rfl
    exact absurd hc (by decide)
  have hstop : ¬ (c = '\n' ∨ c = quote) := by
    rintro (rfl | rfl)
    · exact hline hend
    · rw [(not_of_isBlank hc).2.1] at hq
      cases hq
  have hinsert := takeContent_insert hbackslash hstop (by rw [hcontent]; exact hend)
  rw [hcontent] at hinsert
  apply takeString_open hinsert
  rw [hend]
  exact fun heq => ne_newline_of_isQuote hq (Option.some.inj heq).symm

lemma Reads.of_word {c : Char} {s rest : List Char} (hc : isWordStart c = true)
    (hs : ∀ d ∈ s, isWordChar d = true) (hrest : ∀ d ∈ rest.head?, isWordChar d = false) :
    Reads (c :: (s ++ rest)) (.word (c :: s)) rest := by
  obtain ⟨htake, hdrop⟩ := takeWhile_append hs hrest
  have hword : takeWord (s ++ rest) = (s, rest) := Prod.ext htake hdrop
  have hread := Reads.word (s := s ++ rest) hc
  rwa [hword] at hread

/-- A blank behind a lexeme either leaves it as it is or becomes the last part of it. -/
lemma Reads.insert_blank {s rest : List Char} {l : Lexeme} (h : Reads s l rest) (hrest : rest ≠ [])
    {c : Char} (hc : isBlank c = true) :
    Reads (l.chars ++ c :: rest) l (c :: rest) ∨
      ∃ l', Extends c [l] [l'] ∧ Reads (l.chars ++ c :: rest) l' rest := by
  -- the lexeme goes on with the blank only if it is a line comment or a string that is cut off
  by_cases hline : rest.head? = some c
  · exact Or.inl (h.of_head? hline)
  cases h with
  | blank hb => exact Or.inl (.blank hb)
  | line t =>
    have hend := (takeLine_snd ('/' :: t)).resolve_left hrest
    have hnewline : c ≠ '\n' := by
      rintro rfl
      exact hline hend
    have hread := Reads.line ((takeLine t).1 ++ c :: (takeLine t).2)
    have hchars : '/' :: ((takeLine t).1 ++ c :: (takeLine t).2) =
        (takeLine ('/' :: t)).1 ++ c :: (takeLine ('/' :: t)).2 := rfl
    rw [hchars, takeLine_insert hnewline hend] at hread
    exact Or.inr ⟨_, .comment _, hread⟩
  | block t =>
    have hread := Reads.block ((takeBlock t).1 ++ c :: (takeBlock t).2)
    rw [takeBlock_of_ne_nil hrest] at hread
    exact Or.inl hread
  | @word d t hd =>
    refine Or.inl (.of_word hd (List.all_eq_true.mp List.all_takeWhile) ?_)
    rintro e ⟨⟩
    exact isWordChar_of_isBlank hc
  | @string quote t content _ closed hq h =>
    cases closed with
    | true =>
      have hread := Reads.string hq (takeString_of_closed hq h (c :: rest))
      simpa [Lexeme.chars] using Or.inl hread
    | false =>
      refine Or.inr ⟨_, .string quote content, ?_⟩
      simpa [Lexeme.chars] using Reads.string hq (takeString_insert hq hc h hrest hline)
  | template t =>
    have hread := Reads.template ((takeTemplate t).1 ++ c :: (takeTemplate t).2)
    rw [takeTemplate, takeTemplate, takeNested_of_ne_nil hrest] at hread
    exact Or.inl hread
  | mark hword hquote htemplate hblank hcomment =>
    refine Or.inl (.mark hword hquote htemplate hblank fun _ => ⟨?_, ?_⟩)
    · exact fun h => (not_of_isBlank hc).2.2.2.1 (Option.some.inj h)
    · rintro ⟨⟩
      exact absurd hc (by decide)

/-! ### All lexemes -/

/-- Lexemes are read back in front of others that start with the same character. -/
lemma Lexed.append_of_head? {ls ms ms' : List Lexeme} (h : Lexed (ls ++ ms)) (hms : Lexed ms')
    (hhead : (spelling ms).head? = (spelling ms').head?) : Lexed (ls ++ ms') := by
  induction ls with
  | nil => exact hms
  | cons l ls ih =>
    have hheads : (spelling (ls ++ ms)).head? = (spelling (ls ++ ms')).head? := by
      rw [spelling_append, spelling_append, List.head?_append, List.head?_append, hhead]
    exact lexed_cons_iff.mpr ⟨h.reads.of_head? hheads, ih h.tail⟩

lemma Lexed.chars_ne_nil {ls : List Lexeme} (h : Lexed ls) : ∀ l ∈ ls, l.chars ≠ [] := by
  induction ls with
  | nil => nofun
  | cons l ls ih =>
    intro m hm
    rcases List.mem_cons.mp hm with rfl | hm
    · exact Lexeme.chars_ne_nil h
    · exact ih h.tail m hm

/-- At most the last lexeme before a place changes when a blank is put there. -/
lemma Lexed.insert_blank {before after : List Lexeme} (h : Lexed (before ++ after))
    (hafter : after ≠ []) {c : Char} (hc : isBlank c = true) :
    ∃ lead last last', before = lead ++ last ∧ Extends c last last' ∧
      Lexed (lead ++ (last' ++ after)) := by
  have hblank : Lexed (.blank c :: after) := lexed_cons_iff.mpr ⟨.blank hc, h.of_append⟩
  rcases List.eq_nil_or_concat before with rfl | ⟨init, l, rfl⟩
  · exact ⟨[], [], [.blank c], rfl, .blank, hblank⟩
  · rw [List.concat_eq_append, List.append_assoc] at *
    have hl : Lexed (l :: after) := h.of_append
    have hrest : spelling after ≠ [] := by
      obtain ⟨m, rest, rfl⟩ := List.exists_cons_of_ne_nil hafter
      rw [spelling_cons]
      exact List.append_ne_nil_of_left_ne_nil (Lexeme.chars_ne_nil hl.tail) _
    obtain ⟨d, chars, hd⟩ := List.exists_cons_of_ne_nil (Lexeme.chars_ne_nil hl)
    rcases hl.reads.insert_blank hrest hc with hread | ⟨l', hextends, hread⟩
    · refine ⟨init ++ [l], [], [.blank c], (List.append_nil _).symm, .blank, ?_⟩
      rw [List.append_assoc]
      refine h.append_of_head? (lexed_cons_iff.mpr ⟨hread, hblank⟩) ?_
      simp [hd]
    · have heq : spelling (l' :: after) = l.chars ++ c :: spelling after := hread.eq_append.symm
      have hlexed : Lexed (l' :: after) := lexed_cons_iff.mpr ⟨by rwa [heq], hl.tail⟩
      have hhead : (spelling (l :: after)).head? = (spelling (l' :: after)).head? := by
        rw [heq, spelling_cons, hd]
        rfl
      exact ⟨init, [l], [l'], rfl, hextends, h.append_of_head? hlexed hhead⟩

/-! ### The tokens -/

/-- A place with room for something of the given size at a given place. -/
def makeRoom (place size : Nat) (i : Nat) : Nat :=
  if i < place then i else i + size

lemma strictMono_makeRoom (place size : Nat) : StrictMono (makeRoom place size) := by
  intro i j h
  unfold makeRoom
  split_ifs <;> omega

section Moved

variable {move : Nat → Nat} {script script' before before' : List Char}

lemma byteLength_pos {s : List Char} (h : s ≠ []) : 0 < byteLength s := by
  obtain ⟨c, t, rfl⟩ := List.exists_cons_of_ne_nil h
  exact Nat.add_pos_left c.utf8Size_pos _

lemma Token.afterDot_iff (h : before <+: script) (l : Lexeme) :
    Token.AfterDot (encode script) ⟨byteLength before, l⟩ ↔ before.getLast? = some '.' := by
  obtain ⟨behind, rfl⟩ := h
  exact dotBefore_iff before behind

/-- A string takes its specifier along. -/
lemma span?_moved {start start' : Nat} {l : Lexeme}
    (hmove : ∀ i < byteLength l.chars, move (start + i) = start' + i) (kind : Kind) :
    Token.span? kind ⟨start', l⟩ = (Token.span? kind ⟨start, l⟩).map (Span.move move) := by
  cases l with
  | string quote content closed =>
    cases closed with
    | false => rfl
    | true =>
      have hquote : 0 < quote.utf8Size := quote.utf8Size_pos
      have hlength : byteLength (Lexeme.string quote content true).chars =
          quote.utf8Size + (byteLength content + quote.utf8Size) := by
        rw [Lexeme.chars, if_pos rfl, byteLength, byteLength_append]
        rfl
      have hfirst := hmove quote.utf8Size (by omega)
      have hlast := hmove (quote.utf8Size + byteLength content) (by omega)
      rw [← Nat.add_assoc, ← Nat.add_assoc] at hlast
      simp only [Token.span?, Option.map_some, Span.move, hfirst, hlast]
  | _ => rfl

/-- A lexeme moves when all of its bytes do. -/
lemma moved_lexeme {l : Lexeme} (hl : l.chars ≠ []) (hbefore : before <+: script)
    (hbefore' : before' <+: script')
    (hmove : ∀ i < byteLength l.chars, move (byteLength before + i) = byteLength before' + i)
    (hdot : l.IsKeyword → (before'.getLast? = some '.' ↔ before.getLast? = some '.')) :
    Moved move (encode script) (encode script') ⟨byteLength before, l⟩
      ⟨byteLength before', l⟩ where
  start := (hmove 0 (byteLength_pos hl)).symm
  lexeme := Or.inl rfl
  span := span?_moved hmove
  afterDot hkeyword := by
    rw [Token.afterDot_iff hbefore, Token.afterDot_iff hbefore']
    exact hdot hkeyword

/-- Lexemes move when all of their bytes do. What comes before them matters only for the first. -/
lemma moved_lexemes {ls : List Lexeme} (hls : ∀ l ∈ ls, l.chars ≠ [])
    (hbefore : before ++ spelling ls <+: script) (hbefore' : before' ++ spelling ls <+: script')
    (hmove : ∀ i < byteLength (spelling ls), move (byteLength before + i) = byteLength before' + i)
    (hdot : ∀ l ∈ ls.head?, l.IsKeyword →
      (before'.getLast? = some '.' ↔ before.getLast? = some '.')) :
    List.Forall₂ (Moved move (encode script) (encode script'))
      (significantFrom (byteLength before) ls) (significantFrom (byteLength before') ls) := by
  induction ls generalizing before before' with
  | nil => exact .nil
  | cons l ls ih =>
    have hl : l.chars ≠ [] := hls l List.mem_cons_self
    rw [spelling_cons, byteLength_append] at hmove
    rw [spelling_cons, ← List.append_assoc] at hbefore hbefore'
    have hrest : List.Forall₂ (Moved move (encode script) (encode script'))
        (significantFrom (byteLength before + byteLength l.chars) ls)
        (significantFrom (byteLength before' + byteLength l.chars) ls) := by
      rw [← byteLength_append, ← byteLength_append]
      refine ih (fun m hm => hls m (List.mem_cons_of_mem l hm)) hbefore hbefore' ?_ ?_
      · intro i hi
        rw [byteLength_append, byteLength_append, Nat.add_assoc, Nat.add_assoc]
        exact hmove _ (Nat.add_lt_add_left hi _)
      · intro m _ _
        rw [List.getLast?_append_of_ne_nil _ hl, List.getLast?_append_of_ne_nil _ hl]
    rw [significantFrom_cons, significantFrom_cons]
    split_ifs
    · exact hrest
    · refine .cons (moved_lexeme hl ?_ ?_ ?_ (hdot l rfl)) hrest
      · exact ((List.prefix_append _ _).trans (List.prefix_append _ _)).trans hbefore
      · exact ((List.prefix_append _ _).trans (List.prefix_append _ _)).trans hbefore'
      · exact fun i hi => hmove i (Nat.lt_add_right _ hi)

/-- A lexeme that takes a character in stays where it is. -/
lemma Extends.moved {c : Char} {last last' : List Lexeme} (h : Extends c last last') {start : Nat}
    (hmove : 0 < byteLength (spelling last) → move start = start) (script script' : Bytes) :
    List.Forall₂ (Moved move script script') (significantFrom start last)
      (significantFrom start last') := by
  cases h with
  | blank => exact .nil
  | comment chars => exact .nil
  | string quote content =>
    refine .cons ⟨?_, Or.inr ⟨rfl, rfl⟩, fun _ => rfl, ?_⟩ .nil
    · exact (hmove (Nat.add_pos_left quote.utf8Size_pos _)).symm
    · rintro (h | h) <;> cases h

end Moved

lemma significantFrom_append (start : Nat) (ls ms : List Lexeme) :
    significantFrom start (ls ++ ms) =
      significantFrom start ls ++ significantFrom (start + byteLength (spelling ls)) ms := by
  induction ls generalizing start with
  | nil => rfl
  | cons l ls ih =>
    rw [List.cons_append, significantFrom_cons, significantFrom_cons, ih, spelling_cons,
      byteLength_append, Nat.add_assoc]
    split_ifs
    · rfl
    · rfl

/-! ### The whole script -/

/-- Whether a place is between a dot and the name of a member that is a keyword. -/
def SplitsMember (before after : List Lexeme) : Prop :=
  before.getLast? = some (.mark '.') ∧ ∃ l ∈ after.head?, l.IsKeyword

/-- Outside members, a dot before a keyword belongs to a longer lexeme. -/
lemma getLast?_ne_dot {before after : List Lexeme} (h : Lexed (before ++ after))
    (hmember : ¬ SplitsMember before after) :
    ∀ l ∈ after.head?, l.IsKeyword → (spelling before).getLast? ≠ some '.' := by
  intro l hl hkeyword hdot
  obtain ⟨rest, rfl⟩ := List.head?_eq_some_iff.mp (Option.mem_def.mp hl)
  obtain ⟨chars, rfl⟩ : ∃ chars, l = .word chars := by
    rcases hkeyword with rfl | rfl <;> exact ⟨_, rfl⟩
  rcases List.eq_nil_or_concat before with rfl | ⟨init, m, rfl⟩
  · cases hdot
  · rw [List.concat_eq_append, List.append_assoc] at *
    have hm : Lexed (m :: .word chars :: rest) := h.of_append
    have hmark : m = .mark '.' := by
      rw [hm.afterDot_iff (spelling init) rfl]
      simpa using hdot
    exact hmember ⟨by rw [hmark, List.getLast?_concat], _, hl, hkeyword⟩

/-- What comes before a new character stays, and what comes behind it moves by its size. -/
lemma Extends.moved_around {c : Char} {lead last last' after : List Lexeme}
    (h : Extends c last last') (hls : ∀ l ∈ lead ++ last ++ after, l.chars ≠ [])
    (hdot : ∀ l ∈ after.head?, l.IsKeyword →
      ((spelling (lead ++ last')).getLast? = some '.' ↔
        (spelling (lead ++ last)).getLast? = some '.')) :
    List.Forall₂ (Moved (makeRoom (byteLength (spelling (lead ++ last))) c.utf8Size)
        (encode (spelling (lead ++ last ++ after))) (encode (spelling (lead ++ last' ++ after))))
      (significantFrom 0 (lead ++ last ++ after)) (significantFrom 0 (lead ++ last' ++ after)) := by
  have hstay : ∀ i < byteLength (spelling (lead ++ last)),
      makeRoom (byteLength (spelling (lead ++ last))) c.utf8Size i = i := fun i hi => if_pos hi
  have hplace : byteLength (spelling (lead ++ last)) =
      byteLength (spelling lead) + byteLength (spelling last) := by
    rw [spelling_append, byteLength_append]
  have hsize : byteLength (spelling (lead ++ last')) =
      byteLength (spelling (lead ++ last)) + c.utf8Size := by
    rw [spelling_append, h.spelling_eq, ← List.append_assoc, ← spelling_append, byteLength_append]
    rfl
  simp only [significantFrom_append, Nat.zero_add]
  have hnothing : byteLength [] = 0 := rfl
  rw [← hnothing]
  -- what comes before stays where it is, and what comes behind moves by the size of the blank
  refine List.rel_append (List.rel_append ?_ (h.moved ?_ _ _)) ?_
  · refine moved_lexemes ?_ ?_ ?_ ?_ fun _ _ _ => Iff.rfl
    · exact fun l hl => hls l (List.mem_append_left _ (List.mem_append_left _ hl))
    · simp
    · simp
    · intro i hi
      rw [byteLength, Nat.zero_add]
      exact hstay i (by omega)
  · exact fun hpos => hstay _ (by omega)
  · refine moved_lexemes ?_ ?_ ?_ ?_ hdot
    · exact fun l hl => hls l (List.mem_append_right _ hl)
    · rw [spelling_append _ after]
    · rw [spelling_append _ after]
    · intro i _
      rw [hsize, makeRoom, if_neg (by omega), Nat.add_right_comm]

/-- A blank between lexemes moves what is behind it and changes nothing else. -/
lemma scan_insert_blank {c : Char} (hc : isBlank c = true) {before after : List Lexeme}
    (h : Lexed (before ++ after)) (hafter : after ≠ []) (hmember : ¬ SplitsMember before after) :
    scan (String.ofList (spelling before ++ c :: spelling after)) =
      (scan (String.ofList (spelling (before ++ after)))).map
        (Span.move (makeRoom (byteLength (spelling before)) c.utf8Size)) := by
  have hold := getLast?_ne_dot h hmember
  obtain ⟨lead, last, last', rfl, hextends, hlexed⟩ := h.insert_blank hafter hc
  rw [← List.append_assoc] at hlexed
  have hchars : spelling (lead ++ last') = spelling (lead ++ last) ++ [c] := by
    rw [spelling_append, hextends.spelling_eq, ← List.append_assoc, ← spelling_append]
  have hspelling : spelling (lead ++ last' ++ after) =
      spelling (lead ++ last) ++ c :: spelling after := by
    rw [spelling_append, hchars, List.append_assoc]
    rfl
  have hnew : (spelling (lead ++ last')).getLast? ≠ some '.' := by
    rw [hchars, List.getLast?_concat]
    exact fun hdot => (not_of_isBlank hc).2.2.2.2 (Option.some.inj hdot)
  rw [← hspelling, scan_spelling h, scan_spelling hlexed]
  refine statementsFrom_moved (strictMono_makeRoom _ _) (hextends.moved_around h.chars_ne_nil ?_) ?_
  · exact fun l hl hkeyword => iff_of_false hnew (hold l hl hkeyword)
  · exact fun i => iff_of_false (Nat.not_lt_zero _) (Nat.not_lt_zero i)

/-! ### Other characters -/

lemma statementsFrom_of_not_isKeyword {ts : List Token} (h : ∀ t ∈ ts, ¬ t.lexeme.IsKeyword)
    (script : Bytes) (stop : Nat) : statementsFrom script stop ts = [] := by
  induction ts with
  | nil => rfl
  | cons t ts ih =>
    have ih := ih fun u hu => h u (List.mem_cons_of_mem t hu)
    rw [statementsFrom, statement?_of_not_isKeyword (h t List.mem_cons_self), ih, ite_self]

section Other

variable {c : Char}

lemma lexed_literal : Lexed [.string '"' ['a'] true] := by
  cbv

/-- Behind `import`, a character of a word makes it another word. -/
lemma scan_import_word (hc : isWordChar c = true) :
    scan (String.ofList (importWord ++ c :: ['"', 'a', '"'])) = [] := by
  have hread : Reads (importWord ++ c :: ['"', 'a', '"']) (.word (importWord ++ [c]))
      ['"', 'a', '"'] := by
    refine .of_word (s := ['m', 'p', 'o', 'r', 't', c]) (by decide) ?_ ?_
    · have hletters : ∀ d ∈ ['m', 'p', 'o', 'r', 't'], isWordChar d = true :=
        List.all_eq_true.mp rfl
      exact List.forall_mem_append.mpr ⟨hletters, List.forall_mem_singleton.mpr hc⟩
    · rintro d ⟨⟩
      decide
  have hlexed : Lexed [.word (importWord ++ [c]), .string '"' ['a'] true] :=
    lexed_cons_iff.mpr ⟨hread, lexed_literal⟩
  refine (scan_spelling hlexed).trans (statementsFrom_of_not_isKeyword ?_ _ _)
  refine List.forall_mem_cons.mpr ⟨?_, List.forall_mem_singleton.mpr ?_⟩
  · rintro (h | h) <;> cases h
  · rintro (h | h) <;> cases h

/-- Behind `import`, a mark leaves no string to import. -/
lemma scan_import_mark (hword : isWordChar c = false) (hquote : isQuote c = false)
    (htemplate : c ≠ '\x60') (hblank : isBlank c = false) :
    scan (String.ofList (importWord ++ c :: ['"', 'a', '"'])) = [] := by
  have hstart : isWordStart c = false := (Bool.or_eq_false_iff.mp hword).1
  have hmark : Reads (c :: ['"', 'a', '"']) (.mark c) ['"', 'a', '"'] :=
    .mark hstart hquote htemplate hblank fun _ => by simp
  have hread : Reads (importWord ++ c :: ['"', 'a', '"']) (.word importWord)
      (c :: ['"', 'a', '"']) := by
    refine .of_word (by decide) (List.all_eq_true.mp rfl) ?_
    rintro d ⟨⟩
    exact hword
  have hlexed : Lexed [.word importWord, .mark c, .string '"' ['a'] true] :=
    lexed_cons_iff.mpr ⟨hread, lexed_cons_iff.mpr ⟨hmark, lexed_literal⟩⟩
  refine (scan_spelling hlexed).trans ?_
  have hnone (script : Bytes) (start : Nat) : Token.statement? script ⟨0, .word importWord⟩
      (significantFrom start [.mark c, .string '"' ['a'] true]) = none := by
    rw [Token.statement?, if_neg (by simp), if_pos rfl]
    show importSpan? [⟨_, .mark c⟩, ⟨_, .string '"' ['a'] true⟩] = none
    simp [importSpan?, callSpan?, clauseSpan?, Lexeme.isString, Lexeme.isWord]
  rw [significantFrom_cons, if_neg (by decide), statementsFrom, if_neg (Nat.lt_irrefl 0), hnone]
  refine statementsFrom_of_not_isKeyword ?_ _ _
  refine List.forall_mem_cons.mpr ⟨?_, List.forall_mem_singleton.mpr ?_⟩
  · rintro (h | h) <;> cases h
  · rintro (h | h) <;> cases h

/-- Between `import` and a string there can only be a blank. -/
lemma isBlank_of_scan
    (h : scan (String.ofList (importWord ++ c :: ['"', 'a', '"'])) =
      [⟨7 + c.utf8Size, 8 + c.utf8Size, ⟨.sideEffect, '"', "a"⟩⟩]) : isBlank c = true := by
  by_contra hblank
  by_cases hword : isWordChar c = true
  · rw [scan_import_word hword] at h
    cases h
  · by_cases hother : isQuote c = true ∨ c = '\x60'
    · simp only [isQuote, Bool.or_eq_true, decide_eq_true_eq] at hother
      rw [scan_eq_spansFrom] at h
      obtain (rfl | rfl) | rfl := hother
      · have hscan : spansFrom 0 (pieces "import\"\"a\"") = [⟨7, 7, ⟨.sideEffect, '"', ""⟩⟩] := by
          cbv
        cases hscan.symm.trans h
      · have hscan : spansFrom 0 (pieces "import'\"a\"") = [] := by
          cbv
        cases hscan.symm.trans h
      · have hscan : spansFrom 0 (pieces "import\x60\"a\"") = [] := by
          cbv
        cases hscan.symm.trans h
    · obtain ⟨hquote, htemplate⟩ := not_or.mp hother
      rw [scan_import_mark (by simpa using hword) (by simpa using hquote) htemplate
        (by simpa using hblank)] at h
      cases h

end Other

/-- A character can be put between any two lexemes, apart from a dot and the member it asks for, if
and only if it is a blank: the same specifiers are found then, at places with room for it. -/
theorem scan_insert_iff (c : Char) :
    (∀ source before after, lexemes source = before ++ after → after ≠ [] →
      ¬ SplitsMember before after →
      scan (String.ofList (spelling before ++ c :: spelling after)) =
        (scan source).map (Span.move (makeRoom (byteLength (spelling before)) c.utf8Size))) ↔
      isBlank c = true := by
  constructor
  · intro h
    apply isBlank_of_scan
    have hscan : scan "import\"a\"" = [⟨7, 8, ⟨.sideEffect, '"', "a"⟩⟩] := by
      rw [scan_eq_spansFrom]
      cbv
    have hlexemes : lexemes "import\"a\"" = [.word importWord, .string '"' ['a'] true] := by
      cbv
    have h := h _ [_] [_] hlexemes (List.cons_ne_nil _ _) (by rintro ⟨⟨⟩, -⟩)
    rw [hscan] at h
    exact h
  · intro hc source before after hsource hafter hmember
    have hlexed := lexed_lexemesOf source.toList
    rw [← lexemes, hsource] at hlexed
    have hspelling : spelling (before ++ after) = source.toList := by
      rw [← hsource, lexemes, spelling_lexemesOf]
    rw [scan_insert_blank hc hlexed hafter hmember, hspelling, String.ofList_toList]

/-- White space of scripts in general, and the part of it that is made of blanks. -/
example :
    ['\t', '\n', '\x0b', '\x0c', '\r', ' ', '\u00a0', '\u2028', '\u2029', '\ufeff'].filter isBlank =
      ['\t', '\n', '\x0c', '\r', ' '] := by
  decide

end Script

end AddonBuild
