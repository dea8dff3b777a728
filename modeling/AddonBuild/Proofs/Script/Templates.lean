import AddonBuild.Proofs.Script.Rereading
import AddonBuild.Script.Ends

/-!
# Templates are skipped whole

A template is its text between two marks, with expressions in it, which hold strings, groups in
braces and other templates in turn. Whatever stands around such a template, it is left behind its
closing mark. Of any other text as much is left as the scan leaves of it.
-/

namespace AddonBuild

namespace Script

open List (drop_eq_getElem_cons)

/-! ### Ends and rests -/

@[simp] lemma Onward.val_since {s : Bytes} {i j : Nat} (p : Onward s j) (h : min i s.length ≤ j) :
    (p.since i h).val = p.val := rfl

/-- What is skipped of a string ends at its end. -/
lemma skipString_drop (quote : UInt8) (s : Bytes) (i : Nat) :
    skipString quote (s.drop i) = s.drop (stringEnd quote s i).val := by
  fun_induction stringEnd quote s i with
  | case1 i h hb ih =>
    rw [drop_eq_getElem_cons h, hb, skipString_backslash, List.tail_drop, ih, Onward.val_since]
  | case2 i h hb hn => rw [drop_eq_getElem_cons h, hn, skipString_newline]
  | case3 i h hb hn hq => rw [drop_eq_getElem_cons h, skipString_cons hb hn, if_pos hq]
  | case4 i h hb hn hq ih =>
    rw [drop_eq_getElem_cons h, skipString_cons hb hn, if_neg hq, ih, Onward.val_since]
  | case5 i h => rw [List.drop_of_length_le (Nat.le_of_not_lt h), List.drop_length]; rfl

/-- Go on behind a template with the expression around it, or leave what follows if there is
none. -/
def resume : List Nat → Bytes → Bytes
  | [], s => s
  | depth :: outer, s => skipTemplate outer depth s

lemma skipTemplate_nil (outer : List Nat) (depth : Nat) : skipTemplate outer depth [] = [] := by
  rw [skipTemplate.eq_def]

lemma resume_nil (outer : List Nat) : resume outer [] = [] := by
  cases outer with
  | nil => rfl
  | cons depth outer => exact skipTemplate_nil outer depth

lemma skipTemplate_text_cons (outer : List Nat) (b : UInt8) (s : Bytes) :
    skipTemplate outer 0 (b :: s) =
      if b = '\\'.toUInt8 then skipTemplate outer 0 s.tail
      else if b = '\x60'.toUInt8 then resume outer s
      else if b = '$'.toUInt8 ∧ s.head? = some '\x7b'.toUInt8 then skipTemplate outer 1 s.tail
      else skipTemplate outer 0 s := by
  rw [skipTemplate.eq_def]
  cases outer <;> rfl

lemma skipTemplate_expression_cons (outer : List Nat) {depth : Nat} (hd : 0 < depth) (b : UInt8)
    (s : Bytes) :
    skipTemplate outer depth (b :: s) =
      if b = '\x7b'.toUInt8 then skipTemplate outer (depth + 1) s
      else if b = '\x7d'.toUInt8 then skipTemplate outer (depth - 1) s
      else if isQuoteByte b then skipTemplate outer depth (skipString b s)
      else if b = '\x60'.toUInt8 then skipTemplate (depth :: outer) 0 s
      else skipTemplate outer depth s := by
  rw [skipTemplate.eq_def]
  exact if_neg (Nat.ne_of_gt hd)

mutual

/-- The text of a template is left where it ends. -/
lemma skipTemplate_text (s : Bytes) (i : Nat) (outer : List Nat) :
    skipTemplate outer 0 (s.drop i) = resume outer (s.drop (textEnd Nat s i).val) := by
  unfold textEnd
  split_ifs with h hb hm ho
  · rw [drop_eq_getElem_cons h, skipTemplate_text_cons, if_pos hb, List.tail_drop,
      skipTemplate_text s (i + 2) outer]
    rfl
  · rw [drop_eq_getElem_cons h, skipTemplate_text_cons, if_neg hb, if_pos hm]
  · have hnext := (List.getElem?_eq_some_iff.mp ho.2).1
    rw [drop_eq_getElem_cons h, skipTemplate_text_cons, if_neg hb, if_neg hm,
      if_pos (by rwa [List.head?_drop]), List.tail_drop,
      skipTemplate_expression s 1 (i + 2) hnext outer]
    obtain ⟨j, hj⟩ := expressionEnd Nat s 1 (i + 2) hnext
    exact skipTemplate_text s j outer
  · rw [drop_eq_getElem_cons h, skipTemplate_text_cons, if_neg hb, if_neg hm,
      if_neg (by rwa [List.head?_drop]), skipTemplate_text s (i + 1) outer]
    rfl
  · rw [List.drop_of_length_le (Nat.le_of_not_lt h), List.drop_length, skipTemplate_nil, resume_nil]
termination_by s.length - i

/-- An expression is left where it ends. -/
lemma skipTemplate_expression (s : Bytes) (depth i : Nat) (hi : i ≤ s.length) (outer : List Nat) :
    skipTemplate outer depth (s.drop i) =
      skipTemplate outer 0 (s.drop (expressionEnd Nat s depth i hi).val) := by
  unfold expressionEnd
  split_ifs with h ho hc hq hm
  · rw [drop_eq_getElem_cons h.1, skipTemplate_expression_cons outer (Nat.pos_of_ne_zero h.2),
      if_pos ho, skipTemplate_expression s (depth + 1) (i + 1) h.1 outer]
    rfl
  · rw [drop_eq_getElem_cons h.1, skipTemplate_expression_cons outer (Nat.pos_of_ne_zero h.2),
      if_neg ho, if_pos hc, skipTemplate_expression s (depth - 1) (i + 1) h.1 outer]
    rfl
  · rw [drop_eq_getElem_cons h.1, skipTemplate_expression_cons outer (Nat.pos_of_ne_zero h.2),
      if_neg ho, if_neg hc, if_pos hq, skipString_drop]
    obtain ⟨j, hj⟩ := stringEnd s[i] s (i + 1)
    exact skipTemplate_expression s depth j hj.2 outer
  · rw [drop_eq_getElem_cons h.1, skipTemplate_expression_cons outer (Nat.pos_of_ne_zero h.2),
      if_neg ho, if_neg hc, if_neg hq, if_pos hm,
      skipTemplate_text s (i + 1) (depth :: outer)]
    obtain ⟨j, hj⟩ := textEnd Nat s (i + 1)
    exact skipTemplate_expression s depth j hj.2 outer
  · rw [drop_eq_getElem_cons h.1, skipTemplate_expression_cons outer (Nat.pos_of_ne_zero h.2),
      if_neg ho, if_neg hc, if_neg hq, if_neg hm,
      skipTemplate_expression s depth (i + 1) h.1 outer]
    rfl
  · -- either no brace is open any more or nothing is left
    by_cases hd : depth = 0
    · rw [hd]
    · have hnil : s.drop i = [] := List.drop_of_length_le (Nat.le_of_not_lt fun hlt => h ⟨hlt, hd⟩)
      rw [hnil, skipTemplate_nil, skipTemplate_nil]
termination_by s.length - i

end

/-! ### Counting in 32 bits -/

mutual

/-- A template ends where it does when braces are counted in 32 bits, since no more of them are open
than have been read. -/
lemma textEnd_uint32 {s : Bytes} (hs : s.length < UInt32.size) (i : Nat) :
    textEnd UInt32 s i = textEnd Nat s i := by
  unfold textEnd
  split_ifs with h hb hm ho
  · rw [textEnd_uint32 hs (i + 2)]
  · rfl
  · have hnext := (List.getElem?_eq_some_iff.mp ho.2).1
    have hexpression := expressionEnd_uint32 hs 1 (i + 2) hnext (by omega)
    rw [show UInt32.ofNat 1 = 1 from rfl] at hexpression
    rw [hexpression]
    obtain ⟨j, hj⟩ := expressionEnd Nat s 1 (i + 2) hnext
    dsimp only
    rw [textEnd_uint32 hs j]
  · rw [textEnd_uint32 hs (i + 1)]
  · rfl
termination_by s.length - i

lemma expressionEnd_uint32 {s : Bytes} (hs : s.length < UInt32.size) (depth i : Nat)
    (hi : i ≤ s.length) (hdepth : depth ≤ i) :
    expressionEnd UInt32 s (.ofNat depth) i hi = expressionEnd Nat s depth i hi := by
  have hsize : depth < UInt32.size := Nat.lt_of_le_of_lt (Nat.le_trans hdepth hi) hs
  have hzero : UInt32.ofNat depth ≠ 0 ↔ depth ≠ 0 := by
    rw [Ne, ← UInt32.toNat_inj, UInt32.toNat_ofNat_of_lt' hsize]
    rfl
  have hopened : UInt32.ofNat depth + 1 = .ofNat (depth + 1) := by
    simp
  have hclosed (h : depth ≠ 0) : UInt32.ofNat depth - 1 = .ofNat (depth - 1) := by
    obtain ⟨n, rfl⟩ := Nat.exists_eq_succ_of_ne_zero h
    simp
  unfold expressionEnd
  simp only [hzero]
  split_ifs with h ho hc hq hm
  · rw [hopened, expressionEnd_uint32 hs (depth + 1) (i + 1) h.1 (by omega)]
  · rw [hclosed h.2, expressionEnd_uint32 hs (depth - 1) (i + 1) h.1 (by omega)]
  · obtain ⟨j, hj⟩ := stringEnd s[i] s (i + 1)
    dsimp only
    rw [expressionEnd_uint32 hs depth j hj.2 (by omega)]
  · rw [textEnd_uint32 hs (i + 1)]
    obtain ⟨j, hj⟩ := textEnd Nat s (i + 1)
    dsimp only
    rw [expressionEnd_uint32 hs depth j hj.2 (by omega)]
  · rw [expressionEnd_uint32 hs depth (i + 1) h.1 (by omega)]
  · rfl
termination_by s.length - i

end

/-! ### The grammar of templates -/

/-- What stands between the quotes of a closed string on one line. -/
inductive IsContent (quote : Char) : List Char → Prop where
  | nil : IsContent quote []
  | plain {c : Char} {s : List Char} (hbackslash : c ≠ '\\') (hline : c ≠ '\n') (hquote : c ≠ quote)
      (h : IsContent quote s) : IsContent quote (c :: s)
  | escape {c : Char} {s : List Char} (h : IsContent quote s) : IsContent quote ('\\' :: c :: s)

/-- What a template is made of. -/
inductive TemplatePart where
  | text
  | expression

/-- The texts and the expressions of templates. A dollar sign in front of a brace is no plain
character of a text, since an expression starts there. -/
inductive Derives : TemplatePart → List Char → Prop where
  | nothing (part : TemplatePart) : Derives part []
  | plain {c : Char} {s : List Char} (hbackslash : c ≠ '\\') (hmark : c ≠ '\x60')
      (hopen : c = '$' → s.head? ≠ some '\x7b') (h : Derives .text s) : Derives .text (c :: s)
  | escape {c : Char} {s : List Char} (h : Derives .text s) : Derives .text ('\\' :: c :: s)
  | hole {e s : List Char} (he : Derives .expression e) (h : Derives .text s) :
      Derives .text ('$' :: '\x7b' :: (e ++ '\x7d' :: s))
  | other {c : Char} {e : List Char} (hopen : c ≠ '\x7b') (hclose : c ≠ '\x7d') (hmark : c ≠ '\x60')
      (hquote : isQuote c = false) (h : Derives .expression e) : Derives .expression (c :: e)
  | group {g e : List Char} (hg : Derives .expression g) (h : Derives .expression e) :
      Derives .expression ('\x7b' :: (g ++ '\x7d' :: e))
  | string {quote : Char} {content e : List Char} (hquote : isQuote quote = true)
      (hcontent : IsContent quote content) (h : Derives .expression e) :
      Derives .expression (quote :: (content ++ quote :: e))
  | template {s e : List Char} (hs : Derives .text s) (h : Derives .expression e) :
      Derives .expression ('\x60' :: (s ++ '\x60' :: e))

/-- A template is a text between two marks. -/
def IsTemplate (t : List Char) : Prop :=
  ∃ s, Derives .text s ∧ t = '\x60' :: (s ++ ['\x60'])

/-- What a part of a template is nested in. -/
def TemplatePart.nesting : TemplatePart → Nesting
  | .text => .template
  | .expression => .braces

/-- What closes a part of a template. -/
def TemplatePart.closing : TemplatePart → Char
  | .text => '\x60'
  | .expression => '\x7d'

lemma IsContent.takeString_snd {quote : Char} {content : List Char} (h : IsContent quote content)
    (hquote : isQuote quote = true) (rest : List Char) :
    (takeString quote (content ++ quote :: rest)).2 = rest := by
  have hcontent : (takeContent quote (content ++ quote :: rest)).2 = quote :: rest := by
    induction h with
    | nil =>
      rw [List.nil_append, takeContent_cons, if_pos (.inr rfl)]
      intro d t hc
      exact absurd hc (ne_backslash_of_isQuote hquote)
    | plain hbackslash hline hne _ ih =>
      rw [List.cons_append, takeContent_cons (fun d t hc => absurd hc hbackslash),
        if_neg (not_or.mpr ⟨hline, hne⟩)]
      exact ih
    | escape _ ih => exact ih
  rw [Script.takeString_snd, hcontent]
  exact if_pos rfl

lemma takeNested_braces_quote {outer : List Nesting} {quote : Char} (hquote : isQuote quote = true)
    (s : List Char) :
    (takeNested (.braces :: outer) (quote :: s)).2 =
      (takeNested (.braces :: outer) (takeString quote s).2).2 := by
  rw [takeNested, ← takeNested_string, if_pos hquote]
  split_ifs with hopen hclose hmark
  · rw [hopen] at hquote
    cases hquote
  · rw [hclose] at hquote
    cases hquote
  · rw [hmark] at hquote
    cases hquote
  · rfl

/-- A part of a template is left behind what closes it. -/
lemma Derives.takeNested_append {part : TemplatePart} {s : List Char} (h : Derives part s)
    (outer : List Nesting) (w : List Char) :
    (takeNested (part.nesting :: outer) (s ++ part.closing :: w)).2 = (takeNested outer w).2 := by
  -- on the derivation; what is read opens and closes nestings on top of `outer` alone
  induction h generalizing outer w with
  | nothing part =>
    cases part with
    | text => exact takeNested_template_cons (fun _ _ hc => by cases hc) (fun _ hc => by cases hc)
    | expression => rfl
  | @plain c s hbackslash hmark hopen _ ih =>
    have hhole : ∀ t, c = '$' → s ++ '\x60' :: w = '\x7b' :: t → False := by
      intro t hc ht
      cases s with
      | nil => cases ht
      | cons d s => exact hopen hc (congrArg List.head? ht)
    rw [← ih outer w]
    refine (takeNested_template_cons (fun _ _ hc _ => absurd hc hbackslash) hhole).trans ?_
    rw [if_neg hmark]
    rfl
  | escape _ ih => exact ih outer w
  | @hole e s _ _ ihe ih =>
    have hexpression := ihe (.template :: outer) (s ++ '\x60' :: w)
    rw [List.cons_append, List.cons_append, List.append_assoc, List.cons_append]
    exact hexpression.trans (ih outer w)
  | other hopen hclose hmark hquote _ ih =>
    exact (takeNested_braces_plain _ hopen hclose hmark hquote).trans (ih outer w)
  | @group g e _ _ ihg ih =>
    have hgroup := ihg (.braces :: outer) (e ++ '\x7d' :: w)
    rw [List.cons_append, List.append_assoc, List.cons_append]
    exact hgroup.trans (ih outer w)
  | @string quote content e hquote hcontent _ ih =>
    rw [List.cons_append, List.append_assoc, List.cons_append]
    refine (takeNested_braces_quote hquote _).trans ?_
    rw [hcontent.takeString_snd hquote]
    exact ih outer w
  | @template s e _ _ ihs ih =>
    have htemplate := ihs (.braces :: outer) (e ++ '\x7d' :: w)
    rw [List.cons_append, List.append_assoc, List.cons_append]
    exact htemplate.trans (ih outer w)

/-! ### Whole templates -/

/-- From behind its opening mark, the scan skips as much as belongs to a template. -/
lemma IsTemplate.skipTemplate_tail {t : List Char} (h : IsTemplate t) (w : List Char) :
    skipTemplate [] 0 (encode (t ++ w)).tail = encode w := by
  obtain ⟨s, hs, rfl⟩ := h
  have hnone : (takeNested [] w).2 = w := by rw [takeNested]
  have htext : (takeNested (nesting 0 []) (s ++ '\x60' :: w)).2 = w :=
    (hs.takeNested_append [] w).trans hnone
  rw [List.cons_append, encode_cons_of_lt (by decide), List.tail_cons, List.append_assoc,
    List.singleton_append, skipTemplate_encode]
  exact congrArg encode htext

/-- What is left behind the end of a template is what the scan goes on with. -/
lemma skipTemplate_drop (s : Bytes) (start : Nat) :
    skipTemplate [] 0 (s.drop (start + 1)) = s.drop (templateEnd s start) :=
  skipTemplate_text s (start + 1) []

lemma templateEnd_bounds {s : Bytes} {start : Nat} (h : start < s.length) :
    start < templateEnd s start ∧ templateEnd s start ≤ s.length := by
  have hend : min (start + 1) s.length ≤ templateEnd s start ∧ templateEnd s start ≤ s.length :=
    (textEnd Nat s (start + 1)).property
  omega

/-- A template ends behind its closing mark, whatever stands around it. -/
lemma IsTemplate.templateEnd_append {t : List Char} (h : IsTemplate t) (a : Bytes) (w : List Char) :
    templateEnd (a ++ encode (t ++ w)) a.length = a.length + (encode t).length := by
  have hrest := congrArg List.length (skipTemplate_drop (a ++ encode (t ++ w)) a.length)
  rw [← List.tail_drop, List.drop_left, h.skipTemplate_tail, List.length_drop] at hrest
  have hlength : (a ++ encode (t ++ w)).length =
      a.length + (encode t).length + (encode w).length := by
    rw [List.length_append, encode_append, List.length_append, Nat.add_assoc]
  have hpos : 0 < (encode t).length := by
    obtain ⟨s, -, rfl⟩ := h
    rw [encode_cons_of_lt (by decide)]
    exact Nat.succ_pos _
  have hstart : a.length < (a ++ encode (t ++ w)).length := by omega
  have hwithin := (templateEnd_bounds hstart).2
  omega

/-- A template is skipped whole, whatever stands around it. What starts with the mark of a template
ends further on in the script, and there the scan goes on. Counting braces in 32 bits makes no
difference to a script of less than 4 GiB. -/
theorem templateEnd_laws :
    (∀ a t w : String, IsTemplate t.toList →
      templateEnd (bytes (a ++ t ++ w)) a.utf8ByteSize = a.utf8ByteSize + t.utf8ByteSize) ∧
    (∀ (s : Bytes) (start : Nat), s[start]? = some '\x60'.toUInt8 →
      start < templateEnd s start ∧ templateEnd s start ≤ s.length ∧
        skipTemplate [] 0 (s.drop (start + 1)) = s.drop (templateEnd s start)) ∧
    ∀ (s : Bytes) (start : Nat), s.length < UInt32.size →
      (textEnd UInt32 s (start + 1)).val = templateEnd s start := by
  refine ⟨?_, ?_, fun s start hs => congrArg Subtype.val (textEnd_uint32 hs (start + 1))⟩
  · intro a t w ht
    have hbytes : bytes (a ++ t ++ w) = bytes a ++ encode (t.toList ++ w.toList) := by
      simp [bytes_eq_encode]
    rw [hbytes, ← length_bytes a, ← length_bytes t, bytes_eq_encode t]
    exact ht.templateEnd_append (bytes a) w.toList
  · intro s start hmark
    have hlt : start < s.length := (List.getElem?_eq_some_iff.mp hmark).1
    obtain ⟨hbehind, hwithin⟩ := templateEnd_bounds hlt
    exact ⟨hbehind, hwithin, skipTemplate_drop s start⟩

/-- A template that holds a group, a string with a quote and a brace in it, and another template. -/
theorem templateEnd_laws_nested :
    IsTemplate "`é$\x7b\x7ba\x7d+'\\'\x7d'+`$\x7b\x7d`\x7d\\`$`".toList ∧
      templateEnd (bytes ("x=" ++ "`é$\x7b\x7ba\x7d+'\\'\x7d'+`$\x7b\x7d`\x7d\\`$`" ++ "+`"))
        2 = 27 ∧
      (bytes "`$\x7b'\n")[0]? = some '\x60'.toUInt8 ∧ 0 < templateEnd (bytes "`$\x7b'\n") 0 ∧
      templateEnd (bytes "`$\x7b'\n") 0 ≤ 5 ∧
      (textEnd UInt32 (bytes "`$\x7b'\n") 1).val = templateEnd (bytes "`$\x7b'\n") 0 := by
  have hgroup : Derives .expression ['a'] :=
    .other (by decide) (by decide) (by decide) (by decide) (.nothing _)
  have hcontent : IsContent '\'' ['\\', '\'', '\x7d'] :=
    .escape (.plain (by decide) (by decide) (by decide) .nil)
  have hinner : Derives .text ['$', '\x7b', '\x7d'] := .hole (.nothing _) (.nothing _)
  have hsum {e : List Char} (h : Derives .expression e) : Derives .expression ('+' :: e) :=
    .other (by decide) (by decide) (by decide) (by decide) h
  have hexpression := Derives.group hgroup (hsum (.string (by decide) hcontent
    (hsum (.template hinner (.nothing _)))))
  have htext := Derives.plain (c := 'é') (by decide) (by decide) (by decide)
    (.hole hexpression (.escape (c := '\x60') (.plain (c := '$') (by decide) (by decide)
      (by decide) (.nothing _))))
  have htemplate : IsTemplate "`é$\x7b\x7ba\x7d+'\\'\x7d'+`$\x7b\x7d`\x7d\\`$`".toList :=
    ⟨_, htext, rfl⟩
  obtain ⟨hwhole, hany, hcount⟩ := templateEnd_laws
  have hmark : (bytes "`$\x7b'\n")[0]? = some '\x60'.toUInt8 := by decide
  obtain ⟨hbehind, hwithin, -⟩ := hany (bytes "`$\x7b'\n") 0 hmark
  exact ⟨htemplate, hwhole "x=" _ "+`" htemplate, hmark, hbehind, hwithin,
    hcount (bytes "`$\x7b'\n") 0 (by decide)⟩

end Script

end AddonBuild
