import AddonBuild.Json.Slices
import AddonBuild.Proofs.Json.Grammar
import AddonBuild.Proofs.Script.Places

/-!
# What is copied of a relaxed text

Leaving out comments and trailing commas copies slices of the text, in order and between characters,
even if a string or a comment is not closed. Of a JSON text everything is copied.
-/

namespace AddonBuild

namespace Json.Relaxed

open Grammar

open List (drop_eq_getElem_cons)

variable {s : List UInt8} {i j k : Nat}

/-! ### Cutting -/

lemma cut_eq (s : List UInt8) (i j : Nat) : Slice.cut s ⟨i, j⟩ = (s.drop i).take (j - i) :=
  List.drop_take

lemma cut_self (s : List UInt8) (i : Nat) : Slice.cut s ⟨i, i⟩ = [] := by
  rw [cut_eq, Nat.sub_self, List.take_zero]

lemma cut_append (hij : i ≤ j) (hjk : j ≤ k) :
    Slice.cut s ⟨i, j⟩ ++ Slice.cut s ⟨j, k⟩ = Slice.cut s ⟨i, k⟩ := by
  have hsum : k - i = (j - i) + (k - j) := by omega
  have hdrop : s.drop j = (s.drop i).drop (j - i) := by
    rw [List.drop_drop, Nat.add_sub_cancel' hij]
  rw [cut_eq, cut_eq, cut_eq, hsum, hdrop, ← List.take_add]

lemma cut_of_le (hi : s.length ≤ j) : Slice.cut s ⟨i, j⟩ = s.drop i := by
  rw [Slice.cut, List.take_of_length_le hi]

lemma cut_succ (h : i < s.length) (hij : i + 1 ≤ j) :
    Slice.cut s ⟨i, j⟩ = s[i] :: Slice.cut s ⟨i + 1, j⟩ := by
  have hone : Slice.cut s ⟨i, i + 1⟩ = [s[i]] := by
    rw [cut_eq, drop_eq_getElem_cons h, Nat.add_sub_cancel_left]
    rfl
  rw [← cut_append (Nat.le_add_right i 1) hij, hone]
  rfl

/-! ### Running to an end -/

lemma stripFrom_string_escape (t : List UInt8) :
    stripFrom .string (0x5C :: t) = 0x5C :: (t.take 1 ++ stripFrom .string (t.drop 1)) := by
  cases t <;> rfl

/-- A string is copied up to its end. -/
lemma stripFrom_string_drop (s : List UInt8) (i : Nat) :
    stripFrom .string (s.drop i) =
      Slice.cut s ⟨i, stringEnd s i⟩ ++ stripFrom .plain (s.drop (stringEnd s i)) := by
  fun_induction stringEnd s i with
  | case1 i h hquote =>
    rw [cut_succ h (Nat.le_refl _), cut_self, drop_eq_getElem_cons h, hquote]
    rfl
  | case2 i h hquote hslash ih =>
    have hlt := lt_stringEnd s (i + 2)
    rw [drop_eq_getElem_cons h, hslash, stripFrom_string_escape, List.drop_drop, ih,
      cut_succ h (by omega), hslash, ← cut_append (Nat.le_add_right (i + 1) 1) (by omega)]
    simp [cut_eq]
  | case3 i h hquote hslash ih =>
    have hlt := lt_stringEnd s (i + 1)
    rw [drop_eq_getElem_cons h, stripFrom, ih, cut_succ h (by omega), List.cons_append]
    · exact fun _ _ heq _ => hslash heq
    · exact hquote
  | case4 i h =>
    rw [List.drop_of_length_le (Nat.le_of_not_lt h), List.drop_of_length_le (by omega),
      cut_of_le (by omega), List.drop_of_length_le (Nat.le_of_not_lt h)]
    rfl

lemma stripFrom_lineComment_cons {b : UInt8} (hb : b ≠ 0x0A) (t : List UInt8) :
    stripFrom .lineComment (b :: t) = stripFrom .lineComment t := by
  rw [stripFrom]
  exact hb

/-- A line comment is left out up to its end. -/
lemma stripFrom_lineComment_drop (s : List UInt8) (i : Nat) :
    stripFrom .lineComment (s.drop i) = stripFrom .plain (s.drop (lineEnd s i)) := by
  fun_induction lineEnd s i with
  | case1 i h hline =>
    rw [drop_eq_getElem_cons h, hline]
    rfl
  | case2 i h hline ih =>
    rw [drop_eq_getElem_cons h, stripFrom_lineComment_cons hline, ih]
  | case3 i h =>
    rw [List.drop_of_length_le (Nat.le_of_not_lt h)]
    rfl

lemma stripFrom_blockComment_singleton (b : UInt8) : stripFrom .blockComment [b] = [] := by
  rw [stripFrom]
  · rfl
  · intro rest _ hrest
    cases hrest

/-- A block comment is left out up to its end. -/
lemma stripFrom_blockComment_drop (s : List UInt8) (i : Nat) :
    stripFrom .blockComment (s.drop i) = stripFrom .plain (s.drop (blockEnd s i)) := by
  fun_induction blockEnd s i with
  | case1 i h hmark =>
    rw [drop_eq_getElem_cons (Nat.lt_of_succ_lt h), drop_eq_getElem_cons h, hmark.1, hmark.2,
      Nat.min_eq_left h]
    rfl
  | case2 i h hmark ih =>
    rw [drop_eq_getElem_cons (Nat.lt_of_succ_lt h), stripFrom, ih]
    intro rest heq hrest
    rw [drop_eq_getElem_cons h] at hrest
    exact hmark ⟨heq, (List.cons.inj hrest).1⟩
  | case3 i h =>
    rw [Nat.min_eq_right (by omega), List.drop_length]
    by_cases hi : i < s.length
    · rw [drop_eq_getElem_cons hi, List.drop_of_length_le (by omega)]
      exact stripFrom_blockComment_singleton _
    · rw [List.drop_of_length_le (Nat.le_of_not_lt hi)]
      rfl

/-- A comma closes if the next byte that is not blank is a closing bracket. -/
lemma closes_drop (s : List UInt8) (i : Nat) :
    closes (s.drop i) = ((s[blankEnd s i]?).any fun b => b == 0x5D || b == 0x7D) := by
  fun_induction blankEnd s i with
  | case1 i h hblank ih =>
    rw [← ih, drop_eq_getElem_cons h]
    exact closes_append (List.forall_mem_singleton.mpr hblank) (s.drop (i + 1))
  | case2 i h hblank =>
    rw [drop_eq_getElem_cons h, closes_cons (by simpa using hblank), List.getElem?_eq_getElem h]
    rfl
  | case3 i h =>
    rw [List.drop_of_length_le (Nat.le_of_not_lt h), List.getElem?_eq_none (Nat.le_of_not_lt h)]
    rfl

/-! ### What one step does -/

/-- A place at the start or at the end of a text, or on either side of a byte of ASCII in it. -/
def Beside (s : List UInt8) (i : Nat) : Prop :=
  i = 0 ∨ i = s.length ∨ (∃ b, s[i]? = some b ∧ b < 0x80) ∨
    ∃ j b, i = j + 1 ∧ s[j]? = some b ∧ b < 0x80

lemma beside_lineEnd (hi : i ≤ s.length) : lineEnd s i ≤ s.length ∧ Beside s (lineEnd s i) := by
  fun_induction lineEnd s i with
  | case1 i h hline =>
    exact ⟨hi, .inr (.inr (.inl ⟨_, List.getElem?_eq_getElem h, by rw [hline]; decide⟩))⟩
  | case2 i h hline ih => exact ih h
  | case3 i h => exact ⟨hi, .inr (.inl (Nat.le_antisymm hi (Nat.le_of_not_lt h)))⟩

lemma beside_blockEnd (s : List UInt8) (i : Nat) :
    blockEnd s i ≤ s.length ∧ Beside s (blockEnd s i) := by
  fun_induction blockEnd s i with
  | case1 i h hmark =>
    rw [Nat.min_eq_left h]
    refine ⟨h, .inr (.inr (.inr ⟨i + 1, _, rfl, List.getElem?_eq_getElem h, ?_⟩))⟩
    rw [hmark.2]
    decide
  | case2 i h hmark ih => exact ih
  | case3 i h =>
    rw [Nat.min_eq_right (by omega)]
    exact ⟨Nat.le_refl _, .inr (.inl rfl)⟩

/-- A step that passes over a part of the text that is copied. -/
def Passes (s : List UInt8) (i next : Nat) : Prop :=
  (∀ copied, slicesFrom s i copied = slicesFrom s next copied) ∧
    stripFrom .plain (s.drop i) = Slice.cut s ⟨i, next⟩ ++ stripFrom .plain (s.drop next)

/-- A step that ends a slice and leaves out what follows it. -/
def Omits (s : List UInt8) (i next : Nat) : Prop :=
  next ≤ s.length ∧ Beside s i ∧ Beside s next ∧
    (∀ copied, slicesFrom s i copied = ⟨copied, i⟩ :: slicesFrom s next next) ∧
    stripFrom .plain (s.drop i) = stripFrom .plain (s.drop next)

lemma beside_of_lt (h : i < s.length) (hb : s[i] < 0x80) : Beside s i :=
  .inr (.inr (.inl ⟨_, List.getElem?_eq_getElem h, hb⟩))

/-- The byte behind one that is known is one byte further on. -/
lemma drop_of_getElem? {b b' : UInt8} (hb : s[i]? = some b) (hb' : s[i + 1]? = some b') :
    s.drop i = b :: b' :: s.drop (i + 2) := by
  obtain ⟨h, rfl⟩ := List.getElem?_eq_some_iff.mp hb
  obtain ⟨h', rfl⟩ := List.getElem?_eq_some_iff.mp hb'
  rw [drop_eq_getElem_cons h, drop_eq_getElem_cons h']

section Step

variable (h : i < s.length)
include h

lemma passes_string (hquote : s[i] = 0x22) : Passes s i (stringEnd s (i + 1)) := by
  have hlt := lt_stringEnd s (i + 1)
  constructor
  · intro copied
    rw [slicesFrom, dif_pos h, if_pos hquote]
  · rw [drop_eq_getElem_cons h, hquote, stripFrom_quote, stripFrom_string_drop,
      cut_succ h (by omega), hquote, List.cons_append]

lemma omits_line (hline : s[i] = 0x2F ∧ s[i + 1]? = some 0x2F) : Omits s i (lineEnd s i) := by
  obtain ⟨hle, hbeside⟩ := beside_lineEnd (Nat.le_of_lt h)
  refine ⟨hle, beside_of_lt h (by simp [hline.1]), hbeside, fun copied => ?_, ?_⟩
  · rw [slicesFrom, dif_pos h, if_neg (by simp [hline.1]), dif_pos hline]
  · rw [← stripFrom_lineComment_drop,
      drop_of_getElem? (List.getElem?_eq_some_iff.mpr ⟨h, hline.1⟩) hline.2, stripFrom_line,
      stripFrom_lineComment_cons (by decide), stripFrom_lineComment_cons (by decide)]

lemma omits_block (hblock : s[i] = 0x2F ∧ s[i + 1]? = some 0x2A) :
    Omits s i (blockEnd s (i + 2)) := by
  obtain ⟨hle, hbeside⟩ := beside_blockEnd s (i + 2)
  refine ⟨hle, beside_of_lt h (by simp [hblock.1]), hbeside, fun copied => ?_, ?_⟩
  · rw [slicesFrom, dif_pos h, if_neg (by simp [hblock.1]), dif_neg (by simp [hblock.2]),
      if_pos hblock]
  · rw [← stripFrom_blockComment_drop,
      drop_of_getElem? (List.getElem?_eq_some_iff.mpr ⟨h, hblock.1⟩) hblock.2, stripFrom_block]

lemma slicesFrom_comma (hcomma : s[i] = 0x2C) (copied : Nat) :
    slicesFrom s i copied =
      if closes (s.drop (i + 1)) then ⟨copied, i⟩ :: slicesFrom s (i + 1) (i + 1)
      else slicesFrom s (i + 1) copied := by
  rw [slicesFrom, dif_pos h, if_neg (by simp [hcomma]), dif_neg (by simp [hcomma]),
    if_neg (by simp [hcomma]), if_pos hcomma, closes_drop]
  split
  · next hb => rw [hb]; rfl
  · next hb => rw [hb]; rfl
  · next hbrace hbracket =>
    refine (if_neg ?_).symm
    rw [Option.any_eq_true]
    rintro ⟨b, hb, hclosing⟩
    rw [Bool.or_eq_true, beq_iff_eq, beq_iff_eq] at hclosing
    rcases hclosing with rfl | rfl
    · exact hbracket hb
    · exact hbrace hb

lemma omits_comma (hcomma : s[i] = 0x2C) (hcloses : closes (s.drop (i + 1)) = true) :
    Omits s i (i + 1) := by
  have hascii : s[i] < 0x80 := by simp [hcomma]
  refine ⟨h, beside_of_lt h hascii,
    .inr (.inr (.inr ⟨i, _, rfl, List.getElem?_eq_getElem h, hascii⟩)), fun copied => ?_, ?_⟩
  · rw [slicesFrom_comma h hcomma, if_pos hcloses]
  · rw [drop_eq_getElem_cons h, hcomma, stripFrom_trailing hcloses]

lemma passes_comma (hcomma : s[i] = 0x2C) (hcloses : closes (s.drop (i + 1)) = false) :
    Passes s i (i + 1) := by
  constructor
  · intro copied
    rw [slicesFrom_comma h hcomma, hcloses, if_neg Bool.false_ne_true]
  · rw [cut_succ h (Nat.le_refl _), cut_self, drop_eq_getElem_cons h, hcomma,
      stripFrom_comma hcloses]
    rfl

lemma passes_other (hquote : s[i] ≠ 0x22) (hline : ¬ (s[i] = 0x2F ∧ s[i + 1]? = some 0x2F))
    (hblock : ¬ (s[i] = 0x2F ∧ s[i + 1]? = some 0x2A)) (hcomma : s[i] ≠ 0x2C) :
    Passes s i (i + 1) := by
  have hmark {b : UInt8} (hb : ¬ (s[i] = 0x2F ∧ s[i + 1]? = some b)) (rest : List UInt8)
      (hslash : s[i] = 0x2F) (hrest : s.drop (i + 1) = b :: rest) : False := by
    refine hb ⟨hslash, ?_⟩
    rw [← List.head?_drop, hrest, List.head?_cons]
  constructor
  · intro copied
    rw [slicesFrom, dif_pos h, if_neg hquote, dif_neg hline, if_neg hblock, if_neg hcomma]
  · rw [cut_succ h (Nat.le_refl _), cut_self, drop_eq_getElem_cons h, stripFrom]
    · rfl
    · exact hquote
    · exact hmark hline
    · exact hmark hblock
    · exact hcomma

/-- Each step goes on, and either passes over what it meets or leaves it out. -/
lemma exists_step : ∃ next, i < next ∧ (Passes s i next ∨ Omits s i next) := by
  by_cases hquote : s[i] = 0x22
  · have hlt := lt_stringEnd s (i + 1)
    exact ⟨_, by omega, .inl (passes_string h hquote)⟩
  by_cases hline : s[i] = 0x2F ∧ s[i + 1]? = some 0x2F
  · exact ⟨_, lt_lineEnd h (by simp [hline.1]), .inr (omits_line h hline)⟩
  by_cases hblock : s[i] = 0x2F ∧ s[i + 1]? = some 0x2A
  · exact ⟨_, lt_blockEnd h (Nat.le_add_right i 2), .inr (omits_block h hblock)⟩
  refine ⟨i + 1, Nat.lt_succ_self i, ?_⟩
  by_cases hcomma : s[i] = 0x2C
  · cases hcloses : closes (s.drop (i + 1)) with
    | false => exact .inl (passes_comma h hcomma hcloses)
    | true => exact .inr (omits_comma h hcomma hcloses)
  · exact .inl (passes_other h hquote hline hblock hcomma)

end Step

/-! ### What all steps do -/

/-- What is said of the slices from `i` on of a text that is copied up to `copied`. -/
structure Slicing (s : List UInt8) (i copied : Nat) (slices : List Slice) : Prop where
  inRange : ∀ slice ∈ slices,
    copied ≤ slice.start ∧ slice.start ≤ slice.stop ∧ slice.stop ≤ s.length
  ordered : slices.Pairwise fun first second => first.stop ≤ second.start
  beside : ∀ slice ∈ slices, Beside s slice.start ∧ Beside s slice.stop
  copies : slices.flatMap (Slice.cut s) = Slice.cut s ⟨copied, i⟩ ++ stripFrom .plain (s.drop i)

lemma slicing_slicesFrom {copied : Nat} (hle : copied ≤ i) (hlength : copied ≤ s.length)
    (hbeside : Beside s copied) : Slicing s i copied (slicesFrom s i copied) := by
  induction hn : s.length - i using Nat.strongRecOn generalizing i copied with
  | ind n ih =>
    by_cases h : i < s.length
    · obtain ⟨next, hnext, ⟨hslices, hstrip⟩ | ⟨hlength', hi, hbeside', hslices, hstrip⟩⟩ :=
        exists_step h
      · have hnext' := Nat.le_of_lt hnext
        have hrest := ih (s.length - next) (by omega) (Nat.le_trans hle hnext') hlength hbeside rfl
        rw [← hslices] at hrest
        refine ⟨hrest.inRange, hrest.ordered, hrest.beside, ?_⟩
        rw [hrest.copies, hstrip, ← List.append_assoc, cut_append hle hnext']
      · have hrest := ih (s.length - next) (by omega) (Nat.le_refl next) hlength' hbeside' rfl
        rw [hslices]
        refine ⟨List.forall_mem_cons.mpr ⟨⟨Nat.le_refl _, hle, Nat.le_of_lt h⟩, fun slice hs => ?_⟩,
          List.pairwise_cons.mpr ⟨fun slice hs => ?_, hrest.ordered⟩,
          List.forall_mem_cons.mpr ⟨⟨hbeside, hi⟩, hrest.beside⟩, ?_⟩
        · have hrange := hrest.inRange slice hs
          omega
        · have hrange := hrest.inRange slice hs
          dsimp only
          omega
        · rw [List.flatMap_cons, hrest.copies, cut_self, hstrip, List.nil_append]
    · rw [slicesFrom, dif_neg h, Nat.min_eq_left hlength]
      have hend : Beside s s.length := .inr (.inl rfl)
      refine ⟨List.forall_mem_singleton.mpr ⟨Nat.le_refl _, hlength, Nat.le_refl _⟩,
        List.pairwise_singleton _ _, List.forall_mem_singleton.mpr ⟨hbeside, hend⟩, ?_⟩
      rw [List.flatMap_singleton, cut_of_le (Nat.le_refl _), cut_of_le (Nat.le_of_not_lt h),
        List.drop_of_length_le (Nat.le_of_not_lt h)]
      exact (List.append_nil _).symm

lemma sublist_stripFrom (part : Part) (s : List UInt8) : (stripFrom part s).Sublist s := by
  fun_induction stripFrom part s <;>
    simp_all [List.Sublist.cons]

/-- A place beside a byte of ASCII is a boundary of characters. -/
lemma isValid_of_beside {text : String} (h : Beside text.toUTF8.data.toList i) :
    (⟨i⟩ : String.Pos.Raw).IsValid text := by
  rcases h with rfl | rfl | ⟨b, hbyte, hascii⟩ | ⟨j, b, rfl, hbyte, hascii⟩
  · exact String.Pos.Raw.isValid_zero
  · have hlength : text.toUTF8.data.toList.length = text.utf8ByteSize := Script.length_bytes text
    rw [hlength]
    exact String.Pos.Raw.isValid_rawEndPos
  · exact (Script.isValid_of_ascii hbyte hascii).1
  · exact (Script.isValid_of_ascii hbyte hascii).2

/-! ### Whole texts -/

/-- What leaving out comments and trailing commas does to a text, be it JSON or not. -/
structure Strips (text : String) : Prop where
  document : IsDocument text → strip text.toUTF8.data.toList = text.toUTF8.data.toList
  reads : IsDocument text → ∀ (d : Disk) (file : Path), d.readText file = .ok text →
    Document.readRelaxed d file = Document.read d file
  copies : strip text.toUTF8.data.toList =
    (slices text.toUTF8.data.toList).flatMap (Slice.cut text.toUTF8.data.toList)
  ordered : (slices text.toUTF8.data.toList).Pairwise fun first second => first.stop ≤ second.start
  inRange : ∀ slice ∈ slices text.toUTF8.data.toList,
    slice.start ≤ slice.stop ∧ slice.stop ≤ text.utf8ByteSize
  boundaries : ∀ slice ∈ slices text.toUTF8.data.toList,
    (⟨slice.start⟩ : String.Pos.Raw).IsValid text ∧ (⟨slice.stop⟩ : String.Pos.Raw).IsValid text
  sublist : (strip text.toUTF8.data.toList).Sublist text.toUTF8.data.toList

/-- A text of JSON is left alone. Of any text slices are copied, in order and between characters. -/
theorem strips (text : String) : Strips text := by
  have hslicing : Slicing text.toUTF8.data.toList 0 0 (slices text.toUTF8.data.toList) :=
    slicing_slicesFrom (Nat.le_refl 0) (Nat.zero_le _) (.inl rfl)
  have hlength : text.toUTF8.data.toList.length = text.utf8ByteSize := Script.length_bytes text
  refine ⟨strip_of_isDocument, fun h d file => readRelaxed_of_isDocument h, ?_, hslicing.ordered,
    fun slice hslice => ?_, fun slice hslice => ?_, sublist_stripFrom _ _⟩
  · rw [hslicing.copies, cut_self]
    rfl
  · rw [← hlength]
    exact (hslicing.inRange slice hslice).2
  · obtain ⟨hstart, hstop⟩ := hslicing.beside slice hslice
    exact ⟨isValid_of_beside hstart, isValid_of_beside hstop⟩

/-- A string that holds the marks of comments and a comma before a bracket, and half of a pair. -/
theorem strips_nested :
    IsDocument "[\"é//\\\"\\ud800,]\", [-0.5E+1] ]\n" ∧
      strip "[\"é//\\\"\\ud800,]\", [-0.5E+1] ]\n".toUTF8.data.toList =
        "[\"é//\\\"\\ud800,]\", [-0.5E+1] ]\n".toUTF8.data.toList := by
  have hspace : IsSpace [] := List.forall_mem_nil _
  have hblank : IsSpace [' '] := by simp [IsSpace]
  have hfeed : IsSpace ['\n'] := by simp [IsSpace]
  have hdigit {c : Char} (hc : '0' ≤ c ∧ c ≤ '9') : IsDigits [c] :=
    ⟨List.cons_ne_nil c [], List.forall_mem_singleton.mpr hc⟩
  have hcontent :
      IsContent ['é', '/', '/', '\\', '"', '\\', 'u', 'd', '8', '0', '0', ',', ']'] := by
    refine .unescaped (by decide) (by decide) (by decide) ?_
    refine .unescaped (by decide) (by decide) (by decide) ?_
    refine .unescaped (by decide) (by decide) (by decide) ?_
    refine .escape (by decide) (.unit (.inr (.inl (by decide))) (.inl (by decide))
      (.inl (by decide)) (.inl (by decide)) ?_)
    exact .unescaped (by decide) (by decide) (by decide)
      (.unescaped (by decide) (by decide) (by decide) .nil)
  have hnumber : IsNumber ['-', '0', '.', '5', 'E', '+', '1'] :=
    ⟨['-'], ['0'], ['.', '5'], ['E', '+', '1'], .inr rfl, ⟨hdigit (by decide), fun _ => rfl⟩,
      .inr ⟨['5'], hdigit (by decide), rfl⟩,
      .inr ⟨'E', ['+'], ['1'], .inr rfl, .inr (.inl rfl), hdigit (by decide), rfl⟩, rfl⟩
  have hinner := Derives.array (.lastElement (.element hspace (.number hnumber) hspace))
  have houter := Derives.array (.elements (.element hspace (.string ⟨_, hcontent, rfl⟩) hspace)
    (.lastElement (.element hblank hinner hblank)))
  have hdocument : IsDocument "[\"é//\\\"\\ud800,]\", [-0.5E+1] ]\n" :=
    .element hspace houter hfeed
  exact ⟨hdocument, (strips _).document hdocument⟩

end Json.Relaxed

end AddonBuild
