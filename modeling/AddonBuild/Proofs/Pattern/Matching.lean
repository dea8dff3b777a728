import AddonBuild.Proofs.Import.Lookup

/-!
# What patterns match

A text is read as a pattern unless it has two marks, and the pattern is written as that text. A
pattern with a wildcard captures a value of just those texts that it gives when the value is put in;
one without matches its own text. So matching and filling in undo each other, whatever the sides of
the wildcard have in common with the value or with one another.
-/

namespace AddonBuild

namespace Pattern

variable {source : String} {p : Pattern}

/-! ### Reading and writing -/

/-- A text without two marks has none, or it has two sides. -/
lemma not_mem_or_sides (h : source.toList.count mark ≤ 1) :
    mark ∉ source.toList ∨ Nonempty (Sides source) := by
  rcases Nat.le_one_iff_eq_zero_or_eq_one.mp h with hzero | hone
  · exact .inl (List.count_eq_zero.mp hzero)
  · exact .inr (exists_sides_of_count hone)

/-- A text with two marks has a mark in front and another one behind it. -/
lemma parse?_of_two_marks (h : 1 < source.toList.count mark) : parse? source = none := by
  have hmem : mark ∈ source.toList := List.count_pos_iff.mp (Nat.zero_lt_of_lt h)
  obtain ⟨left, right, htext, hleft⟩ := List.eq_append_cons_of_mem hmem
  have hpos : ∀ c ∈ left, decide (c ≠ mark) = true := by
    intro c hc
    exact decide_eq_true fun heq => hleft (heq ▸ hc)
  have hdrop : source.toList.dropWhile (· ≠ mark) = mark :: right := by
    rw [htext, List.dropWhile_append_of_pos hpos]
    exact List.dropWhile_cons_of_neg (by simp)
  have hright : mark ∈ right := by
    rw [htext, List.count_append, List.count_cons_self, List.count_eq_zero.mpr hleft] at h
    exact List.count_pos_iff.mp (by omega)
  rw [parse?]
  simp only [hdrop]
  exact if_pos hright

/-- A pattern without a wildcard that was read from a text is that text, which has no mark. -/
lemma of_parse?_exact {text : String} (h : parse? source = some (.exact text)) :
    text = source ∧ mark ∉ source.toList := by
  by_cases hcount : source.toList.count mark ≤ 1
  · rcases not_mem_or_sides hcount with hnone | ⟨⟨sides⟩⟩
    · rw [parse?_of_not_mem hnone] at h
      cases h
      exact ⟨rfl, hnone⟩
    · rw [sides.parse?_eq] at h
      cases h
  · rw [parse?_of_two_marks (Nat.lt_of_not_le hcount)] at h
    cases h

/-- A pattern with a wildcard that was read from a text has what stands on either side of its
mark. -/
lemma of_parse?_wildcard {left right : String} (h : parse? source = some (.wildcard left right)) :
    source = left ++ String.singleton mark ++ right ∧ source.toList.count mark = 1 := by
  by_cases hcount : source.toList.count mark ≤ 1
  · rcases not_mem_or_sides hcount with hnone | ⟨⟨sides⟩⟩
    · rw [parse?_of_not_mem hnone] at h
      cases h
    · rw [sides.parse?_eq] at h
      cases h
      constructor
      · apply String.toList_injective
        simp [sides.toList_eq]
      · rw [sides.toList_eq, List.count_append, List.count_cons_self,
          List.count_eq_zero.mpr sides.not_mem_left, List.count_eq_zero.mpr sides.not_mem_right]
  · rw [parse?_of_two_marks (Nat.lt_of_not_le hcount)] at h
    cases h

lemma exists_parse?_iff : (∃ p, parse? source = some p) ↔ source.toList.count mark ≤ 1 := by
  constructor
  · rintro ⟨text | ⟨left, right⟩, h⟩
    · rw [List.count_eq_zero.mpr (of_parse?_exact h).2]
      exact Nat.zero_le 1
    · exact (of_parse?_wildcard h).2.le
  · intro h
    rcases not_mem_or_sides h with hnone | ⟨⟨sides⟩⟩
    · exact ⟨_, parse?_of_not_mem hnone⟩
    · exact ⟨_, sides.parse?_eq⟩

/-- A pattern is written as the text that it was read from. -/
lemma render_of_parse? (h : parse? source = some p) : p.render = source := by
  cases p with
  | exact text => exact (of_parse?_exact h).1
  | wildcard left right => exact (of_parse?_wildcard h).1.symm

/-! ### Matching and filling in -/

lemma between?_eq_some {left right text middle : List Char} :
    between? left right text = some middle ↔ text = left ++ middle ++ right := by
  constructor
  · intro h
    rw [between?] at h
    split_ifs at h with hlead
    obtain ⟨rest, rfl⟩ := List.isPrefixOf_iff_prefix.mp hlead
    simp only [List.drop_left] at h
    split_ifs at h with hend
    obtain ⟨value, rfl⟩ := List.isSuffixOf_iff_suffix.mp hend
    rw [List.length_append, Nat.add_sub_cancel, List.take_left, Option.some.injEq] at h
    rw [h, List.append_assoc]
  · rintro rfl
    exact between?_append left middle right

/-- A wildcard captures the value that gives the text when it is put in. -/
lemma match?_wildcard_eq_captured {left right text value : String} :
    (wildcard left right).match? text = some (.captured value) ↔
      text = (wildcard left right).substitute value := by
  rw [match?, Option.map_eq_some_iff, substitute]
  constructor
  · rintro ⟨middle, hmiddle, hvalue⟩
    cases hvalue
    apply String.toList_injective
    simpa using between?_eq_some.mp hmiddle
  · rintro rfl
    refine ⟨value.toList, between?_eq_some.mpr ?_, ?_⟩
    · simp
    · rw [String.ofList_toList]

lemma match?_wildcard_ne_exact {left right text : String} :
    (wildcard left right).match? text ≠ some .exact := by
  intro h
  obtain ⟨middle, -, hmiddle⟩ := Option.map_eq_some_iff.mp h
  cases hmiddle

/-- What a wildcard stands for can be told from the filled text. -/
lemma substitute_wildcard_injective {left right value value' : String}
    (h : (wildcard left right).substitute value = (wildcard left right).substitute value') :
    value = value' := by
  have hvalue := match?_wildcard_eq_captured.mpr (Eq.refl ((wildcard left right).substitute value))
  have hvalue' := match?_wildcard_eq_captured.mpr h
  exact Match.captured.inj (Option.some.inj (hvalue.symm.trans hvalue'))

/-- A beginning and an end that together are no longer than a text leave a middle between them. -/
lemma exists_middle {left right text : String} (hlead : left.toList <+: text.toList)
    (hend : right.toList <:+ text.toList)
    (hsize : left.utf8ByteSize + right.utf8ByteSize ≤ text.utf8ByteSize) :
    ∃ middle, text = left ++ middle ++ right := by
  obtain ⟨behind, hbehind⟩ := hlead
  obtain ⟨before, hbefore⟩ := hend
  rcases List.append_eq_append_iff.mp (hbehind.trans hbefore.symm) with
    ⟨middle, rfl, -⟩ | ⟨shared, hleft, hright⟩
  · refine ⟨String.ofList middle, String.toList_injective ?_⟩
    simp [← hbefore]
  · -- what the two share would be counted twice
    have hparts : left = String.ofList before ++ String.ofList shared ∧
        right = String.ofList shared ++ String.ofList behind ∧
        text = String.ofList before ++ String.ofList shared ++ String.ofList behind := by
      refine ⟨?_, ?_, ?_⟩ <;> apply String.toList_injective <;>
        simp [hleft, hright, ← hbefore]
    obtain ⟨hl, hr, ht⟩ := hparts
    have hempty : (String.ofList shared).utf8ByteSize = 0 := by
      rw [hl, hr, ht] at hsize
      simp only [String.utf8ByteSize_append] at hsize
      omega
    refine ⟨"", ?_⟩
    rw [String.utf8ByteSize_eq_zero_iff] at hempty
    rw [hl, hr, ht, hempty]
    simp

/-- A text matches just if it has both sides of the wildcard and these do not overlap. -/
lemma match?_wildcard_ne_none {left right text : String} :
    (wildcard left right).match? text ≠ none ↔
      left.toList <+: text.toList ∧ right.toList <:+ text.toList ∧
        left.utf8ByteSize + right.utf8ByteSize ≤ text.utf8ByteSize := by
  constructor
  · intro h
    obtain ⟨found, hfound⟩ := Option.ne_none_iff_exists'.mp h
    cases found with
    | exact => exact absurd hfound match?_wildcard_ne_exact
    | captured value =>
      rw [match?_wildcard_eq_captured.mp hfound, substitute]
      refine ⟨⟨(value ++ right).toList, ?_⟩, ⟨(left ++ value).toList, ?_⟩, ?_⟩
      · simp
      · simp
      · simp only [String.utf8ByteSize_append]
        omega
  · rintro ⟨hlead, hend, hsize⟩
    obtain ⟨middle, hmiddle⟩ := exists_middle hlead hend hsize
    rw [match?_wildcard_eq_captured.mpr hmiddle]
    exact Option.some_ne_none _

lemma match?_exact_eq_exact {expected text : String} :
    (exact expected).match? text = some .exact ↔ text = expected := by
  rw [match?]
  split_ifs with h
  · exact iff_of_true rfl h
  · exact iff_of_false not_false h

lemma match?_exact_ne_captured {expected text value : String} :
    (exact expected).match? text ≠ some (.captured value) := by
  rw [match?]
  split_ifs
  · intro h
    cases h
  · exact (Option.some_ne_none _).symm

/-! ### The laws of a pattern -/

/-- How a pattern behaves whose wildcard stands between `left` and `right`. -/
structure Captures (p : Pattern) (left right : String) : Prop where
  /-- It captures a value of just the text that it gives when the value is put in. -/
  captured : ∀ text value, p.match? text = some (.captured value) ↔ text = p.substitute value
  not_exact : ∀ text, p.match? text ≠ some .exact
  substitute : ∀ value, p.substitute value = left ++ value ++ right
  /-- No two values give the same text. -/
  unique : ∀ value value', p.substitute value = p.substitute value' → value = value'
  /-- A match takes both sides, one behind the other. -/
  apart : ∀ text, p.match? text ≠ none ↔
    left.toList <+: text.toList ∧ right.toList <:+ text.toList ∧
      left.utf8ByteSize + right.utf8ByteSize ≤ text.utf8ByteSize

/-- How a pattern behaves that is no more than a text. -/
structure IsText (p : Pattern) (expected : String) : Prop where
  exact : ∀ text, p.match? text = some .exact ↔ text = expected
  not_captured : ∀ text value, p.match? text ≠ some (.captured value)
  substitute : ∀ value, p.substitute value = expected

lemma captures_wildcard (left right : String) : (wildcard left right).Captures left right where
  captured _ _ := match?_wildcard_eq_captured
  not_exact _ := match?_wildcard_ne_exact
  substitute _ := rfl
  unique _ _ := substitute_wildcard_injective
  apart _ := match?_wildcard_ne_none

lemma isText_exact (expected : String) : (exact expected).IsText expected where
  exact _ := match?_exact_eq_exact
  not_captured _ _ := match?_exact_ne_captured
  substitute _ := rfl

/-- A text is a pattern unless it has two marks. The pattern is written as that text, which no other
text is read as; with a mark it captures what stands in place of the mark, and without one it
matches the text. -/
theorem parse_laws (source : String) :
    ((∃ p, parse source = .ok p) ↔ source.toList.count mark ≤ 1) ∧
    (1 < source.toList.count mark → parse source = .error (.twoWildcards source)) ∧
    ∀ p, parse source = .ok p →
      p.render = source ∧ (∀ other, parse other = .ok p → other = source) ∧
      (p.hasWildcard = true ↔ mark ∈ source.toList) ∧
      if p.hasWildcard then
        ∃ left right, source = left ++ String.singleton mark ++ right ∧ p.Captures left right
      else p.IsText source := by
  refine ⟨?_, ?_, ?_⟩
  · simp only [parse_eq_ok]
    exact exists_parse?_iff
  · intro h
    rw [parse, parse?_of_two_marks h]
  · intro p hp
    have hp := parse_eq_ok.mp hp
    have hrender := render_of_parse? hp
    have hother : ∀ other, parse other = .ok p → other = source := by
      intro other hother
      rw [← render_of_parse? (parse_eq_ok.mp hother), hrender]
    refine ⟨hrender, hother, ?_⟩
    cases p with
    | exact text =>
      obtain ⟨rfl, hnone⟩ := of_parse?_exact hp
      exact ⟨iff_of_false Bool.false_ne_true hnone, isText_exact text⟩
    | wildcard left right =>
      obtain ⟨hsource, hone⟩ := of_parse?_wildcard hp
      have hmem : mark ∈ source.toList := List.count_pos_iff.mp (by omega)
      exact ⟨iff_of_true rfl hmem, left, right, hsource, captures_wildcard left right⟩

/-- Where the two sides would share a letter there is no match, and a mark is captured like any
other text. -/
theorem parse_laws_shared :
    parse "ab*ba" = .ok (.wildcard "ab" "ba") ∧
    (wildcard "ab" "ba").match? "aba" = none ∧
    (wildcard "ab" "ba").match? "abba" = some (.captured "") ∧
    (wildcard "ab" "ba").match? "abab*baba" = some (.captured "ab*ba") := by
  have hparse : parse "ab*ba" = .ok (.wildcard "ab" "ba") := by
    rfl
  obtain ⟨-, -, hlaws⟩ := parse_laws "ab*ba"
  obtain ⟨-, -, -, left, right, -, h⟩ := hlaws _ hparse
  refine ⟨hparse, ?_, (h.captured _ _).mpr rfl, (h.captured _ _).mpr rfl⟩
  by_contra hmatch
  obtain ⟨-, -, hsize⟩ := (h.apart _).mp hmatch
  have hsides := congrArg String.utf8ByteSize (h.substitute "")
  have hfour : ((wildcard "ab" "ba").substitute "").utf8ByteSize = 4 := by
    rfl
  have hthree : "aba".utf8ByteSize = 3 := by
    rfl
  rw [hfour, String.utf8ByteSize_append, String.utf8ByteSize_append] at hsides
  rw [hthree] at hsize
  have hempty : "".utf8ByteSize = 0 := by
    rfl
  omega

end Pattern

end AddonBuild
