import AddonBuild.Pattern
import Mathlib.Data.List.TakeWhile
import Mathlib.Tactic.Lemma

/-!
# Filling in a wildcard

A text is filled in by writing a value in place of its marks. A pattern that was read from a text
with one mark matches the text filled in with any value, captures that value, and gives the filled
text back when the value is put in.
-/

namespace AddonBuild

namespace Pattern

/-- A text with a value in place of each mark. -/
def fill (value text : String) : String :=
  String.ofList (text.toList.flatMap fun c => if c = mark then value.toList else [c])

/-- The two sides of the only mark of a text. -/
structure Sides (text : String) where
  left : List Char
  right : List Char
  toList_eq : text.toList = left ++ mark :: right
  not_mem_left : mark ∉ left
  not_mem_right : mark ∉ right

lemma exists_sides_of_count {text : String} (h : text.toList.count mark = 1) :
    Nonempty (Sides text) := by
  have hmem : mark ∈ text.toList := List.count_pos_iff.mp (by rw [h]; exact Nat.one_pos)
  obtain ⟨left, right, htext⟩ := List.append_of_mem hmem
  rw [htext, List.count_append, List.count_cons_self] at h
  refine ⟨⟨left, right, htext, ?_, ?_⟩⟩
  all_goals
    apply List.count_eq_zero.mp
    omega

lemma flatMap_fill_of_not_mem {s : List Char} (h : mark ∉ s) (value : List Char) :
    (s.flatMap fun c => if c = mark then value else [c]) = s := by
  induction s with
  | nil => rfl
  | cons c s ih =>
    obtain ⟨hc, hs⟩ := not_or.mp (mt List.mem_cons.mpr h)
    rw [List.flatMap_cons, if_neg (Ne.symm hc), ih hs]
    rfl

/-- A text without a mark stays as it is. -/
lemma fill_of_not_mem {text : String} (h : mark ∉ text.toList) (value : String) :
    fill value text = text := by
  rw [fill, flatMap_fill_of_not_mem h, String.ofList_toList]

lemma fill_append (value first second : String) :
    fill value (first ++ second) = fill value first ++ fill value second := by
  rw [fill, String.toList_append, List.flatMap_append, String.ofList_append]
  rfl

lemma Sides.fill_eq {text : String} (sides : Sides text) (value : String) :
    (fill value text).toList = sides.left ++ value.toList ++ sides.right := by
  rw [fill, String.toList_ofList, sides.toList_eq, List.flatMap_append, List.flatMap_cons,
    flatMap_fill_of_not_mem sides.not_mem_left, flatMap_fill_of_not_mem sides.not_mem_right,
    if_pos rfl, List.append_assoc]

/-! ### Reading -/

lemma parse?_of_not_mem {text : String} (h : mark ∉ text.toList) :
    parse? text = some (.exact text) := by
  have hdrop : text.toList.dropWhile (· ≠ mark) = [] := by
    rw [List.dropWhile_eq_nil_iff]
    intro c hc
    exact decide_eq_true fun heq => h (heq ▸ hc)
  rw [parse?]
  simp only [hdrop]

lemma Sides.parse?_eq {text : String} (sides : Sides text) :
    parse? text =
      some (.wildcard (String.ofList sides.left) (String.ofList sides.right)) := by
  have hleft : ∀ c ∈ sides.left, decide (c ≠ mark) = true := by
    intro c hc
    exact decide_eq_true fun heq => sides.not_mem_left (heq ▸ hc)
  have hdrop : text.toList.dropWhile (· ≠ mark) = mark :: sides.right := by
    rw [sides.toList_eq, List.dropWhile_append_of_pos hleft]
    exact List.dropWhile_cons_of_neg (by simp)
  have htake : text.toList.takeWhile (· ≠ mark) = sides.left := by
    rw [sides.toList_eq, List.takeWhile_append_of_pos hleft]
    simp
  rw [parse?]
  simp only [hdrop, htake]
  exact if_neg sides.not_mem_right

/-! ### Matching -/

lemma between?_append (left value right : List Char) :
    between? left right (left ++ value ++ right) = some value := by
  have hlead : left.isPrefixOf (left ++ value ++ right) = true := by
    rw [List.isPrefixOf_iff_prefix, List.append_assoc]
    exact List.prefix_append _ _
  have hrest : (left ++ value ++ right).drop left.length = value ++ right := by
    rw [List.append_assoc, List.drop_left]
  have hend : right.isSuffixOf (value ++ right) = true :=
    List.isSuffixOf_iff_suffix.mpr (List.suffix_append _ _)
  rw [between?, if_pos hlead, hrest]
  simp only [hend, if_true, List.length_append, Nat.add_sub_cancel, List.take_left]

/-- A text matches itself. -/
lemma match?_of_not_mem {text : String} {key : Pattern} (h : mark ∉ text.toList)
    (hkey : parse? text = some key) : key.match? text = some .exact := by
  obtain rfl : Pattern.exact text = key := Option.some.inj ((parse?_of_not_mem h).symm.trans hkey)
  exact if_pos rfl

/-- A text with one mark matches what it is filled in to, and captures the value. -/
lemma Sides.match?_fill {text : String} {key : Pattern} (sides : Sides text)
    (hkey : parse? text = some key) (value : String) :
    key.match? (fill value text) = some (.captured value) := by
  obtain rfl := Option.some.inj (sides.parse?_eq.symm.trans hkey)
  rw [match?, sides.fill_eq, String.toList_ofList, String.toList_ofList, between?_append,
    Option.map_some, String.ofList_toList]

lemma Sides.substitute_eq {text : String} {p : Pattern} (sides : Sides text)
    (hp : parse? text = some p) (value : String) : p.substitute value = fill value text := by
  obtain rfl := Option.some.inj (sides.parse?_eq.symm.trans hp)
  rw [← String.ofList_toList (s := fill value text), sides.fill_eq, substitute,
    String.ofList_append, String.ofList_append, String.ofList_toList]

lemma Sides.hasWildcard_eq {text : String} {p : Pattern} (sides : Sides text)
    (hp : parse? text = some p) : p.hasWildcard = true := by
  obtain rfl := Option.some.inj (sides.parse?_eq.symm.trans hp)
  rfl

end Pattern

end AddonBuild
