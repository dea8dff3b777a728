import AddonBuild.Proofs.Json.Layers

/-!
# Reading members of layers

What a record takes from an object, in terms of the layers that the object was merged from. A member
that is read as a text, a flag or a list is that of the first layer which has it.
-/

namespace AddonBuild

namespace Json

/-- The value of the first layer that has a key. -/
def first? (key : String) (layers : List Members) : Option Json :=
  layers.findSome? (·.lookup key)

lemma head?_valuesOf (key : String) (layers : List Members) :
    (valuesOf key layers).head? = first? key layers := by
  rw [valuesOf, List.head?_filterMap, first?]

lemma string?_eq_some {value : Json} {text : String} :
    value.string? = some text ↔ value = .string text := by
  cases value <;> simp [string?]

lemma getString?_eq_some {value : Json} {key text : String} :
    value.getString? key = some text ↔
      ∃ members, value = .object members ∧ members.lookup key = some (.string text) := by
  constructor
  · intro h
    obtain ⟨found, hget, hfound⟩ := Option.bind_eq_some_iff.mp h
    obtain rfl := string?_eq_some.mp hfound
    exact exists_of_get? hget
  · rintro ⟨members, rfl, hlookup⟩
    rw [getString?, get?_object, hlookup]
    rfl

namespace Decoder

variable {α β : Type} {decoder : Decoder α} {members found : Members} {name : String} {a : α}
  {a? : Option α} {layers : List Members} {value : Json} {text : String}

/-- What a member says that may be absent: nothing if it is absent or null. -/
inductive Says (decoder : Decoder α) : Option Json → Option α → Prop where
  | absent : Says decoder none none
  | null : Says decoder (some .null) none
  | value {v : Json} {a : α} (h : decoder v = .ok a) : Says decoder (some v) (some a)

/-- A decoder that takes no objects. -/
def Flat (decoder : Decoder α) : Prop :=
  ∀ v a, decoder v = .ok a → v.object? = none

lemma flat_string : Flat string := by
  intro v a h
  cases v with
  | object => cases h
  | _ => rfl

lemma flat_bool : Flat bool := by
  intro v a h
  cases v with
  | object => cases h
  | _ => rfl

lemma flat_list (item : Decoder α) : Flat (list item) := by
  intro v a h
  cases v with
  | object => cases h
  | _ => rfl

lemma string_eq_ok : string value = .ok text ↔ value = .string text := by
  cases value <;> simp [string]

lemma list_any_eq_ok {items : List Json} : list any value = .ok items ↔ value = .array items := by
  cases value with
  | array found =>
    have hitems : found.mapM any = .ok found :=
      mapM_eq_ok.mpr (List.forall₂_same.mpr fun _ _ => rfl)
    simp [list, hitems]
  | _ => simp [list]

lemma members_object_eq_ok {form : Form} :
    form.members (.object members) = .ok found → found = members := by
  intro h
  obtain ⟨-, -, h⟩ := bind_eq_ok.mp h
  exact (Except.ok.inj h).symm

lemma required_eq_ok :
    required members name decoder = .ok a ↔
      ∃ v, members.lookup name = some v ∧ decoder v = .ok a := by
  rw [required]
  cases members.lookup name <;> simp

lemma required_string_eq_ok :
    required members name string = .ok text ↔ members.lookup name = some (.string text) := by
  rw [required_eq_ok]
  simp [string_eq_ok]

lemma says_of_optional (h : optional members name decoder = .ok a?) :
    Says decoder (members.lookup name) a? := by
  rw [optional] at h
  cases hlookup : members.lookup name with
  | none =>
    rw [hlookup] at h
    obtain rfl := Except.ok.inj h
    exact .absent
  | some v =>
    rw [hlookup] at h
    dsimp only at h
    unfold option at h
    split at h
    · obtain rfl := Except.ok.inj h
      exact .null
    · obtain ⟨a, ha, rfl⟩ := map_eq_ok.mp h
      exact .value ha

/-! ### Layers -/

lemma required_first? (hflat : Flat decoder)
    (hlookup : members.lookup name = stacked? (valuesOf name layers))
    (h : required members name decoder = .ok a) :
    ∃ v, first? name layers = some v ∧ decoder v = .ok a := by
  obtain ⟨v, hv, ha⟩ := required_eq_ok.mp h
  rw [hlookup] at hv
  exact ⟨v, head?_valuesOf name layers ▸ head?_of_stacked? hv (hflat v a ha), ha⟩

lemma says_first? (hflat : Flat decoder)
    (hlookup : members.lookup name = stacked? (valuesOf name layers))
    (h : optional members name decoder = .ok a?) : Says decoder (first? name layers) a? := by
  have hsays := says_of_optional h
  rw [hlookup] at hsays
  rw [← head?_valuesOf]
  cases hvalue : stacked? (valuesOf name layers) with
  | none =>
    rw [hvalue] at hsays
    rw [stacked?_eq_none.mp hvalue]
    exact hsays
  | some v =>
    rw [hvalue] at hsays
    have hobject : v.object? = none := by
      cases hsays with
      | null => rfl
      | value ha => exact hflat _ _ ha
    rw [head?_of_stacked? hvalue hobject]
    exact hsays

end Decoder

end Json

end AddonBuild
