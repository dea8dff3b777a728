import AddonBuild.Json.Decoder
import AddonBuild.Proofs.Json.Merging
import AddonBuild.Proofs.Steps

/-!
# Layers of objects

Objects that are laid over each other, the strongest one first. A key leads to what the first layer
has that has the key. Where that is an object, it is merged with the objects right behind it, down
to the first layer in which the key leads to no object.
-/

namespace AddonBuild

namespace Json

/-- The values of a key in the layers that have it. -/
def valuesOf (key : String) (layers : List Members) : List Json :=
  layers.filterMap (·.lookup key)

/-- The objects in front of the first value that is none. -/
def objectsAtop : List Json → List Members
  | .object members :: rest => members :: objectsAtop rest
  | _ => []

/-- Values that are laid over each other, the first one on top. -/
def stacked? : List Json → Option Json
  | [] => none
  | top :: rest => some ((stacked? rest).elim top (·.merge top))

/-- The keys of layers: those of the last one, then the new ones of each layer on it. -/
def keysOf : List Members → List String
  | [] => []
  | top :: rest => keysOf rest ++ (Members.keys top).filter (· ∉ keysOf rest)

variable {values : List Json} {layers : List Members} {value : Json} {members : Members}
  {key : String}

lemma valuesOf_cons (key : String) (top : Members) (rest : List Members) :
    valuesOf key (top :: rest) = (top.lookup key).toList ++ valuesOf key rest := by
  rw [valuesOf, List.filterMap_cons]
  cases top.lookup key <;> rfl

lemma stacked?_cons (top : Json) (rest : List Json) :
    stacked? (top :: rest) = some ((stacked? rest).elim top (·.merge top)) := rfl

lemma distinct_valuesOf (h : ∀ layer ∈ layers, Distinct (.object layer)) (key : String) :
    ∀ value ∈ valuesOf key layers, Distinct value := by
  intro value hvalue
  obtain ⟨layer, hlayer, hlookup⟩ := List.mem_filterMap.mp hvalue
  exact (h layer hlayer).of_mem (mem_of_lookup hlookup)

lemma distinct_objectsAtop (h : ∀ value ∈ values, Distinct value) :
    ∀ layer ∈ objectsAtop values, Distinct (.object layer) := by
  fun_induction objectsAtop values with
  | case1 members rest ih =>
    obtain ⟨hfirst, hrest⟩ := List.forall_mem_cons.mp h
    exact List.forall_mem_cons.mpr ⟨hfirst, ih hrest⟩
  | case2 => exact nofun

/-! ### The value on top -/

lemma object?_eq_some : value.object? = some members ↔ value = .object members := by
  cases value <;> simp [object?]

/-- Two values are merged if both are objects, or else the upper one remains. -/
lemma merge_cases (lower upper : Json) : lower.merge upper = upper ∨
    ∃ low up, lower = .object low ∧ upper = .object up ∧
      lower.merge upper = .object (mergeMembers low up) := by
  cases hlower : lower.object? with
  | none => exact .inl (merge_of_object?_lower hlower upper)
  | some low =>
    cases hupper : upper.object? with
    | none => exact .inl (merge_of_object? hupper lower)
    | some up =>
      obtain rfl := object?_eq_some.mp hlower
      obtain rfl := object?_eq_some.mp hupper
      exact .inr ⟨low, up, rfl, rfl, merge_object low up⟩

lemma object?_elim_merge (base : Option Json) (top : Json) :
    (base.elim top (·.merge top)).object? = none ↔ top.object? = none := by
  cases base with
  | none => rfl
  | some base =>
    rcases merge_cases base top with h | ⟨low, up, -, rfl, h⟩
    · rw [Option.elim_some, h]
    · rw [Option.elim_some, h]
      exact iff_of_false nofun nofun

/-- A value that is no object hides what is behind it. -/
lemma head?_of_stacked? (h : stacked? values = some value) (hvalue : value.object? = none) :
    values.head? = some value := by
  cases values with
  | nil => cases h
  | cons top rest =>
    obtain rfl := Option.some.inj h
    rw [object?_elim_merge] at hvalue
    cases hrest : stacked? rest with
    | none => rfl
    | some base => exact congrArg some (merge_of_object? hvalue base).symm

lemma exists_cons_of_stacked? (h : stacked? values = some value) (hvalue : value.object? = none) :
    ∃ rest, values = value :: rest := by
  obtain ⟨rest, hrest⟩ := List.head?_eq_some_iff.mp (head?_of_stacked? h hvalue)
  exact ⟨rest, hrest⟩

lemma objectsAtop_eq_nil (h : stacked? values = some value) (hvalue : value.object? = none) :
    objectsAtop values = [] := by
  have hhead := head?_of_stacked? h hvalue
  cases values with
  | nil => rfl
  | cons top rest =>
    obtain rfl := Option.some.inj hhead
    cases top with
    | object members => cases hvalue
    | _ => rfl

/-- Where an object comes out, there is one on top. -/
lemma exists_object_of_stacked? {top : Json} {rest : List Json}
    (h : stacked? (top :: rest) = some value) (hvalue : value.object? = some members) :
    ∃ up, top = .object up := by
  obtain rfl := Option.some.inj h
  cases htop : top.object? with
  | none => rw [(object?_elim_merge _ _).mpr htop] at hvalue; cases hvalue
  | some up => exact ⟨up, object?_eq_some.mp htop⟩

lemma stacked?_eq_none : stacked? values = none ↔ values = [] := by
  cases values <;> simp [stacked?]

lemma objectsAtop_map_object (layers : List Members) :
    objectsAtop (layers.map .object) = layers := by
  induction layers with
  | nil => rfl
  | cons top rest ih => rw [List.map_cons, objectsAtop, ih]

/-- Merged objects are an object. -/
lemma exists_members_of_stacked? (h : stacked? (layers.map .object) = some value) :
    ∃ members, value = .object members := by
  cases hobject : value.object? with
  | some members => exact ⟨members, object?_eq_some.mp hobject⟩
  | none =>
    have hnil := objectsAtop_eq_nil h hobject
    rw [objectsAtop_map_object] at hnil
    rw [hnil] at h
    cases h

lemma objectsAtop_ne_nil (h : stacked? values = some (.object members)) :
    objectsAtop values ≠ [] := by
  cases values with
  | nil => cases h
  | cons top rest =>
    obtain ⟨up, rfl⟩ := exists_object_of_stacked? h rfl
    exact List.cons_ne_nil _ _

/-! ### The members of merged layers -/

/-- A key of merged values leads to what the objects in front have there, merged in turn. -/
lemma get?_stacked? (hdistinct : ∀ value ∈ values, Distinct value)
    (h : stacked? values = some value) (key : String) :
    value.get? key = stacked? (valuesOf key (objectsAtop values)) := by
  induction values generalizing value with
  | nil => cases h
  | cons top rest ih =>
    obtain ⟨htop, hrest⟩ := List.forall_mem_cons.mp hdistinct
    cases hobject : value.object? with
    | none => rw [get?_eq_none_of_object? hobject, objectsAtop_eq_nil h hobject]; rfl
    | some members =>
      obtain ⟨up, rfl⟩ := exists_object_of_stacked? h hobject
      obtain rfl := Option.some.inj h
      rw [objectsAtop, valuesOf_cons]
      cases hbase : stacked? rest with
      | none =>
        obtain rfl := stacked?_eq_none.mp hbase
        rw [Option.elim_none, get?_object]
        cases up.lookup key <;> rfl
      | some base =>
        rw [Option.elim_some]
        cases hkey : up.lookup key with
        | none => rw [get?_merge_of_none htop hkey, ih hrest hbase]; rfl
        | some above => rw [get?_merge_of_some htop hkey, ih hrest hbase]; rfl

lemma keys_of_stacked? (hdistinct : ∀ value ∈ values, Distinct value)
    (h : stacked? values = some (.object members)) :
    members.keys = keysOf (objectsAtop values) := by
  induction values generalizing members with
  | nil => cases h
  | cons top rest ih =>
    obtain ⟨htop, hrest⟩ := List.forall_mem_cons.mp hdistinct
    obtain ⟨up, rfl⟩ := exists_object_of_stacked? h rfl
    rw [stacked?_cons, Option.some.injEq] at h
    rw [objectsAtop, keysOf]
    cases hbase : stacked? rest with
    | none =>
      obtain rfl := stacked?_eq_none.mp hbase
      rw [hbase] at h
      obtain rfl := Json.object.inj h
      simp [objectsAtop, keysOf]
    | some base =>
      rw [hbase, Option.elim_some] at h
      cases hobject : base.object? with
      | none =>
        rw [merge_of_object?_lower hobject] at h
        obtain rfl := Json.object.inj h
        simp [objectsAtop_eq_nil hbase hobject, keysOf]
      | some low =>
        obtain rfl := object?_eq_some.mp hobject
        rw [merge_object] at h
        obtain rfl := Json.object.inj h
        rw [keys_mergeMembers htop.keys, ih hrest hbase]

lemma nodup_keysOf (h : ∀ layer ∈ layers, Distinct (.object layer)) : (keysOf layers).Nodup := by
  induction layers with
  | nil => exact List.nodup_nil
  | cons top rest ih =>
    obtain ⟨htop, hrest⟩ := List.forall_mem_cons.mp h
    refine List.nodup_append.mpr ⟨ih hrest, htop.keys.filter _, ?_⟩
    rintro key hkey _ hnew rfl
    simpa [hkey] using List.of_mem_filter hnew

end Json

end AddonBuild
