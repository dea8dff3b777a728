import AddonBuild.Json.Basic
import Mathlib.Data.List.Nodup
import Mathlib.Tactic.Lemma
import Mathlib.Tactic.SplitIfs

/-!
# Merged values, path by path

Where two values are laid over each other, a path of keys leads to what the upper one has there,
merged with what the lower one has; and where an object of the upper one lacks the next key, to
what the lower one has. Laying a value over a merged one a second time changes nothing.
-/

namespace AddonBuild

namespace Json

/-- A value in which no object names a key twice. -/
inductive Distinct : Json → Prop where
  | null : Distinct .null
  | bool (value : Bool) : Distinct (.bool value)
  | number (value : Number) : Distinct (.number value)
  | string (text : String) : Distinct (.string text)
  | array {items : List Json} (hitems : ∀ item ∈ items, Distinct item) : Distinct (.array items)
  | object {members : Members} (hkeys : (members.map Prod.fst).Nodup)
    (hvalues : ∀ member ∈ members, Distinct member.2) : Distinct (.object members)

/-- The value that a path of keys leads to. -/
def at? : List String → Json → Option Json
  | [], value => some value
  | key :: path, value => (value.get? key).bind (at? path)

/-- The keys of an object, in order. -/
def Members.keys (members : Members) : List String :=
  members.map Prod.fst

variable {lower upper value below above : Json} {members low up : Members} {key : String}
  {path : List String}

@[simp] lemma Members.keys_nil : Members.keys [] = [] := rfl

@[simp] lemma Members.keys_cons (member : String × Json) (rest : Members) :
    Members.keys (member :: rest) = member.1 :: Members.keys rest := rfl

@[simp] lemma at?_nil (value : Json) : at? [] value = some value := rfl

lemma at?_cons (key : String) (path : List String) (value : Json) :
    at? (key :: path) value = (value.get? key).bind (at? path) := rfl

/-- A path that is put together leads from where its first part leads. -/
lemma at?_append (first second : List String) (value : Json) :
    at? (first ++ second) value = (at? first value).bind (at? second) := by
  induction first generalizing value with
  | nil => rfl
  | cons key first ih =>
    rw [List.cons_append, at?_cons, at?_cons, Option.bind_assoc]
    congr 1
    funext next
    exact ih next

/-! ### Looking up and inserting -/

lemma get?_object (members : Members) (key : String) :
    (Json.object members).get? key = members.lookup key := rfl

lemma get?_eq_none_of_object? (h : value.object? = none) (key : String) :
    value.get? key = none := by
  cases value with
  | object members => cases h
  | _ => rfl

lemma exists_of_get? (h : value.get? key = some below) :
    ∃ members, value = .object members ∧ members.lookup key = some below := by
  cases value with
  | object members => exact ⟨members, rfl, h⟩
  | _ => cases h

lemma mem_of_lookup (h : members.lookup key = some value) : (key, value) ∈ members := by
  obtain ⟨before, behind, rfl, -⟩ := List.lookup_eq_some_iff.mp h
  exact List.mem_append_right _ List.mem_cons_self

lemma lookup_eq_none : members.lookup key = none ↔ key ∉ members.keys := by
  rw [List.lookup_eq_none_iff, Members.keys, List.mem_map, not_exists]
  constructor
  · rintro h member ⟨hmember, rfl⟩
    exact absurd (h member hmember) (by simp)
  · intro h member hmember
    have hne : key ≠ member.1 := fun hkey => h member ⟨hmember, hkey.symm⟩
    simpa using hne

/-- In an object that names no key twice, every member is the one that its key leads to. -/
lemma lookup_of_mem (hkeys : members.keys.Nodup) (h : (key, value) ∈ members) :
    members.lookup key = some value := by
  obtain ⟨before, behind, rfl⟩ := List.append_of_mem h
  rw [Members.keys, List.map_append, List.map_cons, List.nodup_append] at hkeys
  rw [List.lookup_eq_some_iff]
  refine ⟨before, behind, rfl, fun member hmember => ?_⟩
  have hne := hkeys.2.2 member.1 (List.mem_map_of_mem hmember) key List.mem_cons_self
  simpa using hne.symm

lemma lookup_cons_ite {β : Type} (first : String) (b : β) (rest : List (String × β))
    (name : String) :
    ((first, b) :: rest).lookup name = if name = first then some b else rest.lookup name := by
  rw [List.lookup_cons]
  split_ifs with hname
  · simp [hname]
  · simp [beq_eq_false_iff_ne.mpr hname]

lemma Members.lookup_insert (k : String) :
    (members.insert key value).lookup k = if k = key then some value else members.lookup k := by
  induction members with
  | nil => exact lookup_cons_ite key value [] k
  | cons member rest ih =>
    obtain ⟨first, v⟩ := member
    rw [Members.insert]
    by_cases hfirst : first = key
    · subst hfirst
      rw [if_pos rfl, lookup_cons_ite, lookup_cons_ite]
      split_ifs <;> rfl
    · rw [if_neg hfirst, lookup_cons_ite, lookup_cons_ite, ih]
      by_cases hk : k = first
      · rw [if_pos hk, if_pos hk, if_neg (hk ▸ hfirst)]
      · rw [if_neg hk, if_neg hk]

/-- A new key comes behind the others, and one that is there stays where it is. -/
lemma Members.keys_insert :
    (members.insert key value).keys =
      if key ∈ members.keys then members.keys else members.keys ++ [key] := by
  induction members with
  | nil => simp [Members.insert]
  | cons member rest ih =>
    obtain ⟨first, v⟩ := member
    rw [Members.insert]
    by_cases hfirst : first = key
    · simp [hfirst]
    · rw [if_neg hfirst, keys_cons, keys_cons, ih]
      simp only [List.mem_cons, Ne.symm hfirst, false_or]
      split_ifs <;> rfl

lemma Members.mem_insert {member : String × Json} (h : member ∈ members.insert key value) :
    member = (key, value) ∨ member ∈ members := by
  induction members with
  | nil => exact .inl (List.mem_singleton.mp h)
  | cons first rest ih =>
    obtain ⟨k, v⟩ := first
    rw [Members.insert] at h
    split_ifs at h with hk
    · rcases List.mem_cons.mp h with h | h
      · exact .inl (hk ▸ h)
      · exact .inr (List.mem_cons_of_mem _ h)
    · rcases List.mem_cons.mp h with h | h
      · exact .inr (h ▸ List.mem_cons_self)
      · exact (ih h).imp_right (List.mem_cons_of_mem _)

/-- Giving a key the value that it has changes nothing. -/
lemma Members.insert_of_lookup (h : members.lookup key = some value) :
    members.insert key value = members := by
  induction members with
  | nil => cases h
  | cons member rest ih =>
    obtain ⟨k, v⟩ := member
    rw [Members.insert]
    by_cases hk : k = key
    · subst hk
      rw [List.lookup_cons_self, Option.some.injEq] at h
      rw [if_pos rfl, h]
    · rw [List.lookup_cons, beq_eq_false_iff_ne.mpr (Ne.symm hk)] at h
      rw [if_neg hk, ih h]

/-! ### Merging one level -/

lemma merge_object (low up : Members) :
    (Json.object low).merge (.object up) = .object (mergeMembers low up) := by
  rw [merge]

/-- A value that is no object replaces what it is laid over. -/
lemma merge_of_object? (h : upper.object? = none) (lower : Json) : lower.merge upper = upper := by
  cases upper with
  | object members => cases h
  | _ => cases lower <;> rw [merge] <;> simp

/-- What is no object is replaced. -/
lemma merge_of_object?_lower (h : lower.object? = none) (upper : Json) :
    lower.merge upper = upper := by
  cases lower with
  | object members => cases h
  | _ => rw [merge]; simp

lemma null_merge (upper : Json) : Json.null.merge upper = upper :=
  merge_of_object?_lower rfl upper

/-- What one member of an upper object becomes over a lower object. -/
def mergedMember (low : Members) (key : String) (above : Json) : Json :=
  (low.lookup key).elim above (·.merge above)

lemma mergeMembers_cons (low : Members) (key : String) (above : Json) (rest : Members) :
    mergeMembers low ((key, above) :: rest) =
      mergeMembers (low.insert key (mergedMember low key above)) rest := by
  rw [mergeMembers, mergedMember]
  cases low.lookup key <;> rfl

lemma mergedMember_insert {k : String} (hk : k ≠ key) (above : Json) :
    mergedMember (low.insert key value) k above = mergedMember low k above := by
  rw [mergedMember, mergedMember, Members.lookup_insert, if_neg hk]

/-- A key of merged objects leads to what the upper one has, over what the lower one has. -/
lemma lookup_mergeMembers (hup : up.keys.Nodup) (key : String) :
    (mergeMembers low up).lookup key =
      (up.lookup key).elim (low.lookup key) (fun above => some (mergedMember low key above)) := by
  induction up generalizing low with
  | nil => rw [mergeMembers]; rfl
  | cons member rest ih =>
    obtain ⟨k, v⟩ := member
    obtain ⟨hfresh, hrest⟩ := List.nodup_cons.mp hup
    rw [mergeMembers_cons, ih hrest, Members.lookup_insert, List.lookup_cons]
    by_cases hk : key = k
    · subst hk
      rw [lookup_eq_none.mpr hfresh]
      simp
    · rw [if_neg hk, beq_eq_false_iff_ne.mpr hk]
      cases rest.lookup key with
      | none => rfl
      | some above => exact congrArg some (mergedMember_insert hk above)

/-- Merged objects have the keys of the lower one, then the new ones of the upper one. -/
lemma keys_mergeMembers (hup : up.keys.Nodup) :
    (mergeMembers low up).keys = low.keys ++ up.keys.filter (· ∉ low.keys) := by
  induction up generalizing low with
  | nil => rw [mergeMembers]; exact (List.append_nil _).symm
  | cons member rest ih =>
    obtain ⟨k, v⟩ := member
    obtain ⟨hfresh, hrest⟩ := List.nodup_cons.mp hup
    rw [mergeMembers_cons, ih hrest, Members.keys_insert, Members.keys_cons, List.filter_cons]
    by_cases hk : k ∈ low.keys
    · simp [hk]
    · have hkept : (Members.keys rest).filter (· ∉ low.keys ++ [k]) =
          (Members.keys rest).filter (· ∉ low.keys) := by
        apply List.filter_congr
        intro other hother
        have hne : other ≠ k := fun h => hfresh (h ▸ hother)
        simp [hne]
      simp only [hk, if_false, not_false_eq_true, decide_true, if_true, hkept,
        List.append_assoc, List.singleton_append]

/-- Members that are merged into themselves by an object change nothing in it. -/
lemma mergeMembers_eq_self
    (h : ∀ member ∈ up, ∃ below, members.lookup member.1 = some below ∧
      below.merge member.2 = below) : mergeMembers members up = members := by
  induction up with
  | nil => rw [mergeMembers]
  | cons member rest ih =>
    obtain ⟨k, v⟩ := member
    obtain ⟨below, hlookup, hmerge⟩ := h (k, v) List.mem_cons_self
    have hmerged : mergedMember members k v = below := by
      rw [mergedMember, hlookup]
      exact hmerge
    rw [mergeMembers_cons, hmerged, Members.insert_of_lookup hlookup]
    exact ih fun member hmember => h member (List.mem_cons_of_mem _ hmember)

/-! ### Distinct keys -/

lemma Distinct.keys (h : Distinct (.object members)) : members.keys.Nodup := by
  cases h with
  | object hkeys _ => exact hkeys

lemma Distinct.of_mem (h : Distinct (.object members)) {member : String × Json}
    (hmember : member ∈ members) : Distinct member.2 := by
  cases h with
  | object _ hvalues => exact hvalues member hmember

lemma Distinct.of_mem_array {items : List Json} (h : Distinct (.array items)) {item : Json}
    (hitem : item ∈ items) : Distinct item := by
  cases h with
  | array hitems => exact hitems item hitem

lemma Distinct.get? (h : value.Distinct) (hget : value.get? key = some below) :
    below.Distinct := by
  obtain ⟨members, rfl, hlookup⟩ := exists_of_get? hget
  exact h.of_mem (mem_of_lookup hlookup)

lemma Distinct.at? (h : value.Distinct) (hat : value.at? path = some below) :
    below.Distinct := by
  induction path generalizing value with
  | nil => exact Option.some.inj hat ▸ h
  | cons key path ih =>
    obtain ⟨next, hget, hat⟩ := Option.bind_eq_some_iff.mp hat
    exact ih (h.get? hget) hat

/-! ### Merging at a key -/

/-- A key of the upper value leads to its value there, over that of the lower one if it has one. -/
lemma get?_merge_of_some (hupper : upper.Distinct) (h : upper.get? key = some above) :
    (lower.merge upper).get? key = some ((lower.get? key).elim above (·.merge above)) := by
  obtain ⟨up, rfl, hlookup⟩ := exists_of_get? h
  cases hlower : lower.object? with
  | none =>
    rw [merge_of_object?_lower hlower, h, get?_eq_none_of_object? hlower]
    rfl
  | some members =>
    cases lower with
    | object low =>
      rw [merge_object, get?_object, lookup_mergeMembers hupper.keys, hlookup]
      rfl
    | _ => cases hlower

/-- A key that an upper object lacks leads to what the lower value has. -/
lemma get?_merge_of_none (hupper : Distinct (.object up)) (h : up.lookup key = none) :
    (lower.merge (.object up)).get? key = lower.get? key := by
  cases hlower : lower.object? with
  | none =>
    rw [merge_of_object?_lower hlower, get?_object, h, get?_eq_none_of_object? hlower]
  | some members =>
    cases lower with
    | object low =>
      rw [merge_object, get?_object, lookup_mergeMembers hupper.keys, h]
      rfl
    | _ => cases hlower

/-! ### Merging along a path -/

/-- Where both values lead somewhere, the merged value leads to the two of them, merged. -/
lemma at?_merge_of_some (hupper : upper.Distinct) (hbelow : lower.at? path = some below)
    (habove : upper.at? path = some above) :
    (lower.merge upper).at? path = some (below.merge above) := by
  induction path generalizing lower upper with
  | nil =>
    cases hbelow
    cases habove
    rfl
  | cons key path ih =>
    obtain ⟨below', hlower, hbelow⟩ := Option.bind_eq_some_iff.mp hbelow
    obtain ⟨above', hget, habove⟩ := Option.bind_eq_some_iff.mp habove
    rw [at?_cons, get?_merge_of_some hupper hget, hlower]
    exact ih (hupper.get? hget) hbelow habove

/-- Where only the upper value leads somewhere, the merged value leads there as well. -/
lemma at?_merge_of_upper (hupper : upper.Distinct) (hbelow : lower.at? path = none)
    (habove : upper.at? path = some above) : (lower.merge upper).at? path = some above := by
  induction path generalizing lower upper with
  | nil => cases hbelow
  | cons key path ih =>
    obtain ⟨above', hget, habove⟩ := Option.bind_eq_some_iff.mp habove
    rw [at?_cons, get?_merge_of_some hupper hget]
    cases hlower : lower.get? key with
    | none => exact habove
    | some below' =>
      rw [at?_cons, hlower] at hbelow
      exact ih (hupper.get? hget) hbelow habove

/-- Behind a key that an object of the upper value lacks, the merged value leads where the lower one
does. -/
lemma at?_merge_of_lacking (hupper : upper.Distinct) (habove : upper.at? path = some (.object up))
    (hkey : up.lookup key = none) (rest : List String) :
    (lower.merge upper).at? (path ++ key :: rest) = lower.at? (path ++ key :: rest) := by
  induction path generalizing lower upper with
  | nil =>
    obtain rfl := Option.some.inj habove
    rw [List.nil_append, at?_cons, at?_cons, get?_merge_of_none hupper hkey]
  | cons next path ih =>
    obtain ⟨above', hget, habove⟩ := Option.bind_eq_some_iff.mp habove
    rw [List.cons_append, at?_cons, at?_cons, get?_merge_of_some hupper hget]
    cases lower.get? next with
    | none =>
      -- below the upper value alone, the path ends where the key is missing
      rw [Option.elim_none, Option.bind_some, Option.bind_none, at?_append, habove,
        Option.bind_some, at?_cons, get?_object, hkey, Option.bind_none]
    | some below' => exact ih (hupper.get? hget) habove

/-- Behind a value of the upper one that is no object, there is nothing. -/
lemma at?_merge_of_cut (hupper : upper.Distinct) (habove : upper.at? path = some above)
    (hcut : above.object? = none) (key : String) (rest : List String) :
    (lower.merge upper).at? (path ++ key :: rest) = none := by
  have hmerged : (lower.merge upper).at? path = some above := by
    cases hbelow : lower.at? path with
    | none => exact at?_merge_of_upper hupper hbelow habove
    | some below => rw [at?_merge_of_some hupper hbelow habove, merge_of_object? hcut]
  rw [at?_append, hmerged, Option.bind_some, at?_cons, get?_eq_none_of_object? hcut,
    Option.bind_none]

/-! ### Merging again -/

/-- What is laid over a value that it was laid over before changes nothing. -/
lemma merge_merge (hupper : upper.Distinct) (lower : Json) :
    (lower.merge upper).merge upper = lower.merge upper := by
  induction hupper generalizing lower with
  | null | bool | number | string | array => rw [merge_of_object? rfl, merge_of_object? rfl]
  | @object up hkeys hvalues ih =>
    have hself : ∀ member ∈ up, member.2.merge member.2 = member.2 := by
      intro member hmember
      have h := ih member hmember .null
      rwa [null_merge] at h
    cases hlower : lower.object? with
    | none =>
      rw [merge_of_object?_lower hlower, merge_object]
      refine congrArg Json.object (mergeMembers_eq_self fun member hmember => ?_)
      exact ⟨member.2, lookup_of_mem hkeys hmember, hself member hmember⟩
    | some members =>
      cases lower with
      | object low =>
        rw [merge_object, merge_object]
        refine congrArg Json.object (mergeMembers_eq_self fun member hmember => ?_)
        refine ⟨mergedMember low member.1 member.2, ?_, ?_⟩
        · rw [lookup_mergeMembers hkeys, lookup_of_mem hkeys hmember]
          rfl
        · rw [mergedMember]
          cases low.lookup member.1 with
          | none => exact hself member hmember
          | some below => exact ih member hmember below
      | _ => cases hlower

lemma merge_self (h : value.Distinct) : value.merge value = value := by
  have hagain := merge_merge h .null
  rwa [null_merge] at hagain

/-- Values are merged path by path: the upper one decides wherever it leads, the lower one where an
object of the upper one goes no further, and their keys keep their order. -/
theorem merge_laws (hlower : lower.Distinct) (hupper : upper.Distinct) :
    (∀ path above, upper.at? path = some above →
      (lower.merge upper).at? path = some ((lower.at? path).elim above (·.merge above))) ∧
    (∀ path up key rest, upper.at? path = some (.object up) → up.lookup key = none →
      (lower.merge upper).at? (path ++ key :: rest) = lower.at? (path ++ key :: rest)) ∧
    (∀ path above key rest, upper.at? path = some above → above.object? = none →
      (lower.merge upper).at? (path ++ key :: rest) = none) ∧
    (∀ path low up, lower.at? path = some (.object low) → upper.at? path = some (.object up) →
      ∃ members : Members, (lower.merge upper).at? path = some (.object members) ∧
        members.keys = Members.keys low ++ (Members.keys up).filter (· ∉ Members.keys low)) ∧
    (lower.merge upper).merge upper = lower.merge upper ∧ lower.merge lower = lower := by
  refine ⟨?_, ?_, ?_, ?_, merge_merge hupper lower, merge_self hlower⟩
  · intro path above habove
    cases hbelow : lower.at? path with
    | none => exact at?_merge_of_upper hupper hbelow habove
    | some below => exact at?_merge_of_some hupper hbelow habove
  · intro path up key rest habove hkey
    exact at?_merge_of_lacking hupper habove hkey rest
  · intro path above key rest habove hcut
    exact at?_merge_of_cut hupper habove hcut key rest
  · intro path low up hbelow habove
    refine ⟨mergeMembers low up, ?_, keys_mergeMembers (hupper.at? habove).keys⟩
    rw [at?_merge_of_some hupper hbelow habove, merge_object]

/-- What a pack says of its origin is laid over what is common to all packs: the new address is
there, and so is the license that it does not repeat. -/
theorem merge_laws_metadata :
    Distinct (.object [("metadata", .object [("license", .string "MIT")])]) ∧
    Distinct (.object [("name", .string "p"), ("metadata", .object [("url", .string "y")])]) ∧
    (merge (.object [("metadata", .object [("license", .string "MIT")])])
        (.object [("name", .string "p"), ("metadata", .object [("url", .string "y")])])).at?
      ["metadata", "license"] = some (.string "MIT") ∧
    (merge (.object [("metadata", .object [("license", .string "MIT")])])
        (.object [("name", .string "p"), ("metadata", .object [("url", .string "y")])])).at?
      ["metadata", "url"] = some (.string "y") := by
  have hlower : Distinct (.object [("metadata", .object [("license", .string "MIT")])]) :=
    .object (by decide) (List.forall_mem_singleton.mpr
      (.object (by decide) (List.forall_mem_singleton.mpr (.string _))))
  have hupper :
      Distinct (.object [("name", .string "p"), ("metadata", .object [("url", .string "y")])]) :=
    .object (by decide) (List.forall_mem_cons.mpr ⟨.string _, List.forall_mem_singleton.mpr
      (.object (by decide) (List.forall_mem_singleton.mpr (.string _)))⟩)
  obtain ⟨hover, hlacking, -⟩ := merge_laws hlower hupper
  refine ⟨hlower, hupper, ?_, ?_⟩
  · exact hlacking ["metadata"] [("url", .string "y")] "license" [] rfl rfl
  · exact hover ["metadata", "url"] (.string "y") rfl

end Json

end AddonBuild
