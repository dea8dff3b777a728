import AddonBuild.Proofs.Build.Outputs

/-!
# Where scripts and values go

A script keeps its place in the tree and a JSON file becomes a script of the same stem, so that two
inputs of a module meet at one place just if they are a script and a JSON file that share all but
their extensions. The description of the project may be met by either.
-/

namespace AddonBuild

open AddonBuild.Path

namespace Disk

variable {d : Disk}

/-! ### Listing once -/

/-- No file is listed twice. -/
lemma nodup_listFiles (hd : d.Proper) {root : Path} {files : List Path}
    (hfiles : d.listFiles root = .ok files) : files.Nodup := by
  obtain ⟨-, rfl⟩ | ⟨-, rfl⟩ := of_listFiles_eq_ok hfiles
  · exact List.nodup_nil
  · have hsegments (k : Location) (hk : k ∈ d.filesBelow root.location) : k.path.segments = k := by
      obtain ⟨hne, content, hget⟩ := mem_filesBelow.mp hk
      exact (Location.segments_path hne (isStep_of_get? hd hne (by rw [hget]; simp))).1
    refine (nodup_filesBelow d _).map_on fun k hk k' hk' heq => ?_
    rw [← hsegments k hk, heq, hsegments k' hk']

end Disk

namespace Path

variable {p q b : Path} {stem extension other : String} {above : Location}

/-- Whether two relative paths lead to a script and a JSON file that differ in their extensions
alone. -/
def Twins (p q : Path) : Prop :=
  p.hasExtension "js" = true ∧ q.hasExtension "json" = true ∧ q.withExtension "js" = p

/-- Listed paths lead from a directory to places of their own. -/
lemma Listed.eq_of_location_join (hp : p.Listed) (hq : q.Listed)
    (h : (b.join p).location = (b.join q).location) : p = q := by
  obtain ⟨l, rfl, -, hl⟩ := hp
  obtain ⟨k, rfl, -, hk⟩ := hq
  rw [location_join_path b hl, location_join_path b hk] at h
  rw [List.append_cancel_left h]

lemma Listed.exists_of_hasExtension (hp : p.Listed) (h : p.hasExtension extension = true) :
    ∃ (above : Location) (stem : String), stem ≠ "" ∧
      p = Location.path (above ++ [stem ++ "." ++ extension]) ∧
      ∀ name ∈ above ++ [stem ++ "." ++ extension], (Component.name name).IsStep := by
  obtain ⟨rel, rfl, hne, hstep⟩ := hp
  obtain ⟨name, hname, hextension⟩ := exists_of_hasExtension h
  obtain ⟨stem, hstem, -, rfl⟩ := exists_of_splitName hextension
  rw [fileName?_eq_some_iff, Location.way_path hstep, List.getLast?_map,
    Option.map_eq_some_iff] at hname
  obtain ⟨last, hlast, heq⟩ := hname
  obtain rfl := Component.name.inj heq
  obtain ⟨above, rfl⟩ := List.getLast?_eq_some_iff.mp hlast
  exact ⟨above, stem, hstem, rfl, hstep⟩

section

variable (hstep : ∀ name ∈ above ++ [stem ++ "." ++ extension], (Component.name name).IsStep)
  (hstem : stem ≠ "") (hdot : '.' ∉ extension.toList)
  (hother : '/' ∉ other.toList) (hlength : 1 < other.length)
include hstep

lemma fileName?_path : (Location.path (above ++ [stem ++ "." ++ extension])).fileName? =
    some (stem ++ "." ++ extension) := by
  rw [fileName?_eq_some_iff, Location.way_path hstep]
  simp

include hstem hdot

/-- With another extension a listed path leads to another name in the same place. -/
lemma withExtension_path :
    (Location.path (above ++ [stem ++ "." ++ extension])).withExtension other =
      Location.path (above ++ [stem ++ "." ++ other]) := by
  obtain ⟨hsegments, hrelative⟩ := Location.segments_path (by simp) hstep
  have hlast : isBlank (stem ++ "." ++ extension) = false := by
    obtain ⟨-, hempty, hhere, -⟩ := hstep _ (List.mem_append_right _ List.mem_cons_self)
    simp [isBlank, hempty, hhere]
  have hhere : ((above ++ [stem ++ "." ++ extension]).head?) ≠ some "." := fun hhead =>
    (hstep "." (List.mem_of_mem_head? hhead)).2.2.1 rfl
  rw [withExtension, fileName?_path hstep, split, hsegments, hrelative, if_neg (by simp),
    if_neg hhere]
  dsimp only
  rw [trimBlank_of_last hlast, List.dropLast_concat, splitName_append hstem hdot]
  rfl

include hother hlength

lemma isStep_of_other : ∀ name ∈ above ++ [stem ++ "." ++ other], (Component.name name).IsStep := by
  have hname := isStep_withExtension hother hlength (fileName?_path hstep)
  rw [splitName_append hstem hdot] at hname
  intro name hmem
  rcases List.mem_append.mp hmem with hmem | hmem
  · exact hstep name (List.mem_append_left _ hmem)
  · exact List.mem_singleton.mp hmem ▸ hname

/-- A file below a directory stays where it is with another extension. -/
lemma location_withExtension :
    ((b.join (Location.path (above ++ [stem ++ "." ++ extension]))).withExtension other).location =
      (b.join (Location.path (above ++ [stem ++ "." ++ other]))).location := by
  have hway : (b.join (Location.path (above ++ [stem ++ "." ++ extension]))).way =
      b.way ++ above.map .name ++ [.name (stem ++ "." ++ extension)] := by
    rw [way_join_path b hstep, List.map_append, List.append_assoc]
    rfl
  have hname := fileName?_of_way hway
  have hway' := way_join_path b (isStep_of_other hstep hstem hdot hother hlength)
  rw [location, location, way_withExtension hother hlength hname, hway, hway',
    List.dropLast_concat, splitName_append hstem hdot, List.map_append, List.append_assoc]
  rfl

end

/-- Only with the same stem does a listed path become the same with another extension. -/
lemma Listed.eq_of_withExtension (hp : p.Listed) (hq : q.Listed) (hdot : '.' ∉ extension.toList)
    (hother : '/' ∉ other.toList) (hlength : 1 < other.length)
    (hpe : p.hasExtension extension = true) (hqe : q.hasExtension extension = true)
    (h : p.withExtension other = q.withExtension other) : p = q := by
  obtain ⟨above, stem, hstem, rfl, hstep⟩ := hp.exists_of_hasExtension hpe
  obtain ⟨above', stem', hstem', rfl, hstep'⟩ := hq.exists_of_hasExtension hqe
  have hlisted := isStep_of_other hstep hstem hdot hother hlength
  have hlisted' := isStep_of_other hstep' hstem' hdot hother hlength
  rw [withExtension_path hstep hstem hdot, withExtension_path hstep' hstem' hdot] at h
  have hnames := congrArg segments h
  rw [(Location.segments_path (by simp) hlisted).1,
    (Location.segments_path (by simp) hlisted').1] at hnames
  obtain ⟨rfl, hname⟩ := List.append_inj' hnames rfl
  rw [List.singleton_inj, String.append_left_inj, String.append_left_inj] at hname
  rw [hname]

/-- The name of a file is the last on the way to its place. -/
lemma getLast?_location {name : String} (h : p.fileName? = some name) :
    p.location.getLast? = some name := by
  obtain ⟨init, hway⟩ := List.getLast?_eq_some_iff.mp (fileName?_eq_some_iff.mp h)
  rw [location, hway, Location.along_append]
  exact List.getLast?_concat

end Path

namespace Build

variable {inputs : List Input} {buildPath description : Path} {i j : Input} {q q' : Path}

/-- The script that an input of a module becomes, if any, relative to the pack. -/
def Input.script? (i : Input) : Option Path :=
  if i.relative.hasExtension "js" then some i.relative
  else if i.relative.hasExtension "json" then some (i.relative.withExtension "js")
  else none

/-- The target of an input is where its script goes. -/
lemma exists_of_target (hlisted : i.relative.Listed) (h : i.target buildPath = some q) :
    ∃ script, i.script? = some script ∧ script.Listed ∧
      q.location = (buildPath.join script).location := by
  rw [Input.target] at h
  rw [Input.script?]
  split_ifs at h ⊢ with hscript hjson
  · obtain rfl := Option.some.inj h
    exact ⟨i.relative, rfl, hlisted, rfl⟩
  · obtain rfl := Option.some.inj h
    obtain ⟨above, stem, hstem, hrelative, hstep⟩ := hlisted.exists_of_hasExtension hjson
    rw [hrelative, withExtension_path hstep hstem (by decide)]
    refine ⟨_, rfl, ⟨_, rfl, by simp, ?_⟩, ?_⟩
    · exact isStep_of_other hstep hstem (by decide) (by decide) (by decide)
    · exact location_withExtension hstep hstem (by decide) (by decide) (by decide)

lemma not_hasExtension_of_json {p : Path} (h : p.hasExtension "json" = true) :
    p.hasExtension "js" = false := by
  rw [hasExtension, beq_iff_eq] at h
  rw [hasExtension, h]
  decide

lemma script?_of_twins {p q : Path} (root root' : Path) (h : p.Twins q) :
    Input.script? ⟨root, p⟩ = some p ∧ Input.script? ⟨root', q⟩ = some p := by
  obtain ⟨hscript, hjson, h⟩ := h
  constructor
  · rw [Input.script?, if_pos hscript]
  · rw [Input.script?, if_neg (by simp [not_hasExtension_of_json hjson]), if_pos hjson, h]

/-- Two inputs become the same script just if they are a script and a JSON file that differ in their
extensions alone. -/
lemma twins_of_script? {script : Path} (hi : i.relative.Listed) (hj : j.relative.Listed)
    (hne : i.relative ≠ j.relative) (hiscript : i.script? = some script)
    (hjscript : j.script? = some script) :
    i.relative.Twins j.relative ∨ j.relative.Twins i.relative := by
  rw [Input.script?] at hiscript hjscript
  split_ifs at hiscript hjscript with his hjs hjj hij hjs hjj
  all_goals
    have heq := Option.some.inj (hiscript.trans hjscript.symm)
  · exact absurd heq hne
  · exact .inl ⟨his, hjj, heq.symm⟩
  · exact .inr ⟨hjs, hij, heq⟩
  · exact absurd (hi.eq_of_withExtension hj (by decide) (by decide) (by decide) hij hjj heq) hne

/-- No two inputs of a module have the same place. -/
lemma nodup_scriptInputs {sourceRoot generatedRoot : Path} {sources generated : List Path}
    (hsources : sources.Nodup) (hgenerated : generated.Nodup) :
    ((scriptInputs sourceRoot generatedRoot sources generated).map (·.relative)).Nodup := by
  have hrelative : (scriptInputs sourceRoot generatedRoot sources generated).map (·.relative) =
      sources ++ generated.filter (· ∉ sources) := by
    simp [scriptInputs, Function.comp_def]
  rw [hrelative]
  refine List.nodup_append.mpr ⟨hsources, hgenerated.filter _, ?_⟩
  rintro p hp q hq rfl
  simpa [hp] using (List.mem_filter.mp hq).2

/-! ### Clashes -/

/-- Whether no two things that are put out for the inputs of a module, and none of them and the
description of the project, go to one place. -/
structure NoClash (inputs : List Input) (buildPath description : Path) : Prop where
  twins : ∀ i ∈ inputs, ∀ j ∈ inputs, ¬ i.relative.Twins j.relative
  description : ∀ i ∈ inputs, ∀ q, i.target buildPath = some q → q.location ≠ description.location

lemma location_of_twins (hi : i.relative.Listed) (hj : j.relative.Listed)
    (h : i.relative.Twins j.relative) :
    ∃ q q', i.target buildPath = some q ∧ j.target buildPath = some q' ∧
      q.location = q'.location := by
  obtain ⟨hiscript, hjscript⟩ := script?_of_twins i.root j.root h
  obtain ⟨hscript, hjson, -⟩ := h
  have hitarget : i.target buildPath = some (buildPath.join i.relative) := if_pos hscript
  have hjtarget : j.target buildPath = some ((buildPath.join j.relative).withExtension "js") := by
    rw [Input.target, if_neg (by simp [not_hasExtension_of_json hjson]), if_pos hjson]
  obtain ⟨script, hs, -, hlocation⟩ := exists_of_target hi hitarget
  obtain ⟨script', hs', -, hlocation'⟩ := exists_of_target hj hjtarget
  obtain rfl := Option.some.inj (hs.symm.trans hiscript)
  obtain rfl := Option.some.inj (hs'.symm.trans hjscript)
  exact ⟨_, _, hitarget, hjtarget, hlocation.trans hlocation'.symm⟩

/-- All that is put out for a module goes to places of its own just if there is no clash. -/
lemma nodup_targets_iff (hlisted : ∀ i ∈ inputs, i.relative.Listed)
    (hnodup : (inputs.map (·.relative)).Nodup) :
    ((description :: inputs.filterMap (·.target buildPath)).map location).Nodup ↔
      NoClash inputs buildPath description := by
  have hpairwise : ((inputs.filterMap (·.target buildPath)).map location).Nodup ↔
      inputs.Pairwise fun i j => ∀ q, i.target buildPath = some q →
        ∀ q', j.target buildPath = some q' → q.location ≠ q'.location := by
    rw [List.Nodup, List.pairwise_map, List.pairwise_filterMap]
  have hdescription : description.location ∉
      (inputs.filterMap (·.target buildPath)).map location ↔
      ∀ i ∈ inputs, ∀ q, i.target buildPath = some q → q.location ≠ description.location := by
    constructor
    · intro h i hi q hq heq
      exact h (List.mem_map.mpr ⟨q, List.mem_filterMap.mpr ⟨i, hi, hq⟩, heq⟩)
    · intro h hmem
      obtain ⟨q, hq, heq⟩ := List.mem_map.mp hmem
      obtain ⟨i, hi, hq⟩ := List.mem_filterMap.mp hq
      exact h i hi q hq heq
  rw [List.map_cons, List.nodup_cons, hdescription, hpairwise]
  constructor
  -- twins have targets in one place
  · rintro ⟨hdescription, hpairwise⟩
    refine ⟨fun i hi j hj htwins => ?_, hdescription⟩
    have hne : i ≠ j := by
      rintro rfl
      exact absurd htwins.1 (by simp [not_hasExtension_of_json htwins.2.1])
    obtain ⟨q, q', hq, hq', heq⟩ := location_of_twins (hlisted i hi) (hlisted j hj) htwins
    have hsymm : Std.Symm fun i j : Input => ∀ q, i.target buildPath = some q →
        ∀ q', j.target buildPath = some q' → q.location ≠ q'.location :=
      ⟨fun i j h q hq q' hq' heq => h q' hq' q hq heq.symm⟩
    exact hpairwise.forall hi hj hne q hq q' hq' heq
  -- inputs whose targets are in one place become one script, so they are twins
  · rintro ⟨htwins, hdescription⟩
    refine ⟨hdescription, ?_⟩
    rw [List.Nodup, List.pairwise_map] at hnodup
    refine hnodup.imp_of_mem fun {i j} hi hj hne q hq q' hq' heq => ?_
    obtain ⟨script, hs, hscript, hlocation⟩ := exists_of_target (hlisted i hi) hq
    obtain ⟨script', hs', hscript', hlocation'⟩ := exists_of_target (hlisted j hj) hq'
    obtain rfl := hscript.eq_of_location_join hscript'
      (hlocation.symm.trans (heq.trans hlocation'))
    rcases twins_of_script? (hlisted i hi) (hlisted j hj) hne hs hs' with h | h
    · exact htwins i hi j hj h
    · exact htwins j hj i hi h

/-! ### Licenses -/

lemma location_license {name : String} (h : name ∈ licenseFiles) (root : Path) :
    (root.child name).location = root.location ++ [name] := by
  rw [location, way_child (isStep_license h), Location.along_append]
  rfl

lemma hasExtension_of_target (h : i.target buildPath = some q) : q.hasExtension "js" = true := by
  rw [Input.target] at h
  split_ifs at h with hscript hjson
  · exact Option.some.inj h ▸ hasExtension_join hscript
  · obtain ⟨name, hname, hextension⟩ := exists_of_hasExtension (hasExtension_join hjson)
    obtain ⟨stem, hstem, hdot, rfl⟩ := exists_of_splitName hextension
    rw [← Option.some.inj h, hasExtension, extension?,
      fileName?_withExtension (by decide) (by decide) hname, splitName_append hstem hdot,
      Option.bind_some, splitName_append hstem (by decide), beq_self_eq_true]

/-- No script goes to the place of a license. -/
lemma location_ne_license {name : String} (hq : q.hasExtension "js" = true)
    (h : name ∈ licenseFiles) (root : Path) : q.location ≠ (root.child name).location := by
  intro heq
  obtain ⟨name', hname', hextension⟩ := exists_of_hasExtension hq
  have hlast := getLast?_location hname'
  rw [heq, location_license h, List.getLast?_concat] at hlast
  obtain rfl := Option.some.inj hlast
  simp only [licenseFiles, List.mem_cons, List.not_mem_nil, or_false] at h
  obtain rfl | rfl := h <;> exact absurd hextension (by decide)

/-- The licenses of a pack do not add to the clashes. -/
lemma nodup_append_licenses_iff {paths : List Path} {names : List String} {root : Path}
    (hpaths : ∀ q ∈ paths, q.hasExtension "js" = true) (hnames : names.Sublist licenseFiles) :
    ((paths ++ names.map root.child).map location).Nodup ↔ (paths.map location).Nodup := by
  have hlicenses : ((names.map root.child).map location).Nodup := by
    rw [List.map_map]
    refine (hnames.nodup (by decide)).map_on fun name hname name' hname' heq => ?_
    rw [Function.comp_apply, Function.comp_apply, location_license (hnames.subset hname),
      location_license (hnames.subset hname')] at heq
    exact List.singleton_inj.mp (List.append_cancel_left heq)
  rw [List.map_append, List.nodup_append]
  refine ⟨fun h => h.1, fun h => ⟨h, hlicenses, ?_⟩⟩
  intro a ha b hb heq
  obtain ⟨q, hq, rfl⟩ := List.mem_map.mp ha
  obtain ⟨_, hlicense, rfl⟩ := List.mem_map.mp hb
  obtain ⟨name, hname, rfl⟩ := List.mem_map.mp hlicense
  exact location_ne_license (hpaths q hq) (hnames.subset hname) root heq

end Build

end AddonBuild
