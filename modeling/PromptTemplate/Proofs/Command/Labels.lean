/-
`Labels.lean` -- which nodes of a tree carry which labels.

Counters are kept by label, so a tree only rotates as its nodes say if no two of them have
the same label. `Label.Spread` is how the reader comes by that: what it reads between two
places has different labels, each with a number between these places behind a common
beginning, and so what is read one after another can be put together
(`Label.Spread.append`). Putting commands in a list together moves no label.
-/
import Mathlib.Data.List.Nodup
import PromptTemplate.Proofs.Command.NormalForm

set_option autoImplicit false

namespace PromptTemplate

/-! ## 1. The labels of a tree -/

namespace Command

/-- The labels of a tree: that of the node, then those of its parts in order. -/
def labels (command : Command) : List Label :=
  command.label?.toList ++ command.parts.attach.flatMap fun part => labels part.1
termination_by sizeOf command
decreasing_by exact sizeOf_lt_of_mem_parts part.2

/-- The labels of a node are its own and then those of its parts. -/
theorem labels_eq (command : Command) :
    command.labels = command.label?.toList ++ command.parts.flatMap labels := by
  rw [labels, List.flatMap_subtype fun _ _ => rfl, List.unattach_attach]

/-- A literal has no label. -/
@[simp] theorem labels_literal (text : Text) : (Command.literal text).labels = [] := by
  rw [labels_eq]
  rfl

/-- Joining literals moves no label. -/
theorem flatMap_labels_mergeLiterals (commands : List Command) :
    (mergeLiterals commands).flatMap labels = commands.flatMap labels := by
  fun_induction mergeLiterals commands with
  | case1 => rfl
  | case2 s rest t merged hmerged ih =>
    rw [hmerged] at ih
    simpa using ih
  | case3 s rest hnone ih => simpa using ih
  | case4 other rest hother ih => rw [List.flatMap_cons, List.flatMap_cons, ih]

/-- Putting commands together moves no label. -/
theorem labels_ofList (commands : List Command) :
    (ofList commands).labels = commands.flatMap labels := by
  rw [← flatMap_labels_mergeLiterals, ofList]
  split
  · next heq => rw [heq, labels_literal, List.flatMap_nil]
  · next command heq => rw [heq, List.flatMap_singleton]
  · rw [labels_eq]
    rfl

/-! ### What the constructors keep -/

/-- A variant has its label and those of its options. -/
theorem labels_makeVariant {label : Label} {options : List (Option Number × Command)}
    {settings : VariantSettings} {command : Command}
    (h : makeVariant label options settings = .ok command) :
    command.labels = label :: options.flatMap fun option => option.2.labels := by
  obtain ⟨checked, least, most, hchecked, rfl⟩ := exists_of_makeVariant h
  rw [labels_eq, parts, map_value_of_checkOptions hchecked, List.flatMap_map]
  rfl

/-- A part with a chance has its label and those of its value. -/
theorem labels_makeProbability {label : Label} {chance : Number} {value : Command}
    {sampling : Option Sampling} {command : Command}
    (h : makeProbability label chance value sampling = .ok command) :
    command.labels = label :: value.labels := by
  obtain ⟨q, rfl⟩ := exists_of_makeProbability h
  rw [labels_eq, parts, List.flatMap_singleton]
  rfl

/-- A condition has the labels of its values. -/
theorem labels_makeCondition {branches : List BranchInput} {otherwise command : Command}
    (h : makeCondition branches otherwise = .ok command) :
    command.labels = (branches.flatMap fun branch => branch.value.labels) ++ otherwise.labels := by
  obtain ⟨compiled, hvalues, rfl⟩ := exists_of_makeCondition h
  rw [labels_eq, parts, hvalues, List.flatMap_append, List.flatMap_map, List.flatMap_singleton]
  rfl

/-- A variable that is read has those of its default. -/
theorem labels_makeAccess {name : Text} {fallback : Option Command} {command : Command}
    (h : makeAccess name fallback = .ok command) :
    command.labels = fallback.toList.flatMap labels := by
  rw [eq_of_makeAccess h, labels_eq]
  rfl

/-- An assignment has those of its value. -/
theorem labels_makeAssignment {name : Text} {value : Command} {overwrite immediate : Bool}
    {command : Command} (h : makeAssignment name value overwrite immediate = .ok command) :
    command.labels = value.labels := by
  rw [eq_of_makeAssignment h, labels_eq, parts, List.flatMap_singleton]
  rfl

/-- A name that is a literal has no labels, so making it a fixed one loses none. -/
theorem labels_makeWildcard {label : Label} {name : Command} {inlined : List (Text × Command)}
    {sampling : Option Sampling} {command : Command}
    (h : makeWildcard label (.rendered name) inlined sampling = .ok command) :
    command.labels = label :: (name.labels ++ inlined.flatMap fun v => v.2.labels) := by
  obtain ⟨plain, rfl, hplain⟩ := exists_of_makeWildcard h
  have hname : plain.parts.flatMap labels = name.labels := by
    rcases hplain with rfl | ⟨text, rfl, rfl⟩
    · exact List.flatMap_singleton _ _
    · exact (labels_literal text).symm
  rw [labels_eq, parts, List.flatMap_append, hname, List.flatMap_map]
  rfl

end Command

/-! ## 2. Labels between two places -/

/-- The labels are different, and each goes on from the base with a number between the
two. -/
structure Label.Spread (base : List Nat) (low high : Nat) (labels : List Label) : Prop where
  nodup : labels.Nodup
  between : ∀ label ∈ labels, ∃ place rest, label.place = base ++ place :: rest ∧ low ≤ place ∧
    place < high

namespace Label.Spread

variable {base : List Nat} {low mid high : Nat} {labels more : List Label}

/-- No labels are anywhere. -/
theorem nil : Spread base low high [] := ⟨.nil, nofun⟩

/-- A label at one place. -/
theorem singleton (base : List Nat) (place : Nat) (origin : Origin) :
    Spread base place (place + 1) [⟨base ++ [place], origin⟩] :=
  ⟨List.nodup_singleton _, List.forall_mem_singleton.2
    ⟨place, [], rfl, Nat.le_refl _, Nat.lt_succ_self _⟩⟩

/-- Labels between two places are between places further apart. -/
theorem widen {wider higher : Nat} (h : Spread base low high labels) (hlow : wider ≤ low)
    (hhigh : high ≤ higher) : Spread base wider higher labels := by
  refine ⟨h.nodup, fun label hmem => ?_⟩
  obtain ⟨place, rest, hplace, hle, hlt⟩ := h.between label hmem
  exact ⟨place, rest, hplace, by omega, by omega⟩

/-- Labels below a place and labels from it on have nothing in common. -/
theorem disjoint (h : Spread base low mid labels) (hmore : Spread base mid high more) :
    labels.Disjoint more := by
  intro label hmem hmem'
  obtain ⟨place, rest, hplace, -, hlt⟩ := h.between label hmem
  obtain ⟨place', rest', hplace', hle, -⟩ := hmore.between label hmem'
  have hsame : place :: rest = place' :: rest' :=
    List.append_cancel_left (hplace.symm.trans hplace')
  have hplaces : place = place' := (List.cons.inj hsame).1
  omega

/-- Labels between a place and the next, and from there on, are between the outer ones. -/
theorem append (h : Spread base low mid labels) (hmore : Spread base mid high more)
    (hlow : low ≤ mid) (hhigh : mid ≤ high) : Spread base low high (labels ++ more) := by
  refine ⟨List.nodup_append'.2 ⟨h.nodup, hmore.nodup, h.disjoint hmore⟩, fun label hmem => ?_⟩
  rcases List.mem_append.1 hmem with hmem | hmem
  · exact (h.widen (Nat.le_refl _) hhigh).between label hmem
  · exact (hmore.widen hlow (Nat.le_refl _)).between label hmem

/-- Some of the labels are between the places too. -/
theorem sublist (h : Spread base low high labels) (hsub : more.Sublist labels) :
    Spread base low high more :=
  ⟨h.nodup.sublist hsub, fun label hmem => h.between label (hsub.subset hmem)⟩

/-- In another order they are as well. -/
theorem perm (h : Spread base low high labels) (hperm : labels.Perm more) :
    Spread base low high more :=
  ⟨hperm.nodup_iff.1 h.nodup, fun label hmem => h.between label (hperm.mem_iff.2 hmem)⟩

/-- Labels under a place are labels at that place. -/
theorem under {place : Nat} (h : Spread (base ++ [place]) low high labels) :
    Spread base place (place + 1) labels := by
  refine ⟨h.nodup, fun label hmem => ?_⟩
  obtain ⟨below, rest, hbelow, -, -⟩ := h.between label hmem
  refine ⟨place, below :: rest, ?_, Nat.le_refl _, Nat.lt_succ_self _⟩
  rw [hbelow, List.append_assoc, List.singleton_append]

end Label.Spread

/-! ## 3. Inline variables -/

/-- The labels in the values of inline variables. -/
def variableLabels (inlined : List (Text × Command)) : List Label :=
  inlined.flatMap fun v => v.2.labels

/-- A new value for a name that is there stands where the old one stood. -/
private theorem map_replace {name : Text} {value : Command} {given : Text × Command}
    {before behind : List (Text × Command)} (hname : given.1 = name)
    (hnames : ((before ++ given :: behind).map (·.1)).Nodup) :
    ((before ++ given :: behind).map fun v => if v.1 = name then (name, value) else v) =
      before ++ (name, value) :: behind := by
  rw [List.map_append, List.map_cons, List.nodup_append', List.nodup_cons] at hnames
  obtain ⟨-, ⟨hbehind, -⟩, hapart⟩ := hnames
  -- no other variable has the name, so all others stay
  have hkept : ∀ others : List (Text × Command), given.1 ∉ others.map (·.1) →
      (others.map fun v => if v.1 = name then (name, value) else v) = others := by
    intro others hothers
    refine (List.map_congr_left fun v hv => if_neg fun heq => hothers ?_).trans
      (List.map_id others)
    rw [hname, ← heq]
    exact List.mem_map_of_mem hv
  rw [List.map_append, List.map_cons, if_pos hname, hkept behind hbehind,
    hkept before fun hmem => hapart hmem List.mem_cons_self]

/-- Setting an inline variable keeps names and labels apart: the value takes the place of
the one that had its name, and its labels stand behind all others. -/
theorem spread_setVariable {base : List Nat} {index : Nat} {name : Text} {value : Command}
    {inlined : List (Text × Command)} (hnames : (inlined.map (·.1)).Nodup)
    (hinlined : Label.Spread base 0 index (variableLabels inlined))
    (hvalue : Label.Spread base index (index + 1) value.labels) :
    ((setVariable name value inlined).map (·.1)).Nodup ∧
      Label.Spread base 0 (index + 1) (variableLabels (setVariable name value inlined)) := by
  unfold setVariable
  by_cases hany : (inlined.any fun v => v.1 = name) = true
  · rw [if_pos hany]
    obtain ⟨given, hgiven, hname⟩ := List.any_eq_true.1 hany
    have hsame : given.1 = name := of_decide_eq_true hname
    obtain ⟨before, behind, rfl⟩ := List.append_of_mem hgiven
    rw [map_replace hsame hnames]
    refine ⟨by simpa only [List.map_append, List.map_cons, hsame] using hnames, ?_⟩
    -- the labels of the old value go, and those of the new one stand behind all others
    have hall := hinlined.append hvalue (Nat.zero_le _) (Nat.le_succ _)
    have hfewer : (before ++ behind ++ [(name, value)]).Perm
        (before ++ (name, value) :: behind) := by
      rw [List.append_assoc]
      exact (List.perm_append_singleton _ _).append_left _
    have hsub : List.Sublist (variableLabels (before ++ behind ++ [(name, value)]))
        (variableLabels (before ++ given :: behind) ++ value.labels) := by
      simp only [variableLabels, List.flatMap_append, List.flatMap_cons, List.flatMap_nil,
        List.append_nil, List.append_assoc]
      exact List.Sublist.append_left (List.sublist_append_right _ _) _
    exact (hall.sublist hsub).perm (hfewer.flatMap_right _)
  · rw [if_neg hany]
    have hfresh : name ∉ inlined.map (·.1) := by
      intro hmem
      obtain ⟨v, hv, heq⟩ := List.mem_map.1 hmem
      exact hany (List.any_eq_true.2 ⟨v, hv, decide_eq_true heq⟩)
    refine ⟨?_, ?_⟩
    · rw [List.map_append, List.nodup_append']
      exact ⟨hnames, List.nodup_singleton _, List.disjoint_singleton.2 hfresh⟩
    · rw [variableLabels, List.flatMap_append, List.flatMap_singleton]
      exact hinlined.append hvalue (Nat.zero_le _) (Nat.le_succ _)

end PromptTemplate
