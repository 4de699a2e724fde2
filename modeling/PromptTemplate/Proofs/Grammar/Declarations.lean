/-
`Declarations.lean` -- which declarations of a grammar are accepted, and as what.

A declaration overlays the standard delimiters, and everything is checked after that: so a standard
delimiter can be at fault together with one that was given, and a name without a value is worse than
a name that is missing. What is checked is the value of each delimiter (`Grammar.merged`). If all
seven are texts, they make a grammar (`Grammar.Fills`), and only then are the delimiters that open
something compared with each other.
-/
import Mathlib.Data.List.Nodup
import Mathlib.Data.Set.Function
import PromptTemplate.Grammar.Declared

set_option autoImplicit false

namespace PromptTemplate

/-- A list is mapped to the results of its members, if all of them have one. -/
theorem mapM_eq_some_iff {α β : Type} {f : α → Option β} {members : List α} {results : List β} :
    members.mapM f = some results ↔ members.map f = results.map some := by
  induction members generalizing results with
  | nil => cases results <;> simp
  | cons a members ih =>
    cases results with
    | nil => simp [List.mapM_cons, Option.bind_eq_some_iff]
    | cons b results => simp [List.mapM_cons, Option.bind_eq_some_iff, ← ih, and_comm]

/-- Whether a fault is one of two delimiters that are the same text. -/
def GrammarFault.isConflict : GrammarFault → Bool
  | .conflict _ _ _ => true
  | _ => false

namespace Grammar

/-! ## 1. Delimiters -/

/-- A text that can be a delimiter. -/
structure Delimits (token : Text) : Prop where
  ne_nil : token ≠ []
  solid : ∀ u ∈ token, u.isBlank = false
  free : token ∉ reserved

/-- A text is without fault if it can be a delimiter. -/
theorem tokenFaults_eq_nil {name token : Text} : tokenFaults name token = [] ↔ Delimits token := by
  simp only [tokenFaults, List.append_eq_nil_iff, ite_eq_right_iff, List.cons_ne_nil, imp_false,
    List.isEmpty_iff, List.any_eq_true, List.contains_iff_mem, not_exists, not_and,
    Bool.not_eq_true]
  constructor
  · rintro ⟨⟨hne, hsolid⟩, hfree⟩
    exact ⟨hne, hsolid, hfree⟩
  · intro h
    exact ⟨⟨h.ne_nil, h.solid⟩, h.free⟩

/-- The standard delimiters can be delimiters. -/
theorem delimits_standard : ∀ field ∈ standard.fields, Delimits field.2 := by
  have hnone : standard.fields.flatMap (fun field => tokenFaults field.1 field.2) = [] := rfl
  intro field hfield
  exact tokenFaults_eq_nil.1 (List.flatMap_eq_nil_iff.1 hnone field hfield)

/-- The value that is checked for a delimiter: the one given, which can be none, and the standard
one where its name is missing. -/
def merged (given : List (Text × Option Json)) (field : Text × Text) : Option Json :=
  (given.lookup field.1).getD (some (.str field.2))

variable {given : List (Text × Option Json)} {field : Text × Text} {token : Text} {g : Grammar}

/-- A declared text is the one that is merged. -/
theorem declaredText_eq_ok :
    declaredText given field.1 field.2 = .ok token ↔ merged given field = some (.str token) := by
  unfold declaredText merged
  cases given.lookup field.1 with
  | none => simp
  | some value =>
    cases value with
    | none => simp
    | some value => cases value <;> simp

/-- A field is without fault if a text that can be a delimiter is merged for it. -/
theorem fieldFaults_eq_nil :
    fieldFaults given field = [] ↔ ∃ token, merged given field = some (.str token) ∧
      Delimits token := by
  simp only [← declaredText_eq_ok, fieldFaults]
  cases declaredText given field.1 field.2 with
  | error fault => simp
  | ok token => simp [tokenFaults_eq_nil]

/-! ## 2. Seven texts -/

/-- A grammar whose delimiters are the values of a declaration. -/
def Fills (g : Grammar) (given : List (Text × Option Json)) : Prop :=
  g.fields.map (fun field => (field.1, some (.str field.2))) =
    standard.fields.map fun field => (field.1, merged given field)

/-- Seven texts are a grammar in one way. -/
theorem ofTexts?_eq_some {texts : List Text} :
    ofTexts? texts = some g ↔ texts = g.fields.map (·.2) := by
  constructor
  · intro h
    unfold ofTexts? at h
    split at h
    · cases h
      rfl
    · cases h
  · rintro rfl
    rfl

/-- The values of a declaration make a grammar exactly if all seven are texts. -/
theorem ofMembers?_eq_some : ofMembers? given = some g ↔ g.Fills given := by
  have htext : ∀ name default token, (declaredText given name default).toOption = some token ↔
      some (.str token) = merged given (name, default) := by
    intro name default token
    rw [@eq_comm _ _ (merged given (name, default)), ← declaredText_eq_ok]
    cases declaredText given name default <;> simp [Except.toOption]
  simp only [ofMembers?, Option.bind_eq_some_iff, ofTexts?_eq_some, exists_eq_right,
    mapM_eq_some_iff, Fills, fields, standard, List.map_cons, List.map_nil, List.cons.injEq, htext,
    Prod.mk.injEq, true_and]

/-- A declaration is filled by one grammar. -/
theorem Fills.unique {g' : Grammar} (h : g.Fills given) (h' : g'.Fills given) : g = g' :=
  Option.some.inj ((ofMembers?_eq_some.2 h).symm.trans (ofMembers?_eq_some.2 h'))

/-- The delimiters that open something are among those that are filled in. -/
theorem Fills.startFields (h : g.Fills given) :
    g.startFields.map (fun field => (field.1, some (.str field.2))) =
      standard.startFields.map fun field => (field.1, merged given field) := by
  simp only [Fills, fields, standard, List.map_cons, List.map_nil, List.cons.injEq, Prod.mk.injEq,
    true_and, and_true] at h
  simp only [Grammar.startFields, standard, List.map_cons, List.map_nil, List.cons.injEq,
    Prod.mk.injEq, true_and, and_true]
  tauto

/-! ## 3. Conflicts -/

/-- Two delimiters, in the order of the schema, that are the same text. -/
def Clashing (fields : List (Text × Text)) (pair : (Text × Text) × (Text × Text)) : Prop :=
  [pair.1, pair.2].Sublist fields ∧ pair.1.2 = pair.2.2

/-- The fault of two delimiters that are the same text. -/
def clash (pair : (Text × Text) × (Text × Text)) : GrammarFault :=
  .conflict pair.1.1 pair.2.1 pair.2.2

/-- The faults among fields are the clashes of pairs. -/
theorem mem_conflictsAmong {fields : List (Text × Text)} {fault : GrammarFault} :
    fault ∈ conflictsAmong fields ↔ ∃ pair, Clashing fields pair ∧ clash pair = fault := by
  induction fields with
  | nil => simp [conflictsAmong, Clashing]
  | cons field fields ih =>
    rw [conflictsAmong, List.mem_append, ih]
    constructor
    · rintro (hfirst | ⟨pair, ⟨hsub, heq⟩, rfl⟩)
      · obtain ⟨other, hother, rfl⟩ := List.mem_map.1 hfirst
        obtain ⟨hmem, heq⟩ := List.mem_filter.1 hother
        have heq : field.2 = other.2 := of_decide_eq_true heq
        refine ⟨(field, other), ⟨?_, heq⟩, by rw [clash, heq]⟩
        exact (List.singleton_sublist.2 hmem).cons_cons field
      · exact ⟨pair, ⟨hsub.cons field, heq⟩, rfl⟩
    · rintro ⟨⟨first, second⟩, ⟨hsub, heq⟩, rfl⟩
      -- the pair lies behind this delimiter, or begins with it
      rcases List.sublist_cons_iff.1 hsub with hsub | ⟨rest, hrest, hsub⟩
      · exact .inr ⟨(first, second), ⟨hsub, heq⟩, rfl⟩
      · obtain ⟨rfl, rfl⟩ := List.cons.inj hrest
        refine .inl (List.mem_map.2 ⟨second, ?_, by rw [clash, ← heq]⟩)
        exact List.mem_filter.2 ⟨List.singleton_sublist.1 hsub, decide_eq_true heq⟩

/-- Delimiters that differ in their names differ in their faults. -/
theorem nodup_conflictsAmong {fields : List (Text × Text)} (h : (fields.map (·.1)).Nodup) :
    (conflictsAmong fields).Nodup := by
  induction fields with
  | nil => simp [conflictsAmong]
  | cons field fields ih =>
    rw [List.map_cons, List.nodup_cons] at h
    obtain ⟨hfield, hfields⟩ := h
    rw [conflictsAmong, List.nodup_append']
    -- conflicts of the first field name it first, so they are no conflicts of the others
    refine ⟨?_, ih hfields, ?_⟩
    · have hsingle : (fields.filter fun other => field.2 = other.2).Nodup := hfields.of_map.filter _
      refine hsingle.map_on fun a ha b hb heq => ?_
      apply List.inj_on_of_nodup_map hfields (List.mem_of_mem_filter ha) (List.mem_of_mem_filter hb)
      exact (GrammarFault.conflict.inj heq).2.1
    · intro fault hfirst hrest
      obtain ⟨other, -, rfl⟩ := List.mem_map.1 hfirst
      obtain ⟨⟨first, second⟩, ⟨hsub, -⟩, heq⟩ := mem_conflictsAmong.1 hrest
      have hname : first.1 = field.1 := (GrammarFault.conflict.inj heq).1
      apply hfield
      rw [← hname]
      exact List.mem_map_of_mem (hsub.subset List.mem_cons_self)

/-- There is no clash exactly if the texts differ. -/
theorem conflictsAmong_eq_nil {fields : List (Text × Text)} :
    conflictsAmong fields = [] ↔ (fields.map (·.2)).Nodup := by
  induction fields with
  | nil => simp [conflictsAmong]
  | cons field fields ih =>
    rw [conflictsAmong, List.append_eq_nil_iff, ih, List.map_cons, List.nodup_cons,
      List.map_eq_nil_iff, List.filter_eq_nil_iff, List.mem_map, not_exists]
    simp only [decide_eq_true_eq, not_and, eq_comm (a := field.2)]

/-- There is no unknown name if every member is a field. -/
theorem unknownNames_eq_nil :
    unknownNames given = [] ↔ ∀ m ∈ given, m.1 ∈ standard.fields.map (·.1) := by
  simp [unknownNames, List.filter_eq_nil_iff]

/-! ## 4. All faults -/

/-- The members of a declaration that is accepted. Only delimiters are named, and what is given for
one is a text that can be a delimiter; the values of those that open something differ, and a
standard one differs as well from one that is given. -/
structure Acceptable (given : List (Text × Option Json)) : Prop where
  known : ∀ m ∈ given, m.1 ∈ standard.fields.map (·.1)
  tokens : ∀ name value, given.lookup name = some value →
    ∃ token, value = some (.str token) ∧ Delimits token
  apart : (standard.startFields.map (merged given)).Nodup

/-- What is found at a delimiter is its own fault. -/
theorem of_mem_fieldFaults {fault : GrammarFault} (h : fault ∈ fieldFaults given field) :
    fault.path = some field.1 ∧ fault.isConflict = false := by
  -- what is wrong with a text names the field; so does a value that is no text, or none at all
  have htoken : ∀ token, fault ∈ tokenFaults field.1 token →
      fault.path = some field.1 ∧ fault.isConflict = false := by
    intro token hmem
    simp only [tokenFaults, List.mem_append, List.mem_ite_nil_right, List.mem_singleton] at hmem
    rcases hmem with (⟨-, rfl⟩ | ⟨-, rfl⟩) | ⟨-, rfl⟩ <;> exact ⟨rfl, rfl⟩
  unfold fieldFaults declaredText at h
  cases hlookup : given.lookup field.1 with
  | none => exact htoken field.2 (by simpa only [hlookup] using h)
  | some value =>
    rw [hlookup] at h
    cases value with
    | none =>
      rw [List.mem_singleton.1 h]
      exact ⟨rfl, rfl⟩
    | some value =>
      cases value with
      | str token => exact htoken token h
      | _ =>
        rw [List.mem_singleton.1 h]
        exact ⟨rfl, rfl⟩

/-- If all values are texts, the faults of single delimiters come first and those of pairs last. -/
theorem memberFaults_eq (h : g.Fills given) :
    memberFaults given = standard.fields.flatMap (fieldFaults given) ++
      (if unknownNames given = [] then [] else [.unknown (unknownNames given)]) ++
      conflictsAmong g.startFields := by
  rw [memberFaults, ofMembers?_eq_some.2 h]
  cases unknownNames given <;> rfl

/-- A declaration is without fault if its fields are, its names are known and nothing clashes. -/
theorem memberFaults_eq_nil (h : g.Fills given) :
    memberFaults given = [] ↔ (∀ field ∈ standard.fields, fieldFaults given field = []) ∧
      (∀ m ∈ given, m.1 ∈ standard.fields.map (·.1)) ∧ (g.startFields.map (·.2)).Nodup := by
  simp only [memberFaults_eq h, List.append_eq_nil_iff, List.flatMap_eq_nil_iff, ite_eq_left_iff,
    List.cons_ne_nil, imp_false, Decidable.not_not, unknownNames_eq_nil,
    conflictsAmong_eq_nil, and_assoc]

/-- The conflicts among the faults are those among the fields that open something. -/
theorem filter_memberFaults (h : g.Fills given) :
    (memberFaults given).filter (·.isConflict) = conflictsAmong g.startFields := by
  -- faults of fields are never conflicts, and faults of the openers are nothing else
  have hfields : (standard.fields.flatMap (fieldFaults given)).filter (·.isConflict) = [] := by
    rw [List.filter_eq_nil_iff]
    intro fault hfault
    obtain ⟨field, -, hmem⟩ := List.mem_flatMap.1 hfault
    rw [(of_mem_fieldFaults hmem).2]
    exact Bool.false_ne_true
  have hconflicts : (conflictsAmong g.startFields).filter (·.isConflict) =
      conflictsAmong g.startFields := by
    rw [List.filter_eq_self]
    intro fault hfault
    obtain ⟨pair, -, rfl⟩ := mem_conflictsAmong.1 hfault
    rfl
  rw [memberFaults_eq h, List.filter_append, List.filter_append, hfields, hconflicts]
  split <;> rfl

/-- A declaration is accepted as the grammar of its values, or is refused for its faults. -/
theorem validate_members :
    validate (.members given) = .ok g ↔ g.Fills given ∧ memberFaults given = [] := by
  rw [validate, ← ofMembers?_eq_some]
  cases ofMembers? given <;> cases memberFaults given <;> simp

/-- Every field of an acceptable declaration has a text that can be a delimiter. -/
theorem Acceptable.exists_token (h : Acceptable given) (hfield : field ∈ standard.fields) :
    ∃ token, merged given field = some (.str token) ∧ Delimits token := by
  unfold merged
  cases hlookup : given.lookup field.1 with
  | none => exact ⟨field.2, rfl, delimits_standard field hfield⟩
  | some value => exact h.tokens field.1 value hlookup

/-- Seven texts make a grammar. -/
theorem exists_fills
    (h : ∀ field ∈ standard.fields, ∃ token, merged given field = some (.str token)) :
    ∃ g : Grammar, g.Fills given := by
  simp only [fields, List.forall_mem_cons, List.not_mem_nil, false_imp_iff, implies_true,
    and_true] at h
  obtain ⟨⟨a, ha⟩, ⟨b, hb⟩, ⟨c, hc⟩, ⟨d, hd⟩, ⟨e, he⟩, ⟨f, hf⟩, ⟨k, hk⟩⟩ := h
  refine ⟨⟨a, b, c, d, e, f, k⟩, ?_⟩
  simp only [Fills, fields, List.map_cons, List.map_nil, ha, hb, hc, hd, he, hf, hk]

/-- The values of the delimiters that open something differ exactly if their texts do. -/
theorem Fills.nodup_iff (h : g.Fills given) :
    (standard.startFields.map (merged given)).Nodup ↔ (g.startFields.map (·.2)).Nodup := by
  have hvalues : standard.startFields.map (merged given) =
      (g.startFields.map (·.2)).map fun token => some (.str token) := by
    have := congrArg (List.map Prod.snd) h.startFields
    simpa [List.map_map, Function.comp_def] using this.symm
  rw [hvalues, List.nodup_map_iff]
  intro s t heq
  exact Json.str.inj (Option.some.inj heq)

/-- A declaration is acceptable if it loads. -/
theorem acceptable_iff : Acceptable given ↔ ∃ g, validate (.members given) = .ok g := by
  simp only [validate_members]
  constructor
  · intro h
    obtain ⟨g, hg⟩ := exists_fills fun field hfield =>
      (h.exists_token hfield).imp fun token htoken => htoken.1
    refine ⟨g, hg, (memberFaults_eq_nil hg).2
      ⟨fun field hfield => ?_, h.known, hg.nodup_iff.1 h.apart⟩⟩
    exact fieldFaults_eq_nil.2 (h.exists_token hfield)
  · rintro ⟨g, hg, hfaults⟩
    obtain ⟨hfields, hknown, hapart⟩ := (memberFaults_eq_nil hg).1 hfaults
    refine ⟨hknown, fun name value hlookup => ?_, hg.nodup_iff.2 hapart⟩
    -- what is given under a name is what is checked for the delimiter of this name
    obtain ⟨before, behind, hgiven, -⟩ := List.lookup_eq_some_iff.1 hlookup
    have hname := hknown (name, value) (by rw [hgiven]; simp)
    obtain ⟨field, hfield, rfl⟩ := List.mem_map.1 hname
    have htoken := fieldFaults_eq_nil.1 (hfields field hfield)
    rw [merged, hlookup] at htoken
    exact htoken

/-! ## 5. Declaring again -/

/-- The value of a grammar, with a member for each delimiter. -/
def toJson (g : Grammar) : Json := .obj (g.fields.map fun field => (field.1, .str field.2))

/-- A grammar that can be declared. -/
structure Proper (g : Grammar) : Prop where
  delimits : ∀ field ∈ g.fields, Delimits field.2
  apart : (g.startFields.map (·.2)).Nodup

/-- The standard grammar is proper. -/
theorem proper_standard : standard.Proper := ⟨delimits_standard, conflictsAmong_eq_nil.1 rfl⟩

/-- Each delimiter of a grammar is the value of the one of this name. -/
theorem Fills.exists_value (h : g.Fills given) {own : Text × Text} (hown : own ∈ g.fields) :
    ∃ field ∈ standard.fields, field.1 = own.1 ∧ merged given field = some (.str own.2) := by
  have hvalue : (own.1, some (Json.str own.2)) ∈
      standard.fields.map fun field => (field.1, merged given field) := by
    rw [← h]
    exact List.mem_map_of_mem hown
  obtain ⟨field, hfield, heq⟩ := List.mem_map.1 hvalue
  exact ⟨field, hfield, Prod.mk.inj heq⟩

/-- Every field of the declaration is one of the grammar that fills it. -/
theorem Fills.exists_own (h : g.Fills given) (hfield : field ∈ standard.fields) :
    ∃ own ∈ g.fields, merged given field = some (.str own.2) := by
  have hvalue : (field.1, merged given field) ∈ g.fields.map fun own =>
      (own.1, some (.str own.2)) := by
    rw [h]
    exact List.mem_map_of_mem hfield
  obtain ⟨own, hown, heq⟩ := List.mem_map.1 hvalue
  exact ⟨own, hown, (Prod.mk.inj heq).2.symm⟩

/-- A grammar that loads is proper. -/
theorem proper_of_validate (h : validate (.members given) = .ok g) : g.Proper := by
  obtain ⟨hg, hfaults⟩ := validate_members.1 h
  obtain ⟨hfields, -, hapart⟩ := (memberFaults_eq_nil hg).1 hfaults
  refine ⟨fun own hown => ?_, hapart⟩
  obtain ⟨field, hfield, -, hvalue⟩ := hg.exists_value hown
  obtain ⟨token, htoken, hdelimits⟩ := fieldFaults_eq_nil.1 (hfields field hfield)
  rw [hvalue] at htoken
  rwa [Json.str.inj (Option.some.inj htoken)]

/-- A grammar fills in its own value. -/
theorem fills_self (g : Grammar) : g.Fills (g.fields.map fun own => (own.1, some (.str own.2))) :=
  rfl

/-- A proper grammar loads again from what is written of it. -/
theorem Proper.validate_toJson (h : g.Proper) : validate (.ofJson g.toJson) = .ok g := by
  refine validate_members.2 ⟨fills_self g, (memberFaults_eq_nil (fills_self g)).2 ⟨?_, ?_, h.apart⟩⟩
  · intro field hfield
    obtain ⟨own, hown, hvalue⟩ := (fills_self g).exists_own hfield
    exact fieldFaults_eq_nil.2 ⟨own.2, hvalue, h.delimits own hown⟩
  · have hnames : g.fields.map (·.1) = standard.fields.map (·.1) := rfl
    intro m hm
    obtain ⟨own, hown, rfl⟩ := List.mem_map.1 hm
    rw [← hnames]
    exact List.mem_map_of_mem hown

end Grammar

/-! ## 6. Declarations -/

/-- The members of a declaration; one that is left out has none. -/
def GrammarDeclaration.given : GrammarDeclaration → List (Text × Option Json)
  | .members given => given
  | .absent | .other _ => []

/-- A declaration that is accepted: none at all, or one with members that can be accepted. -/
def GrammarDeclaration.Acceptable : GrammarDeclaration → Prop
  | .absent => True
  | .members given => Grammar.Acceptable given
  | .other _ => False

namespace Grammar

/-- Validating and loading give one grammar. -/
theorem validate_eq_ok_iff {declaration : GrammarDeclaration} {g : Grammar} :
    validate declaration = .ok g ↔ load declaration = .ok g := by
  unfold load
  cases validate declaration <;> simp [Except.mapError]

/-- They give the same faults. -/
theorem validate_eq_error_iff {declaration : GrammarDeclaration} {faults : List GrammarFault} :
    validate declaration = .error faults ↔ load declaration = .error ⟨faults⟩ := by
  unfold load
  cases validate declaration <;> simp [Except.mapError]

/-- A declaration is acceptable if it is valid. -/
theorem acceptable_iff_validate (declaration : GrammarDeclaration) :
    declaration.Acceptable ↔ ∃ g, validate declaration = .ok g := by
  cases declaration with
  | absent => exact ⟨fun _ => ⟨standard, rfl⟩, fun _ => trivial⟩
  | members given => exact acceptable_iff
  | other value => exact ⟨False.elim, fun ⟨g, hg⟩ => by cases hg⟩

/-- What is accepted are the values of the declaration, and they can be declared. -/
theorem of_validate {declaration : GrammarDeclaration} {g : Grammar}
    (h : validate declaration = .ok g) :
    g.Fills declaration.given ∧ g.Proper := by
  cases declaration with
  | absent =>
    cases h
    exact ⟨rfl, proper_standard⟩
  | members given => exact ⟨(validate_members.1 h).1, proper_of_validate h⟩
  | other value => cases h

/-- What is refused is refused for something. The faults of pairs are those of the delimiters that
open something and are the same text. -/
theorem faults_of_validate {declaration : GrammarDeclaration} {faults : List GrammarFault}
    (h : validate declaration = .error faults) :
    faults ≠ [] ∧ ∀ g : Grammar, g.Fills declaration.given →
      faults.filter (·.isConflict) = conflictsAmong g.startFields := by
  cases declaration with
  | absent => cases h
  | members given =>
    have hfaults : faults = memberFaults given := by
      unfold validate at h
      dsimp only at h
      split at h
      · cases h
      · exact (Except.error.inj h).symm
    refine ⟨fun hnil => ?_, fun g hg => by rw [hfaults]; exact filter_memberFaults hg⟩
    -- without a fault all values are texts, so there would be a grammar
    rw [hfaults] at hnil h
    have hfields := hnil
    rw [memberFaults, List.append_eq_nil_iff, List.append_eq_nil_iff,
      List.flatMap_eq_nil_iff] at hfields
    obtain ⟨g, hg⟩ := exists_fills fun field hfield =>
      (fieldFaults_eq_nil.1 (hfields.1.1 field hfield)).imp fun token htoken => htoken.1
    rw [validate_members.2 ⟨hg, hnil⟩] at h
    cases h
  | other value =>
    cases h
    refine ⟨List.cons_ne_nil _ _, fun g hg => ?_⟩
    obtain rfl : g = standard := hg.unique rfl
    rfl

/-- A pair of equal texts is told by its fault. -/
theorem bijOn_clash (fields : List (Text × Text)) :
    Set.BijOn clash {pair | Clashing fields pair} {fault | fault ∈ conflictsAmong fields} := by
  refine ⟨fun pair hpair => mem_conflictsAmong.2 ⟨pair, hpair, rfl⟩, ?_, fun fault hfault => ?_⟩
  · rintro ⟨⟨first, token⟩, second⟩ ⟨-, heq⟩ ⟨⟨first', token'⟩, second'⟩ ⟨-, heq'⟩ hclash
    obtain ⟨hfirst, hsecond, htoken⟩ := GrammarFault.conflict.inj hclash
    obtain rfl : second = second' := Prod.ext hsecond htoken
    exact Prod.ext (Prod.ext hfirst (heq.trans heq'.symm)) rfl
  · obtain ⟨pair, hpair, rfl⟩ := mem_conflictsAmong.1 hfault
    exact ⟨pair, hpair, rfl⟩

/-- **Exactly the valid declarations are accepted.** A declaration is accepted if it is left out, or
if it has members, names delimiters only, gives each of them a text that can be a delimiter, and
leaves the four that open something different, the standard ones filled in. What comes out has the
value given for each delimiter or the standard one, and is accepted again as it is. Checking without
loading accepts the same and finds the same faults. There is a fault at least; and if all seven
values are texts, the faults of pairs are one to one those pairs of the four that are the same. -/
theorem load_acceptable (declaration : GrammarDeclaration) :
    (declaration.Acceptable ↔ ∃ g, load declaration = .ok g) ∧
    (∀ g, load declaration = .ok g →
      g.Fills declaration.given ∧ load (.ofJson g.toJson) = .ok g ∧
        (load (.ofJson g.toJson)).map key = .ok g.key) ∧
    (∀ g, validate declaration = .ok g ↔ load declaration = .ok g) ∧
    (∀ faults, validate declaration = .error faults ↔ load declaration = .error ⟨faults⟩) ∧
    ∀ faults, load declaration = .error ⟨faults⟩ → faults ≠ [] ∧
      ∀ g : Grammar, g.Fills declaration.given →
        Set.BijOn clash {pair | Clashing g.startFields pair}
          {fault | fault ∈ faults ∧ fault.isConflict} ∧
          (faults.filter (·.isConflict)).Nodup := by
  refine ⟨?_, fun g hload => ?_, fun g => validate_eq_ok_iff, fun faults => validate_eq_error_iff,
    fun faults hload => ?_⟩
  · simp only [← validate_eq_ok_iff]
    exact acceptable_iff_validate declaration
  · obtain ⟨hfills, hproper⟩ := of_validate (validate_eq_ok_iff.2 hload)
    have hagain : load (.ofJson g.toJson) = .ok g := validate_eq_ok_iff.1 hproper.validate_toJson
    exact ⟨hfills, hagain, by rw [hagain]; rfl⟩
  · obtain ⟨hne, hconflicts⟩ := faults_of_validate (validate_eq_error_iff.2 hload)
    refine ⟨hne, fun g hfills => ?_⟩
    have hnames : (g.startFields.map (·.1)).Nodup := by
      rw [show g.startFields.map (·.1) = standard.startFields.map (·.1) from rfl]
      decide
    have hset : {fault | fault ∈ faults ∧ fault.isConflict = true} =
        {fault | fault ∈ conflictsAmong g.startFields} := by
      ext fault
      rw [← hconflicts g hfills]
      exact List.mem_filter.symm
    rw [hset, hconflicts g hfills]
    exact ⟨bijOn_clash g.startFields, nodup_conflictsAmong hnames⟩

/-- Two delimiters that are the same as a standard one, one that is reserved, and a name that is
none. -/
def clashing : GrammarDeclaration :=
  .members [(units "size", some .null), (units "variantEnd", some (.str (units "|"))),
    (units "wildcardWrap", some (.str (units "\x7b"))),
    (units "wrapStart", some (.str (units "\x7b")))]

/-- The faults of this declaration. -/
def clashingFaults : List GrammarFault :=
  [.reserved (units "variantEnd") (units "|"), .unknown [units "size"],
    .conflict (units "variantStart") (units "wrapStart") (units "\x7b"),
    .conflict (units "variantStart") (units "wildcardWrap") (units "\x7b"),
    .conflict (units "wrapStart") (units "wildcardWrap") (units "\x7b")]

/-- One delimiter in place of a standard one. -/
def angular : GrammarDeclaration := .members [(units "variantStart", some (.str (units "<")))]

/-- Conflicts and an empty delimiter are faults; angular delimiters are acceptable. -/
theorem load_acceptable_of_clashing :
    (load clashing = .error ⟨clashingFaults⟩ ∧ ¬clashing.Acceptable ∧
      ∃ g : Grammar, g.Fills clashing.given ∧
        Set.BijOn clash {pair | Clashing g.startFields pair}
          {fault | fault ∈ clashingFaults ∧ fault.isConflict} ∧
        (clashingFaults.filter (·.isConflict)).Nodup) ∧
    angular.Acceptable ∧ ∃ g : Grammar, load angular = .ok g ∧ g.variantStart = units "<" ∧
      g.wildcardWrap = units "__" ∧ load (.ofJson g.toJson) = .ok g := by
  have hrefused : load clashing = .error ⟨clashingFaults⟩ := rfl
  have haccepted : load angular = .ok { standard with variantStart := units "<" } := rfl
  obtain ⟨hiff, -, -, -, hfaults⟩ := load_acceptable clashing
  obtain ⟨hiff', hvalues, -⟩ := load_acceptable angular
  refine ⟨⟨hrefused, fun h => ?_, ?_⟩, hiff'.2 ⟨_, haccepted⟩, _, haccepted, rfl, rfl,
    (hvalues _ haccepted).2.1⟩
  · obtain ⟨g, hg⟩ := hiff.1 h
    rw [hrefused] at hg
    cases hg
  · have hfills : Fills { standard with
        variantEnd := units "|", wildcardWrap := units "\x7b", wrapStart := units "\x7b" }
        clashing.given := rfl
    exact ⟨_, hfills, (hfaults _ hrefused).2 _ hfills⟩

end Grammar

end PromptTemplate
