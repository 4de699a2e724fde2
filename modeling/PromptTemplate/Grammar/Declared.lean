/-
`Declared.lean` -- grammars as they are declared, and what can be wrong with them.

A declaration names some of the delimiters; the others keep their standard value.
All faults are found at once. Delimiters are looked at one by one, then names that
are none, and last the four delimiters that open something, which must differ. That
last check needs all seven to be texts.
-/
import PromptTemplate.Grammar
import PromptTemplate.Json

set_option autoImplicit false

namespace PromptTemplate

/-- What is given for a grammar: nothing, members, of which some may have no value,
or something without members. -/
inductive GrammarDeclaration
  | absent
  | members (given : List (Text × Option Json))
  | other (value : Json)

/-- A value as the declaration of a grammar. -/
def GrammarDeclaration.ofJson : Json → GrammarDeclaration
  | .obj given => .members (given.map fun m => (m.1, some m.2))
  | value => .other value

/-- The name of a kind of value. -/
def Json.kind : Json → Text
  | null => units "null"
  | bool _ => units "boolean"
  | num _ => units "number"
  | str _ => units "string"
  | arr _ => units "array"
  | obj _ => units "object"

/-! ## 1. Faults -/

/-- A fault of a declaration. -/
inductive GrammarFault
  | notMembers (kind : Text)
  | missing (name : Text)
  | notText (name kind : Text)
  | empty (name : Text)
  | blank (name : Text)
  | reserved (name token : Text)
  | unknown (names : List Text)
  | conflict (first second : Text) (token : Text)
  deriving DecidableEq, Repr

namespace GrammarFault

/-- The name at fault, if it is one. -/
def path : GrammarFault → Option Text
  | notMembers _ | unknown _ => none
  | missing name | notText name _ | empty name | blank name | reserved name _ => some name
  | conflict _ second _ => some second

/-- The class of the fault. -/
def code : GrammarFault → Text
  | notMembers _ | missing _ | notText _ _ => units "invalid_type"
  | empty _ => units "too_small"
  | blank _ | reserved _ _ | conflict _ _ _ => units "custom"
  | unknown _ => units "unrecognized_keys"

/-- The fault in words. -/
def message : GrammarFault → Text
  | notMembers kind => units "Expected object, received " ++ kind
  | missing _ => units "Required"
  | notText _ kind => units "Expected string, received " ++ kind
  | empty _ => units "Delimiter must not be empty"
  | blank _ => units "Delimiter must not contain whitespace"
  | reserved _ token => units "Delimiter \"" ++ token ++ units "\" is reserved by the grammar"
  | unknown names =>
    units "Unrecognized key(s) in object: "
      ++ Text.join (units ", ") (names.map fun name => units "'" ++ name ++ units "'")
  | conflict first second token =>
    second ++ units " conflicts with " ++ first ++ units ": both are \"" ++ token ++ units "\""

/-- The fault with the name at fault in front. -/
def line (fault : GrammarFault) : Text :=
  fault.path.getD (units "(root)") ++ units ": " ++ fault.message

end GrammarFault

/-- A grammar that is refused, with all its faults. -/
structure ConfigurationError where
  faults : List GrammarFault
  deriving DecidableEq, Repr

namespace ConfigurationError

/-- The error in words. -/
def message (e : ConfigurationError) : Text :=
  units "Invalid grammar configuration: " ++ Text.ofNat e.faults.length ++
    units " validation error(s)"

/-- The error with each fault on a line of its own. -/
def report (e : ConfigurationError) : Text :=
  Text.join [10] (units "Grammar configuration validation failed:"
    :: e.faults.map fun fault => units "  - " ++ fault.line)

end ConfigurationError

namespace Grammar

/-! ## 2. Checking a declaration -/

/-- The punctuation that no delimiter may take. -/
def reserved : List Text := [units "|", units "$$", units "::", units "#", units "*"]

/-- The grammar of seven delimiters in the order of `Grammar.fields`. -/
def ofTexts? : List Text → Option Grammar
  | [variantStart, variantEnd, variableStart, variableEnd, wrapStart, wrapEnd, wildcardWrap] =>
    some ⟨variantStart, variantEnd, variableStart, variableEnd, wrapStart, wrapEnd, wildcardWrap⟩
  | _ => none

/-- The text declared for a delimiter; the standard one when it is not named. -/
def declaredText (given : List (Text × Option Json)) (name standard : Text) :
    Except GrammarFault Text :=
  match given.lookup name with
  | none => .ok standard
  | some none => .error (.missing name)
  | some (some (.str token)) => .ok token
  | some (some other) => .error (.notText name other.kind)

/-- What is wrong with the text of a delimiter. -/
def tokenFaults (name token : Text) : List GrammarFault :=
  (if token.isEmpty then [.empty name] else [])
    ++ (if token.any CodeUnit.isBlank then [.blank name] else [])
    ++ (if reserved.contains token then [.reserved name token] else [])

/-- What is wrong with what is declared for a delimiter. -/
def fieldFaults (given : List (Text × Option Json)) (field : Text × Text) : List GrammarFault :=
  match declaredText given field.1 field.2 with
  | .error fault => [fault]
  | .ok token => tokenFaults field.1 token

/-- The members that name no delimiter, in the order of the declaration. -/
def unknownNames (given : List (Text × Option Json)) : List Text :=
  (given.map (·.1)).filter fun name => !(standard.fields.map (·.1)).contains name

/-- The pairs of equal delimiters in a list. -/
def conflictsAmong : List (Text × Text) → List GrammarFault
  | [] => []
  | (first, token) :: rest =>
    (rest.filter fun field => token = field.2).map (fun field => .conflict first field.1 token)
      ++ conflictsAmong rest

/-- The delimiters that open something, with their names. -/
def startFields (g : Grammar) : List (Text × Text) :=
  [(units "variantStart", g.variantStart), (units "variableStart", g.variableStart),
    (units "wrapStart", g.wrapStart), (units "wildcardWrap", g.wildcardWrap)]

/-- The grammar whose texts are declared, if all seven are texts. -/
def ofMembers? (given : List (Text × Option Json)) : Option Grammar :=
  (standard.fields.mapM fun field => (declaredText given field.1 field.2).toOption).bind ofTexts?

/-- All that is wrong with the members of a declaration. -/
def memberFaults (given : List (Text × Option Json)) : List GrammarFault :=
  standard.fields.flatMap (fieldFaults given)
    ++ (match unknownNames given with
      | [] => []
      | names => [.unknown names])
    ++ (match ofMembers? given with
      | none => []
      | some g => conflictsAmong g.startFields)

/-- The grammar of a declaration, or everything that is wrong with it. -/
def validate : GrammarDeclaration → Except (List GrammarFault) Grammar
  | .absent => .ok standard
  | .other value => .error [.notMembers value.kind]
  | .members given =>
    match ofMembers? given, memberFaults given with
    | some g, [] => .ok g
    | _, faults => .error faults

/-- The grammar of a declaration, or the error that refuses it. -/
def load (declaration : GrammarDeclaration) : Except ConfigurationError Grammar :=
  (validate declaration).mapError fun faults => ⟨faults⟩

end Grammar

end PromptTemplate
