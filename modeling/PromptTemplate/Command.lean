/-
`Command.lean` -- the trees that templates are read into.

A command renders to text. The three kinds of node that can rotate through their
choices (variant, wildcard and probability) carry a label: it says which source
the node was read from and where in it the node stands, and so tells two nodes
apart that read the same. Counters are kept by label, outside the tree.
-/
import PromptTemplate.Number
import PromptTemplate.Pattern

set_option autoImplicit false

namespace PromptTemplate

/-! ## 1. Sampling -/

/-- How a block chooses: by weighted draw, by exhausting the choices in order, or
by rotating through them. -/
inductive Sampling
  | random
  | combinatorial
  | cyclical
  deriving DecidableEq, Repr

namespace Sampling

/-- All methods, in the order in which messages list them. -/
def all : List Sampling := [random, combinatorial, cyclical]

/-- The name of a method. -/
def name : Sampling → Text
  | random => units "random"
  | combinatorial => units "combinatorial"
  | cyclical => units "cyclical"

/-- The names of all methods, as messages list them. -/
def names : Text := Text.join (units ", ") (all.map name)

/-- The method with this name. -/
def ofName? (t : Text) : Option Sampling := all.find? fun m => m.name = t

/-- The marker of a method in a template. -/
def marker : Sampling → CodeUnit
  | random => unit '~'
  | combinatorial => unit '!'
  | cyclical => unit '@'

/-- The method with this marker. -/
def ofMarker? (u : CodeUnit) : Option Sampling := all.find? fun m => m.marker = u

end Sampling

/-! ## 2. Labels -/

/-- What a node was made from: a template, by the number of its reading; a value of a
wildcard, kept in a numbered table; or a tree put together by hand. A text that is read
twice gives two trees, and no node of the one is a node of the other. -/
inductive Origin
  | template (number : Nat)
  | candidate (table : Nat) (value : Text)
  | built (index : Nat)
  deriving DecidableEq, Repr

/-- The identity of a node: its origin and its place there. Inside the value of
an inline variable the place goes on with the offsets in that value. -/
structure Label where
  place : List Nat
  origin : Origin
  deriving DecidableEq, Repr

/-! ## 3. Trees -/

/-- An option with its relative weight. -/
structure Weighted (α : Type) where
  weight : Rat
  value : α

/-- The test of one branch: the variable to test, or the text so far when there is
none, and the expression with its source. -/
structure Guard where
  key : Option Text
  source : Text
  pattern : Pattern

/-- A branch taken when its guard holds. -/
structure Guarded (α : Type) where
  guard : Guard
  value : α

/-- The name of a wildcard: fixed, or itself rendered. -/
inductive WildcardName (α : Type)
  | fixed (name : Text)
  | rendered (command : α)

/-- A node of a template. -/
inductive Command
  | literal (text : Text)
  | comment (text : Text)
  | sequence (children : List Command)
  | variant (label : Label) (options : List (Weighted Command)) (least most : Nat)
      (separator : Text) (sampling : Option Sampling)
  | wildcard (label : Label) (name : WildcardName Command) (inlined : List (Text × Command))
      (sampling : Option Sampling)
  | wrap (wrapper inner : Command)
  | probability (label : Label) (chance : Rat) (value : Command) (sampling : Option Sampling)
  | condition (branches : List (Guarded Command)) (otherwise : Command)
  | access (name : Text) (fallback : Option Command)
  | assignment (name : Text) (value : Command) (overwrite immediate : Bool)

instance : Inhabited Command := ⟨.literal []⟩

/-! ## 4. Inline variables -/

/-- The names of a node's own fields. One that is only there when it is given counts
when it is. -/
def Command.fields (command : Command) : List Text :=
  let names :=
    match command with
    | .literal _ | .comment _ => ["type", "text"]
    | .sequence _ => ["type", "children"]
    | .variant _ _ _ _ _ sampling =>
      ["type", "options", "minBound", "maxBound", "separator"] ++ sampling.toList.map fun _ =>
        "samplingMethod"
    | .wildcard _ _ _ sampling =>
      ["type", "name", "variables"] ++ sampling.toList.map fun _ => "samplingMethod"
    | .wrap _ _ => ["type", "wrapper", "inner"]
    | .probability _ _ _ sampling =>
      ["type", "chance", "value"] ++ sampling.toList.map fun _ => "samplingMethod"
    | .condition _ _ => ["type", "conditions", "elseValue"]
    | .access _ fallback => ["type", "name"] ++ fallback.toList.map fun _ => "defaultValue"
    | .assignment _ _ _ _ => ["type", "name", "value", "overwrite", "immediate"]
  names.map units

/-- The one name under which a wildcard passes nothing on: given to a record, it says
what the record inherits from and makes no entry of it. -/
def unboundName : Text := units "__proto__"

/-- Sets an entry. A name that is there already keeps its place and takes the new value. -/
def setVariable {α : Type} (name : Text) (value : α) (entries : List (Text × α)) :
    List (Text × α) :=
  if entries.any (fun v => v.1 = name) then
    entries.map fun v => if v.1 = name then (name, value) else v
  else entries ++ [(name, value)]

/-- A record of inline variables that is being filled: its own entries, and the tree that
it inherits from, if it was given one. -/
structure InlineRecord where
  entries : List (Text × Command)
  inherited : Option Command

namespace InlineRecord

/-- No variable set yet. -/
def empty : InlineRecord := ⟨[], none⟩

/-- Whether setting a name is refused. Nodes can not be changed, and neither can what a
record inherits from one: a field of it takes no entry of its name beside it. -/
def refuses (record : InlineRecord) (name : Text) : Bool :=
  !record.entries.any (fun v => v.1 = name) && record.inherited.any fun node =>
    node.fields.contains name

/-- Gives a name a value, unless that is refused. -/
def set (name : Text) (value : Command) (record : InlineRecord) : Option InlineRecord :=
  if name = unboundName then some { record with inherited := some value }
  else if record.refuses name then none
  else some { record with entries := setVariable name value record.entries }

/-- How the record is called where a name is refused. An entry in place of what says so
otherwise makes it a nameless one. -/
def title (record : InlineRecord) : Text :=
  if record.entries.any fun v => v.1 = units "constructor" || v.1 = units "toString" then
    units "[object Object]"
  else units "#<Object>"

end InlineRecord

end PromptTemplate
