/-
`Grammar.lean` -- the delimiters of the template language.
-/
import PromptTemplate.Text.Quoted

set_option autoImplicit false

namespace PromptTemplate

/-- The seven delimiters. -/
structure Grammar where
  variantStart : Text
  variantEnd : Text
  variableStart : Text
  variableEnd : Text
  wrapStart : Text
  wrapEnd : Text
  wildcardWrap : Text
  deriving DecidableEq, Repr

namespace Grammar

/-- The delimiters of a template that declares none. -/
def standard : Grammar where
  variantStart := units "\x7b"
  variantEnd := units "\x7d"
  variableStart := units "$\x7b"
  variableEnd := units "\x7d"
  wrapStart := units "%\x7b"
  wrapEnd := units "\x7d"
  wildcardWrap := units "__"

/-- The delimiters with their names, in the order of the schema. -/
def fields (g : Grammar) : List (Text × Text) :=
  [(units "variantStart", g.variantStart), (units "variantEnd", g.variantEnd),
    (units "variableStart", g.variableStart), (units "variableEnd", g.variableEnd),
    (units "wrapStart", g.wrapStart), (units "wrapEnd", g.wrapEnd),
    (units "wildcardWrap", g.wildcardWrap)]

/-- The delimiters that open a directive anywhere. -/
def openers (g : Grammar) : List Text :=
  [g.variantStart, g.variableStart, g.wrapStart, g.wildcardWrap]

/-- The delimiters that close a block, each once. -/
def closers (g : Grammar) : List Text := [g.variantEnd, g.variableEnd, g.wrapEnd].eraseDups

/-- One text for each choice of delimiters: the list of them, quoted. -/
def key (g : Grammar) : Text :=
  units "[" ++ Text.join (units ",") (g.fields.map fun field => field.2.quote) ++ units "]"

end Grammar

end PromptTemplate
