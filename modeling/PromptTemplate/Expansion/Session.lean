/-
`Session.lean` -- what rendering reads, and what it leaves behind.

The environment stays the same during a run. The session goes through it: how
many draws were taken, where the rotating nodes stand, which wildcard values were
parsed, which wildcards were asked for, and what there is to report.
-/
import PromptTemplate.Expansion.Counters
import PromptTemplate.Expansion.Random
import PromptTemplate.Expansion.Scope
import PromptTemplate.Template.Reader
import PromptTemplate.Wildcard.LoadError

set_option autoImplicit false

namespace PromptTemplate

/-! ## 1. Reading only -/

/-- What a wildcard without values contributes. The automatic choice is an error
when values are drawn at random and nothing otherwise. -/
inductive EmptyPolicy
  | automatic
  | error
  | empty
  deriving DecidableEq, Repr

/-- Whether a wildcard without values is an error under a sampling method. -/
def EmptyPolicy.refuses : EmptyPolicy → Sampling → Bool
  | automatic, method => method == .random
  | error, _ => true
  | empty, _ => false

/-- Everything that a run reads. `depthLimit` bounds how deep rendering goes into
itself. -/
structure Environment where
  grammar : Grammar
  source : Source
  round : Rounding
  policy : EmptyPolicy
  resolve : Text → Except LoadError (List Text)
  depthLimit : Nat

/-- How deep rendering may go in the program. -/
def defaultDepthLimit : Nat := 5000

/-! ## 2. What can go wrong -/

/-- Why nothing is rendered. -/
inductive WalkError
  | unknownVariable (name : Text)
  | unresolved (wildcard : Text) (method : Sampling)
  | candidate (error : ParseError)
  | load (error : LoadError)
  | drawOutOfRange
  | tooDeep
  deriving DecidableEq, Repr

/-- The error in words. -/
def WalkError.message : WalkError → Text
  | unknownVariable name =>
    units "Variable \"" ++ name ++ units "\" is not bound and has no default"
  | unresolved wildcard method =>
    units "Wildcard \"" ++ wildcard ++ units "\" has no values (sampling method: " ++
      method.name ++ units ")"
  | candidate error => error.message
  | load error => error.message
  | drawOutOfRange => units "Cannot read properties of undefined (reading 'type')"
  | tooDeep => units "Maximum call stack size exceeded"

/-! ## 3. What goes through -/

/-- Something to report. -/
inductive Notice
  | builtParser (key : Text)
  | emptyWildcard (wildcard : Text) (method : Sampling)
  | generated (method : Sampling) (requested : Nat) (generated : Nat)
  deriving DecidableEq, Repr

/-- The trees of wildcard values, in the order in which they were first needed. The
number of the table goes into the labels of its trees, so equal values of two
tables rotate apart. -/
structure CandidateTable where
  number : Nat
  trees : List (Text × Command)

/-- What a run leaves behind; the lists have the latest entry first. Readings of templates
and tables of wildcard values are numbered together, and `numbered` is the first number that
is still free. -/
structure Session where
  drawn : Nat
  counters : Counters
  candidates : CandidateTable
  asked : List Text
  notices : List Notice
  numbered : Nat

/-- Before anything was done, with an empty table of that number. -/
def Session.fresh (table : Nat) : Session := ⟨0, .empty, ⟨table, []⟩, [], [], table + 1⟩

namespace Session

/-- Reads a template under the next number, so each reading makes nodes of its own. -/
def parseTemplate (g : Grammar) (source : Text) (s : Session) :
    Except ParseError Command × Session :=
  (g.parse (.template s.numbered) source, { s with numbered := s.numbered + 1 })

/-- The tree of a wildcard value, parsed when it is needed for the first time. -/
def parseCandidate (g : Grammar) (value : Text) (s : Session) :
    Except WalkError Command × Session :=
  match s.candidates.trees.lookup value with
  | some tree => (.ok tree, s)
  | none =>
    match g.parse (.candidate s.candidates.number value) value with
    | .error error => (.error (.candidate error), s)
    | .ok tree =>
      let trees := s.candidates.trees ++ [(value, tree)]
      (.ok tree, { s with candidates := { s.candidates with trees := trees } })

/-- The trees of several values; those before an error stay in the table. -/
def parseCandidates (g : Grammar) : List Text → Session → Except WalkError (List Command) × Session
  | [], s => (.ok [], s)
  | value :: values, s =>
    match parseCandidate g value s with
    | (.error error, s) => (.error error, s)
    | (.ok tree, s) =>
      match parseCandidates g values s with
      | (.error error, s) => (.error error, s)
      | (.ok trees, s) => (.ok (tree :: trees), s)

/-- The candidates of a wildcard; none is an error or not as the policy says. -/
def wildcardCandidates (env : Environment) (name : Text) (method : Sampling) (s : Session) :
    Except WalkError (List Command) × Session :=
  let s := { s with asked := name :: s.asked }
  match env.resolve name with
  | .error error => (.error (.load error), s)
  | .ok [] =>
    if env.policy.refuses method then (.error (.unresolved name method), s)
    else (.ok [], { s with notices := .emptyWildcard name method :: s.notices })
  | .ok values => parseCandidates env.grammar values s

end Session

end PromptTemplate
