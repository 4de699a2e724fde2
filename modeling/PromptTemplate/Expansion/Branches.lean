/-
`Branches.lean` -- renderings that are produced one at a time.

Enumerating a tree yields branches, and between two of them the session may go on
elsewhere. So a run holds its next branch, the session at that point, and how the
run goes on from whatever session it is resumed with. Nothing behind a branch
happens unless it is asked for.
-/
import PromptTemplate.Expansion.Session

set_option autoImplicit false

namespace PromptTemplate

/-- A rendering, with the scope that it leaves behind. -/
structure Branch where
  text : Text
  scope : Scope

/-- A run up to its next branch or its end. -/
inductive Run
  | done (after : Session)
  | fail (error : WalkError) (after : Session)
  | yield (branch : Branch) (after : Session) (rest : Session → Run)

/-- Branches that wait for a session to run in. -/
abbrev Branches := Session → Run

namespace Run

/-! ## 1. Putting runs together -/

/-- The branches of a run, then more; an error ends both. -/
def append (next : Branches) : Run → Run
  | done s => next s
  | fail error s => fail error s
  | yield branch s rest => yield branch s fun s => append next (rest s)

/-- For each branch of a run the branches that it leads to. -/
def bind (f : Branch → Branches) : Run → Run
  | done s => done s
  | fail error s => fail error s
  | yield branch s rest => append (fun s => bind f (rest s)) (f branch s)

/-- Each branch of a run changed. -/
def map (f : Branch → Branch) : Run → Run
  | done s => done s
  | fail error s => fail error s
  | yield branch s rest => yield (f branch) s fun s => map f (rest s)

/-- The branches whose text did not come before. -/
def distinct : (seen : List Text) → Run → Run
  | _, done s => done s
  | _, fail error s => fail error s
  | seen, yield branch s rest =>
    if branch.text ∈ seen then distinct seen (rest s)
    else yield branch s fun s => distinct (branch.text :: seen) (rest s)

end Run

namespace Branches

/-- No branch. -/
def empty : Branches := Run.done

/-- One branch. -/
def single (branch : Branch) : Branches := fun s => .yield branch s .done

/-- An error in place of branches. -/
def fail (error : WalkError) : Branches := Run.fail error

/-- Some branches, then others. -/
def append (first next : Branches) : Branches := fun s => (first s).append next

/-- For each branch the branches that it leads to. -/
def bind (branches : Branches) (f : Branch → Branches) : Branches := fun s => (branches s).bind f

/-- Each branch changed. -/
def map (f : Branch → Branch) (branches : Branches) : Branches := fun s => (branches s).map f

/-- The branches whose text did not come before. -/
def distinct (branches : Branches) : Branches := fun s => (branches s).distinct []

/-- The branches for each member of a list, in order. -/
def forEach {α : Type} (f : α → Branches) : List α → Branches
  | [] => empty
  | a :: rest => append (f a) (forEach f rest)

end Branches

/-! ## 2. Taking branches -/

/-- How taking branches ended. -/
inductive Ending
  | limit
  | exhausted
  | failed (error : WalkError)
  deriving DecidableEq, Repr

/-- Takes a branch that stands ready, and more up to a limit; without a limit, all. -/
def Run.take : (limit : Option Nat) → Run → List Branch × Ending × Session
  | _, .done s => ([], .exhausted, s)
  | _, .fail error s => ([], .failed error, s)
  | limit, .yield branch s rest =>
    let left := limit.map (· - 1)
    if left = some 0 then ([branch], .limit, s)
    else
      let (branches, ending, s) := Run.take left (rest s)
      (branch :: branches, ending, s)

/-- Takes branches up to a limit; without a limit, all. The limit is looked at
before each branch, so at zero nothing runs. -/
def Branches.take (limit : Option Nat) (branches : Branches) (s : Session) :
    List Branch × Ending × Session :=
  if limit = some 0 then ([], .limit, s) else (branches s).take limit

/-- The different texts of a run in the order of their first branch, together with
those seen before, the latest first. Looking ends as soon as there are as many as
the limit. -/
def Run.distinctTexts (limit : Option Nat) : (seen : List Text) → Run →
    Except WalkError (List Text) × Session
  | seen, .done s => (.ok seen.reverse, s)
  | _, .fail error s => (.error error, s)
  | seen, .yield branch s rest =>
    let seen := if branch.text ∈ seen then seen else branch.text :: seen
    if limit.any (· ≤ seen.length) then (.ok seen.reverse, s)
    else Run.distinctTexts limit seen (rest s)

/-- The first different texts of some branches; a limit of zero asks for none. -/
def Branches.distinctTexts (limit : Option Nat) (branches : Branches) (s : Session) :
    Except WalkError (List Text) × Session :=
  if limit = some 0 then (.ok [], s) else (branches s).distinctTexts limit []

/-- How many a number asks for: it may fall between two counts, and then the larger
one reaches it; infinity is never reached. -/
def Number.toLimit : Number → Option Nat
  | .finite q => some q.ceil.toNat
  | .negInf => some 0
  | _ => none

end PromptTemplate
