/-
`Product.lean` -- the branches of several nodes one after another.

Every branch of the first node is followed by every branch of the second in the
scope that it left, and so on. `product` says it by recursion on the nodes.
`sequenceBranches` does the same on a stack of open runs: the top of the stack is
asked for its next branch, a finished run is taken off, and a branch that has nodes
behind it opens the run of the next one. A stack can only go on finitely long,
because a run comes to its end on every way through it (`Stack.wellFounded`).
-/
import PromptTemplate.Expansion.Branches

set_option autoImplicit false

namespace PromptTemplate

/-- Enumerating: a node, its scope, and the text before it in the same output. -/
abbrev Enumerator := Command → Scope → Text → Branches

/-! ## 1. By recursion on the nodes -/

/-- The branches of nodes one after another. -/
def product (enumerate : Enumerator) : List Command → Scope → Text → Branches
  | [], scope, _ => .single ⟨[], scope⟩
  | child :: children, scope, ambient =>
    (enumerate child scope ambient).bind fun first =>
      (product enumerate children first.scope (ambient ++ first.text)).map fun rest =>
        ⟨first.text ++ rest.text, rest.scope⟩

/-! ## 2. The stack of open runs -/

/-- An open run: the text before it, how it goes on, and the nodes behind it. -/
structure OpenRun where
  before : Text
  next : Branches
  following : List Command

/-- Open runs, the innermost first. -/
structure Stack where
  runs : List OpenRun

/-- Branches go on as other branches behind one of their own. -/
def Branches.GoesOn (rest branches : Branches) : Prop :=
  ∃ s branch after, branches s = .yield branch after rest

/-- What is left of a run comes to its end. -/
theorem Branches.acc_of_yield (run : Run) :
    ∀ branch after rest, run = .yield branch after rest → Acc Branches.GoesOn rest := by
  induction run with
  | done => intro _ _ _ h; cases h
  | fail => intro _ _ _ h; cases h
  | yield branch after rest ih =>
    intro _ _ _ h
    cases h
    constructor
    rintro rest' ⟨s, branch', after', h⟩
    exact ih s branch' after' rest' h

/-- All branches come to their end. -/
theorem Branches.acc (branches : Branches) : Acc Branches.GoesOn branches := by
  constructor
  rintro rest ⟨s, branch, after, h⟩
  exact acc_of_yield _ branch after rest h

/-- One step of the stack: the innermost run ends, or it goes on, alone or with the
run of a node behind it on top. -/
inductive Stack.Step : Stack → Stack → Prop
  | close (top : OpenRun) (below : List OpenRun) : Step ⟨below⟩ ⟨top :: below⟩
  | resume (top : OpenRun) (below : List OpenRun) (rest : Branches) (h : rest.GoesOn top.next) :
    Step ⟨{ top with next := rest } :: below⟩ ⟨top :: below⟩
  | enter (top : OpenRun) (below : List OpenRun) (rest : Branches) (h : rest.GoesOn top.next)
      (inner : OpenRun) (shorter : inner.following.length < top.following.length) :
    Step ⟨inner :: { top with next := rest } :: below⟩ ⟨top :: below⟩

/-- Putting a run on a stack that comes to its end gives one that does. The induction
is on how many nodes are behind the run, then on the run itself. -/
theorem Stack.acc_push (count : Nat) (branches : Branches) :
    ∀ (top : OpenRun) (below : List OpenRun), top.next = branches → top.following.length = count →
      Acc Stack.Step ⟨below⟩ → Acc Stack.Step ⟨top :: below⟩ := by
  induction count using Nat.strongRecOn generalizing branches with
  | ind count outer =>
    induction branches.acc with
    | intro branches _ inner =>
      intro top below hnext hcount hbelow
      constructor
      intro smaller step
      cases step with
      | close => exact hbelow
      | resume _ _ rest h => exact inner rest (hnext ▸ h) _ _ rfl hcount hbelow
      | enter _ _ rest h deeper shorter =>
        exact outer _ (hcount ▸ shorter) deeper.next deeper _ rfl rfl
          (inner rest (hnext ▸ h) _ _ rfl hcount hbelow)

/-- Every stack comes to its end. -/
theorem Stack.wellFounded : WellFounded Stack.Step := by
  constructor
  rintro ⟨runs⟩
  induction runs with
  | nil => exact ⟨_, fun _ step => nomatch step⟩
  | cons top below ih => exact acc_push _ _ top below rfl rfl ih

instance : WellFoundedRelation Stack := ⟨Stack.Step, Stack.wellFounded⟩

set_option linter.unusedVariables false in
/-- The branches that a stack still has. -/
def Stack.branches (enumerate : Enumerator) (ambient : Text) (stack : Stack) (s : Session) : Run :=
  match stack with
  | ⟨[]⟩ => .done s
  | ⟨top :: below⟩ =>
    match h : top.next s with
    -- the innermost run is over, and the one below goes on
    | .done s => branches enumerate ambient ⟨below⟩ s
    | .fail error s => .fail error s
    | .yield branch s rest =>
      let text := top.before ++ branch.text
      match hf : top.following with
      -- the last node of the sequence: its branch is a branch of the whole
      | [] =>
        .yield ⟨text, branch.scope⟩ s fun s =>
          branches enumerate ambient ⟨{ top with next := rest } :: below⟩ s
      -- a node behind it: its branches are gone through before this run goes on
      | child :: children =>
        branches enumerate ambient
          ⟨⟨text, enumerate child branch.scope (ambient ++ text), children⟩ ::
            { top with next := rest } :: below⟩ s
termination_by stack
decreasing_by
  · exact .close top below
  · exact .resume top below rest ⟨_, _, _, h⟩
  · exact .enter top below rest ⟨_, _, _, h⟩ _ (by simp [hf])

/-- The branches of nodes one after another, on a stack of open runs. -/
def sequenceBranches (enumerate : Enumerator) : List Command → Scope → Text → Branches
  | [], scope, _ => .single ⟨[], scope⟩
  | child :: children, scope, ambient =>
    Stack.branches enumerate ambient ⟨[⟨[], enumerate child scope ambient, children⟩]⟩

end PromptTemplate
