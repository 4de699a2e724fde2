/-
`Runs.lean` -- the laws by which runs are put together, and what the stack of open
runs computes.

`Run.append`, `Run.bind` and `Run.map` satisfy the laws of a list's operations, not
only up to the branches that come out but as runs: the same branches between the
same sessions, whatever sessions they are resumed with. With them the stack on which
`sequenceBranches` keeps its open runs is seen to be the recursive `product`
(`sequenceBranches_eq_product`), so nothing after this module looks at the stack. Main
statement: `sequenceBranches_recursive`.
-/
import PromptTemplate.Expansion.Enumeration

set_option autoImplicit false

namespace PromptTemplate

/-! ## 1. Laws of runs -/

namespace Run

variable (f g : Branch → Branch) (h : Branch → Branches)

theorem append_assoc (next last : Branches) (run : Run) :
    (run.append next).append last = run.append fun s => (next s).append last := by
  induction run with
  | done s => rfl
  | fail error s => rfl
  | yield branch s rest ih => simp only [append, ih]

theorem map_append (next : Branches) (run : Run) :
    (run.append next).map f = (run.map f).append fun s => (next s).map f := by
  induction run with
  | done s => rfl
  | fail error s => rfl
  | yield branch s rest ih => simp only [append, map, ih]

theorem map_map (run : Run) : (run.map f).map g = run.map fun branch => g (f branch) := by
  induction run with
  | done s => rfl
  | fail error s => rfl
  | yield branch s rest ih => simp only [map, ih]

theorem map_bind (run : Run) :
    (run.bind h).map f = run.bind fun branch s => (h branch s).map f := by
  induction run with
  | done s => rfl
  | fail error s => rfl
  | yield branch s rest ih => simp only [bind, map_append, ih]

/-- Changing each branch is going on from each branch with one other. -/
theorem bind_single (run : Run) :
    (run.bind fun branch => Branches.single (f branch)) = run.map f := by
  induction run with
  | done s => rfl
  | fail error s => rfl
  | yield branch s rest ih => simp only [bind, map, Branches.single, append, ih]

end Run

namespace Branches

theorem map_map (f g : Branch → Branch) (branches : Branches) :
    (branches.map f).map g = branches.map fun branch => g (f branch) :=
  funext fun s => Run.map_map f g (branches s)

theorem map_bind (f : Branch → Branch) (h : Branch → Branches) (branches : Branches) :
    (branches.bind h).map f = branches.bind fun branch => (h branch).map f :=
  funext fun s => Run.map_bind f h (branches s)

theorem bind_single (f : Branch → Branch) (branches : Branches) :
    (branches.bind fun branch => single (f branch)) = branches.map f :=
  funext fun s => Run.bind_single f (branches s)

theorem map_single (f : Branch → Branch) (branch : Branch) :
    (single branch).map f = single (f branch) := rfl

end Branches

/-! ## 2. The stack of open runs -/

section Stack

variable (enumerate : Enumerator) (ambient : Text)

/-- The whole renderings that begin with what an open run has before it and with one
of its branches. -/
def OpenRun.complete (top : OpenRun) (branch : Branch) : Branches :=
  (product enumerate top.following branch.scope
    (ambient ++ (top.before ++ branch.text))).map fun rest =>
    ⟨top.before ++ branch.text ++ rest.text, rest.scope⟩

/-- The branches of open runs by recursion on the stack: those of the innermost run,
each completed, then those of the runs below it. -/
def completions : List OpenRun → Branches
  | [] => Run.done
  | top :: below =>
    fun s => ((top.next s).bind (top.complete enumerate ambient)).append (completions below)

/-- With no node behind it a branch is complete as it is. -/
theorem OpenRun.complete_last {top : OpenRun} (hlast : top.following = []) (branch : Branch) :
    top.complete enumerate ambient branch = .single ⟨top.before ++ branch.text, branch.scope⟩ := by
  rw [complete, hlast, product, Branches.map_single, List.append_nil]

/-- With nodes behind it a branch is completed by opening the run of the next one. -/
theorem OpenRun.complete_next {top : OpenRun} {child : Command} {children : List Command}
    (hnext : top.following = child :: children) (branch : Branch) :
    top.complete enumerate ambient branch =
      (enumerate child branch.scope (ambient ++ (top.before ++ branch.text))).bind
        (complete enumerate ambient
          ⟨top.before ++ branch.text,
            enumerate child branch.scope (ambient ++ (top.before ++ branch.text)), children⟩) := by
  rw [complete, hnext, product, Branches.map_bind]
  congr 1
  funext first
  simp only [complete, Branches.map_map, List.append_assoc]

/-- The stack computes the completions of its runs. The induction is on the steps of
the stack, which come to an end (`Stack.wellFounded`). -/
theorem Stack.branches_eq (stack : Stack) (s : Session) :
    Stack.branches enumerate ambient stack s = completions enumerate ambient stack.runs s := by
  induction stack using Stack.wellFounded.induction generalizing s with
  | _ stack ih =>
    obtain ⟨runs⟩ := stack
    rw [Stack.branches.eq_def]
    cases runs with
    | nil => rfl
    | cons top below =>
      simp only [completions]
      split
      -- the innermost run is done, or fails, or yields a branch
      · next s' hrun => rw [hrun, ih _ (.close top below), Run.bind, Run.append]
      · next error s' hrun => rw [hrun, Run.bind, Run.append]
      · next branch s' rest hrun =>
        rw [hrun, Run.bind]
        split
        · next hlast =>
          -- the branch comes out, and the run is resumed with the session of the taker
          rw [OpenRun.complete_last enumerate ambient hlast]
          simp only [Branches.single, Run.append]
          congr 1
          funext s
          rw [ih _ (.resume top below rest ⟨_, _, _, hrun⟩)]
          rfl
        · next child children hnext =>
          -- the run of the next node is opened on top of this one
          rw [OpenRun.complete_next enumerate ambient hnext,
            ih _ (.enter top below rest ⟨_, _, _, hrun⟩ _ (by simp [hnext]))]
          simp only [completions, Branches.bind, Run.append_assoc]
          rfl

/-- **The stack is the recursion.** Nodes one after another have the branches of
their product: in the same order, with the same sessions before each, and the same
end. -/
theorem sequenceBranches_eq_product (children : List Command) (scope : Scope) :
    sequenceBranches enumerate children scope ambient =
      product enumerate children scope ambient := by
  cases children with
  | nil => rfl
  | cons child children =>
    funext s
    rw [sequenceBranches, Stack.branches_eq]
    have happend (run : Run) : run.append Run.done = run := by
      induction run with
      | done s => rfl
      | fail error s => rfl
      | yield branch s rest ih => simp only [Run.append, ih]
    simp only [completions, happend, product]
    rfl

/-- Nodes behind a first one are enumerated anew from each of its branches. -/
theorem sequenceBranches_cons (child : Command) (children : List Command) (scope : Scope) :
    sequenceBranches enumerate (child :: children) scope ambient =
      (enumerate child scope ambient).bind fun first =>
        (sequenceBranches enumerate children first.scope (ambient ++ first.text)).map fun rest =>
          ⟨first.text ++ rest.text, rest.scope⟩ := by
  rw [sequenceBranches_eq_product, product]
  congr 1
  funext first
  rw [sequenceBranches_eq_product]

end Stack

/-! ## 3. Sequences of nodes -/

/-- **The branches of a sequence are those of the recursion over its nodes.** No nodes have one
branch, the empty text in the scope as it is. A first node with others behind it has, for each of
its own branches in order and each branch of the others in the scope that this one left and with
its text behind the text before, the two texts in one, in the scope of the second. Both equations
are between runs and not only between what comes out of them: each branch is yielded in the same
session, the run goes on in the same way from whatever session it is resumed with, and it is done
or fails in the same session, so no draw and no step of a counter is made before another branch
than in the recursion. With them the run of a sequence at any depth, whatever names of wildcards
are kept, is the recursive product of the enumeration of its children. -/
theorem sequenceBranches_recursive (enumerate : Enumerator) :
    (∀ (scope : Scope) (ambient : Text),
      sequenceBranches enumerate [] scope ambient = .single ⟨[], scope⟩) ∧
    (∀ (child : Command) (children : List Command) (scope : Scope) (ambient : Text),
      sequenceBranches enumerate (child :: children) scope ambient =
        (enumerate child scope ambient).bind fun first =>
          (sequenceBranches enumerate children first.scope (ambient ++ first.text)).map fun rest =>
            ⟨first.text ++ rest.text, rest.scope⟩) ∧
    ∀ (env : Environment) (kept : Branches → Branches) (depth : Nat) (children : List Command)
      (scope : Scope) (ambient : Text),
      enumerateWithin env kept (depth + 1) (.sequence children) scope ambient =
        product (enumerateWithin env kept depth) children scope ambient := by
  refine ⟨fun _ _ => rfl, fun child children scope ambient =>
    sequenceBranches_cons enumerate ambient child children scope, ?_⟩
  intro env kept depth children scope ambient
  rw [← sequenceBranches_eq_product]
  rfl

end PromptTemplate
