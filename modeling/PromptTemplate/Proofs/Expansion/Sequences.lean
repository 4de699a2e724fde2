/-
`Sequences.lean` -- putting commands into a sequence keeps what they render to.

Commands that are put together lose their shape: literals side by side become one, a single
command stands for itself, and none is the empty literal (`Command.ofList`). Each of this moves
the places at which the text before a node is cut, and none of it can be told from outside: a walk
over the result is a walk over the commands one after another, with the same draws and turns, and
its branches are the product of theirs. So a sequence among the commands may as well be replaced
by its children. The literals have to be rendered for that, which takes one node of depth
(`Renderer.Writes`), and a sequence is one node deeper than its children; both is all that a depth
limit can tell.
-/
import PromptTemplate.Proofs.Command.NormalForm
import PromptTemplate.Proofs.Expansion.Deepening
import PromptTemplate.Proofs.Expansion.PairedBranches

set_option autoImplicit false

namespace PromptTemplate

/-! ## 1. More laws of runs -/

namespace Run

variable (f h : Branch → Branches)

/-- Going on with nothing is the run itself. -/
theorem append_done (run : Run) : run.append .done = run := by
  induction run with
  | done s => rfl
  | fail error s => rfl
  | yield branch s rest ih => simp only [append, ih]

/-- What each branch of both leads to. -/
theorem bind_append (next : Branches) (run : Run) :
    (run.append next).bind h = (run.bind h).append fun s => (next s).bind h := by
  induction run with
  | done s => rfl
  | fail error s => rfl
  | yield branch s rest ih => simp only [append, bind, ih, append_assoc]

/-- It does not matter in which order branches are led on. -/
theorem bind_assoc (run : Run) :
    (run.bind f).bind h = run.bind fun branch s => (f branch s).bind h := by
  induction run with
  | done s => rfl
  | fail error s => rfl
  | yield branch s rest ih => simp only [bind, bind_append, ih]

end Run

namespace Branches

/-- Nor does it for branches. -/
theorem bind_assoc (branches : Branches) (f h : Branch → Branches) :
    (branches.bind f).bind h = branches.bind fun branch => (f branch).bind h :=
  funext fun s => Run.bind_assoc f h (branches s)

/-- Going on from one branch is going on from where it is. -/
theorem single_bind (branch : Branch) (f : Branch → Branches) : (single branch).bind f = f branch :=
  funext fun s => Run.append_done (f branch s)

/-- Going on from changed branches is going on from what they are changed to. -/
theorem map_then_bind (branches : Branches) (f : Branch → Branch) (h : Branch → Branches) :
    (branches.map f).bind h = branches.bind fun branch => h (f branch) := by
  rw [← bind_single, bind_assoc]
  simp only [single_bind]

end Branches

/-! ## 2. Nodes one after another -/

/-- A literal renders to its text, whatever is around it. -/
def Renderer.Writes (render : Renderer) : Prop :=
  ∀ (text : Text) (method : Sampling) (ambient : Text), render (.literal text) method ambient =
    pure text

/-- A literal has one branch, its text in the scope as it is. -/
def Enumerator.Writes (enumerate : Enumerator) : Prop :=
  ∀ (text : Text) (scope : Scope) (ambient : Text),
    enumerate (.literal text) scope ambient = .single ⟨text, scope⟩

section Walks

variable {render : Renderer}

/-- One node alone renders as it does among others. -/
theorem renderSequence_singleton (method : Sampling) (command : Command) (ambient : Text) :
    renderSequence render method [command] ambient = render command method ambient := by
  simp only [renderSequence, Walk.pure_bind, List.append_nil]
  exact Walk.bind_pure _

/-- Nodes one after another are the first ones and then the others, with the text before them. -/
theorem renderSequence_append (method : Sampling) (commands others : List Command)
    (ambient : Text) :
    renderSequence render method (commands ++ others) ambient =
      renderSequence render method commands ambient >>= fun first =>
        renderSequence render method others (ambient ++ first) >>= fun rest =>
          pure (first ++ rest) := by
  induction commands generalizing ambient with
  | nil =>
    simp only [List.nil_append, renderSequence, Walk.pure_bind, List.append_nil]
    exact (Walk.bind_pure _).symm
  | cons command commands ih =>
    simp only [List.cons_append, renderSequence, ih, Walk.bind_assoc, Walk.pure_bind,
      List.append_assoc]

/-- A literal at the front is written, and is part of the text before the others. -/
theorem renderSequence_literal (hwrites : render.Writes) (method : Sampling) (text : Text)
    (commands : List Command) (ambient : Text) :
    renderSequence render method (.literal text :: commands) ambient =
      renderSequence render method commands (ambient ++ text) >>= fun rest =>
        pure (text ++ rest) := by
  rw [renderSequence, hwrites, Walk.pure_bind]

/-- Literals side by side may be joined: behind both of them stands the same text. -/
theorem renderSequence_mergeLiterals (hwrites : render.Writes) (method : Sampling)
    (commands : List Command) (ambient : Text) :
    renderSequence render method (Command.mergeLiterals commands) ambient =
      renderSequence render method commands ambient := by
  fun_induction Command.mergeLiterals commands generalizing ambient with
  | case1 => rfl
  | case2 first rest second merged hmerged ih =>
    have hrest := ih (ambient ++ first)
    rw [hmerged, renderSequence_literal hwrites] at hrest
    rw [renderSequence_literal hwrites, renderSequence_literal hwrites, ← hrest,
      ← List.append_assoc]
    simp only [Walk.bind_assoc, Walk.pure_bind, List.append_assoc]
  | case3 text rest _ ih => rw [renderSequence_literal hwrites, renderSequence_literal hwrites, ih]
  | case4 command rest _ ih => simp only [renderSequence, ih]

end Walks

section Branches

variable {enumerate : Enumerator}

/-- One node alone has its branches. -/
theorem product_singleton (command : Command) (scope : Scope) (ambient : Text) :
    product enumerate [command] scope ambient = enumerate command scope ambient := by
  simp only [product, Branches.map_single, List.append_nil]
  exact funext fun s => Run.bind_self _

/-- The branches of nodes are those of the first ones and then those of the others. -/
theorem product_append (commands others : List Command) (scope : Scope) (ambient : Text) :
    product enumerate (commands ++ others) scope ambient =
      (product enumerate commands scope ambient).bind fun first =>
        (product enumerate others first.scope (ambient ++ first.text)).map fun rest =>
          ⟨first.text ++ rest.text, rest.scope⟩ := by
  induction commands generalizing scope ambient with
  | nil =>
    simp only [List.nil_append, product, Branches.single_bind, List.append_nil]
    rw [← Branches.bind_single]
    exact funext fun s => (Run.bind_self _).symm
  | cons command commands ih =>
    simp only [List.cons_append, product, ih, Branches.bind_assoc, Branches.map_bind,
      Branches.map_map, Branches.map_then_bind, List.append_assoc]

/-- A literal at the front is part of the text of every branch, and of the text before the others.
-/
theorem product_literal (hwrites : enumerate.Writes) (text : Text) (commands : List Command)
    (scope : Scope) (ambient : Text) :
    product enumerate (.literal text :: commands) scope ambient =
      (product enumerate commands scope (ambient ++ text)).map fun rest =>
        ⟨text ++ rest.text, rest.scope⟩ := by
  rw [product, hwrites, Branches.single_bind]

/-- Literals that are merged have the branches that they had. -/
theorem product_mergeLiterals (hwrites : enumerate.Writes) (commands : List Command) (scope : Scope)
    (ambient : Text) :
    product enumerate (Command.mergeLiterals commands) scope ambient =
      product enumerate commands scope ambient := by
  fun_induction Command.mergeLiterals commands generalizing scope ambient with
  | case1 => rfl
  | case2 first rest second merged hmerged ih =>
    have hrest := ih scope (ambient ++ first)
    rw [hmerged, product_literal hwrites] at hrest
    rw [product_literal hwrites, product_literal hwrites, ← hrest, ← List.append_assoc,
      Branches.map_map]
    simp only [List.append_assoc]
  | case3 text rest _ ih => rw [product_literal hwrites, product_literal hwrites, ih]
  | case4 command rest _ ih => simp only [product, ih]

end Branches

/-! ## 3. Literals joined -/

namespace Command

/-- A command that is no literal keeps the literals on either side of it apart. -/
theorem mergeLiterals_apart {command : Command} (hcommand : ¬command.IsLiteral)
    (before after : List Command) :
    mergeLiterals (before ++ command :: after) = mergeLiterals before ++
      command :: mergeLiterals after := by
  have hhere : mergeLiterals (command :: after) = command :: mergeLiterals after := by
    cases command with
    | literal text => exact absurd trivial hcommand
    | _ => rfl
  fun_induction mergeLiterals before with
  | case1 => exact hhere
  | case2 first rest second merged hmerged ih =>
    rw [List.cons_append, mergeLiterals, ih, hmerged]; rfl
  | case3 text rest hnone ih =>
    rw [List.cons_append, mergeLiterals, ih]
    cases hmerged : mergeLiterals rest with
    | nil =>
      -- what comes next is the command itself
      cases command with
      | literal text => exact absurd trivial hcommand
      | _ => rfl
    | cons next merged =>
      cases next with
      | literal second => exact absurd hmerged (hnone second merged)
      | _ => rfl
  | case4 other rest hother ih =>
    rw [List.cons_append, mergeLiterals, ih, List.cons_append]
    exact hother

/-- A sequence among others is put together with them, or stands alone. -/
theorem ofList_around_sequence (before children after : List Command) :
    (before = [] ∧ after = [] ∧
      ofList (before ++ [.sequence children] ++ after) = .sequence children) ∨
      ofList (before ++ [.sequence children] ++ after) =
        .sequence (mergeLiterals (before ++ [.sequence children] ++ after)) := by
  have hmerged : mergeLiterals (before ++ [.sequence children] ++ after) =
      mergeLiterals before ++ .sequence children :: mergeLiterals after := by
    rw [List.append_assoc, List.singleton_append]
    exact mergeLiterals_apart id before after
  -- a sequence that stands alone is the whole result; any neighbour makes an outer sequence
  by_cases halone : before = [] ∧ after = []
  · obtain ⟨rfl, rfl⟩ := halone
    exact .inl ⟨rfl, rfl, rfl⟩
  · refine .inr ?_
    rw [ofList]
    split
    · next hnone => rw [hmerged] at hnone; simp at hnone
    · next command hone =>
      rw [hmerged] at hone
      have hempty : mergeLiterals before = [] ∧ mergeLiterals after = [] := by
        simp only [List.append_eq_singleton_iff, List.cons.injEq, reduceCtorEq, and_false,
          or_false] at hone
        exact ⟨hone.1, hone.2.2⟩
      exact absurd ⟨by_contra fun hne => mergeLiterals_ne_nil hne hempty.1,
        by_contra fun hne => mergeLiterals_ne_nil hne hempty.2⟩ halone
    · rfl

end Command

/-! ## 4. Depths -/

/-- Nodes, and nodes one after another, as far as they can be told apart at each depth. -/
structure Interpretation (Context Outcome : Type) where
  node : Nat → Command → Context → Outcome
  together : Nat → List Command → Context → Outcome
  DeepenedBy : Outcome → Outcome → Prop

/-- Sequences are nodes one after another, and literals side by side are one literal. -/
structure Interpretation.Sequencing {Context Outcome : Type} (I : Interpretation Context Outcome) :
    Prop where
  refl : ∀ outcome, I.DeepenedBy outcome outcome
  trans : ∀ {mine yours theirs}, I.DeepenedBy mine yours → I.DeepenedBy yours theirs →
    I.DeepenedBy mine theirs
  deeper : ∀ {depth deep}, depth ≤ deep → ∀ command context,
    I.DeepenedBy (I.node depth command context) (I.node deep command context)
  tooDeep : ∀ command context outcome, I.DeepenedBy (I.node 0 command context) outcome
  tooDeepTogether : ∀ command commands context outcome,
    I.DeepenedBy (I.together 0 (command :: commands) context) outcome
  none : ∀ depth context, I.node (depth + 1) (.literal []) context = I.together depth [] context
  single : ∀ depth command context, I.together depth [command] context =
    I.node depth command context
  sequence : ∀ depth children context,
    I.node (depth + 1) (.sequence children) context = I.together depth children context
  joined : ∀ depth commands context,
    I.together (depth + 1) (Command.mergeLiterals commands) context =
      I.together (depth + 1) commands context
  replaced : ∀ {depth deep middle other}, depth ≤ deep →
    (∀ context, I.DeepenedBy (I.together depth middle context) (I.together deep other context)) →
    ∀ before after context, I.DeepenedBy (I.together depth (before ++ middle ++ after) context)
      (I.together deep (before ++ other ++ after) context)

namespace Interpretation.Sequencing

variable {Context Outcome : Type} {I : Interpretation Context Outcome} (h : I.Sequencing)
include h

/-- Without nodes there is nothing to go deep into. -/
theorem none_deeper {depth deep : Nat} (hdeep : depth ≤ deep) (context : Context) :
    I.DeepenedBy (I.together depth [] context) (I.together deep [] context) := by
  rw [← h.none, ← h.none]
  exact h.deeper (Nat.succ_le_succ hdeep) _ context

/-- Nodes one after another are deeper at a greater depth. -/
theorem together_deeper {depth deep : Nat} (hdeep : depth ≤ deep) (commands : List Command)
    (context : Context) :
    I.DeepenedBy (I.together depth commands context) (I.together deep commands context) := by
  have := h.replaced hdeep (h.none_deeper hdeep) commands [] context
  rwa [List.append_nil, List.append_nil] at this

/-- Joining literals changes nothing, at any depth. -/
theorem joined_within (depth : Nat) (commands : List Command) (context : Context) :
    I.DeepenedBy (I.together depth commands context)
        (I.together depth (Command.mergeLiterals commands) context) ∧
      I.DeepenedBy (I.together depth (Command.mergeLiterals commands) context)
        (I.together depth commands context) := by
  cases depth with
  -- without depth left a node is too deep on both sides, unless there is no node at all
  | zero =>
    have hnone {commands : List Command} (hne : commands ≠ []) (outcome : Outcome) :
        I.DeepenedBy (I.together 0 commands context) outcome := by
      obtain ⟨command, rest, rfl⟩ := List.exists_cons_of_ne_nil hne
      exact h.tooDeepTogether command rest context outcome
    by_cases hne : commands = []
    · subst hne
      exact ⟨h.refl _, h.refl _⟩
    · exact ⟨hnone hne _, hnone (Command.mergeLiterals_ne_nil hne) _⟩
  | succ depth =>
    rw [h.joined]
    exact ⟨h.refl _, h.refl _⟩

/-- Commands put together do what they do one after another, one node deeper at most. -/
theorem together_ofList (depth : Nat) (commands : List Command) (context : Context) :
    I.DeepenedBy (I.together depth commands context) (I.node (depth + 1) (.ofList commands)
      context) := by
  refine h.trans (h.joined_within depth commands context).1 ?_
  rw [Command.ofList]
  split
  · next hnone => rw [hnone, h.none]; exact h.refl _
  · next command hone => rw [hone, h.single]; exact h.deeper (Nat.le_succ depth) command context
  · rw [h.sequence]; exact h.refl _

/-- Nodes that are put together are not deeper than nodes one after another. -/
theorem ofList_together (depth : Nat) (commands : List Command) (context : Context) :
    I.DeepenedBy (I.node depth (.ofList commands) context) (I.together depth commands context) := by
  cases depth with
  | zero => exact h.tooDeep _ context _
  | succ depth =>
    refine h.trans ?_ (h.joined_within (depth + 1) commands context).2
    rw [Command.ofList]
    split
    · next hnone => rw [hnone, h.none]; exact h.none_deeper (Nat.le_succ depth) context
    · next command hone => rw [hone, h.single]; exact h.refl _
    · rw [h.sequence]; exact h.together_deeper (Nat.le_succ depth) _ context

/-- A sequence among the commands may be replaced by its children, at the same depth. -/
theorem nested_flat (depth : Nat) (before children after : List Command) (context : Context) :
    I.DeepenedBy (I.node depth (.ofList (before ++ [.sequence children] ++ after)) context)
      (I.node depth (.ofList (before ++ children ++ after)) context) := by
  cases depth with
  | zero => exact h.tooDeep _ context _
  | succ depth =>
    -- nested in an outer sequence the nodes are two steps further down than in the flat list
    rcases Command.ofList_around_sequence before children after with ⟨rfl, rfl, halone⟩ | htogether
    · rw [halone, List.nil_append, List.append_nil, h.sequence]
      exact h.together_ofList depth children context
    · rw [htogether, h.sequence]
      refine h.trans (h.joined_within depth _ context).2 ?_
      refine h.trans ?_ (h.together_ofList depth _ context)
      refine h.replaced (Nat.le_refl depth) (fun context => ?_) before after context
      rw [h.single]
      cases depth with
      | zero => exact h.tooDeep _ context _
      | succ depth => rw [h.sequence]; exact h.together_deeper (Nat.le_succ depth) children context

/-- Children among the commands may be put into a sequence, which is two nodes deeper at most. -/
theorem flat_nested (depth : Nat) (before children after : List Command) (context : Context) :
    I.DeepenedBy (I.node depth (.ofList (before ++ children ++ after)) context)
      (I.node (depth + 2) (.ofList (before ++ [.sequence children] ++ after)) context) := by
  refine h.trans (h.ofList_together depth _ context) ?_
  refine h.trans ?_ (h.together_ofList (depth + 1) _ context)
  refine h.replaced (Nat.le_succ depth) (fun context => ?_) before after context
  rw [h.single, h.sequence]
  exact h.refl _

end Interpretation.Sequencing

/-! ## 5. Walks and branches -/

/-- Walks over nodes, by the method and behind the text that they are rendered with. -/
def walks (env : Environment) : Interpretation (Sampling × Text) (Walk Text) where
  node depth command := fun (method, ambient) => renderWithin env depth command method ambient
  together depth commands := fun (method, ambient) =>
    renderSequence (renderWithin env depth) method commands ambient
  DeepenedBy := Walk.DeepenedBy

/-- Walks are sequenced. -/
theorem walks_sequencing (env : Environment) : (walks env).Sequencing where
  refl := Walk.DeepenedBy.refl
  trans := Walk.DeepenedBy.trans
  deeper hdeep command _ := renderWithin_deepened env hdeep command _ _
  tooDeep _ _ _ := .tooDeep _
  tooDeepTogether _ _ _ _ := fun _ hends => absurd rfl hends
  none _ _ := rfl
  single _ command _ := renderSequence_singleton _ command _
  sequence _ _ _ := rfl
  joined depth commands _ := renderSequence_mergeLiterals (fun _ _ _ => rfl) _ commands _
  replaced := by
    intro depth deep middle other hdeep hmiddle before after ⟨method, ambient⟩
    have hrender := renderWithin_deepened env hdeep
    simp only [walks, renderSequence_append, Walk.bind_assoc, Walk.pure_bind]
    -- the parts before and after keep their depth; only the middle is replaced
    refine (renderSequence_deepened hrender method before ambient).bind fun first => ?_
    refine (hmiddle (method, _)).bind fun second => ?_
    exact (renderSequence_deepened hrender method after _).bind fun rest => .refl _

/-- Branches of nodes, in the scope and behind the text that they are enumerated with. -/
def branchings (env : Environment) : Interpretation (Scope × Text) Branches where
  node depth command :=
    fun (scope, ambient) => enumerateWithin env .distinct depth command scope ambient
  together depth commands := fun (scope, ambient) =>
    product (enumerateWithin env .distinct depth) commands scope ambient
  DeepenedBy := Branches.DeepenedBy

/-- Branches are sequenced. -/
theorem branchings_sequencing (env : Environment) : (branchings env).Sequencing where
  refl := Branches.DeepenedBy.refl
  trans := Branches.DeepenedBy.trans
  deeper hdeep command _ := enumerateWithin_deepened env (Nat.le_refl _) hdeep command _ _
  tooDeep _ _ _ := Together.Yields.tooDeep
  tooDeepTogether _ _ _ _ := Together.Yields.tooDeep
  none _ _ := rfl
  single _ command _ := product_singleton command _ _
  sequence _ children _ := sequenceBranches_eq_product _ _ children _
  joined depth commands _ := product_mergeLiterals (fun _ _ _ => rfl) commands _ _
  replaced := by
    intro depth deep middle other hdeep hmiddle before after ⟨scope, ambient⟩
    have henumerate := enumerateWithin_deepened env (Nat.le_refl _) hdeep
    simp only [branchings, product_append, Branches.bind_assoc, Branches.map_then_bind]
    refine (product_deepened henumerate before scope ambient).bind fun first => ?_
    refine (hmiddle (first.scope, _)).bind fun second => ?_
    exact (product_deepened henumerate after second.scope _).map _

/-- The environment with another depth limit. -/
def Environment.limited (env : Environment) (limit : Nat) : Environment :=
  { env with depthLimit := limit }

/-- A walk under a limit is a walk within it. -/
theorem renderOnce_limited (env : Environment) (limit : Nat) :
    renderOnce (env.limited limit) = renderWithin env limit :=
      renderWithin_depthLimit env limit limit

/-- A walk under a higher limit is deeper. -/
theorem renderOnce_deepened (env : Environment) {limit other : Nat} (hle : limit ≤ other) :
    (renderOnce (env.limited limit)).DeepenedBy (renderOnce (env.limited other)) := by
  rw [renderOnce_limited, renderOnce_limited]
  exact renderWithin_deepened env hle

/-- Branches under a higher limit are deeper. -/
theorem enumerate_deepened (env : Environment) {limit other : Nat} (hle : limit ≤ other) :
    (enumerate (env.limited limit)).DeepenedBy (enumerate (env.limited other)) :=
  enumerateWithin_deepened (env.limited limit) hle hle

/-- **Putting commands into a sequence keeps what they mean.** Joining literals, standing for the
one command there is, and being the empty literal for none can not be told from rendering the
commands one after another, each behind the text so far, nor from the product of their branches;
and a sequence among the commands can not be told from its children in its place. Only a depth
limit can be come to earlier. -/
theorem ofList_keeps_meaning (env : Environment) :
    (∀ (commands : List Command) (method : Sampling) (ambient : Text),
      let whole limit := renderOnce (env.limited limit) (.ofList commands) method ambient
      let each limit := renderSequence (renderOnce (env.limited limit)) method commands ambient
      Walk.SameBeyond 0 whole each ∧ Walk.SameBeyond 1 each whole) ∧
    (∀ (commands : List Command) (scope : Scope) (ambient : Text),
      let whole limit := enumerate (env.limited limit) (.ofList commands) scope ambient
      let each limit := product (enumerate (env.limited limit)) commands scope ambient
      Branches.SameBeyond 0 whole each ∧ Branches.SameBeyond 1 each whole) ∧
    (∀ (before children after : List Command) (method : Sampling) (ambient : Text),
      let nested limit :=
        renderOnce (env.limited limit)
          (.ofList (before ++ [.sequence children] ++ after)) method ambient
      let flat limit :=
        renderOnce (env.limited limit) (.ofList (before ++ children ++ after)) method ambient
      Walk.SameBeyond 0 nested flat ∧ Walk.SameBeyond 2 flat nested) ∧
    (∀ (before children after : List Command) (scope : Scope) (ambient : Text),
      let nested limit :=
        enumerate (env.limited limit)
          (.ofList (before ++ [.sequence children] ++ after)) scope ambient
      let flat limit :=
        enumerate (env.limited limit) (.ofList (before ++ children ++ after)) scope ambient
      Branches.SameBeyond 0 nested flat ∧ Branches.SameBeyond 2 flat nested) := by
  have hwalks := walks_sequencing env
  refine ⟨fun commands method ambient => ?_, fun commands scope ambient => ?_,
    fun before children after method ambient => ?_, fun before children after scope ambient => ?_⟩
  -- walks first, then enumerations: each side goes as deep as the other
  -- with at most two more steps
  · have hwhole {limit other : Nat} (hle : limit ≤ other) :=
      renderOnce_deepened env hle (.ofList commands) method ambient
    have heach {limit other : Nat} (hle : limit ≤ other) :=
      renderSequence_deepened (renderOnce_deepened env hle) method commands ambient
    refine ⟨.of_deepened (fun _ _ => heach) fun limit => ?_,
      .of_deepened (fun _ _ => hwhole) fun limit => ?_⟩
    · simp only [renderOnce_limited]
      exact hwalks.ofList_together limit commands (method, ambient)
    · simp only [renderOnce_limited]
      exact hwalks.together_ofList limit commands (method, ambient)
  · have hwhole {limit other : Nat} (hle : limit ≤ other) :=
      enumerate_deepened env hle (.ofList commands) scope ambient
    have heach {limit other : Nat} (hle : limit ≤ other) :=
      product_deepened (enumerate_deepened env hle) commands scope ambient
    refine ⟨.of_deepened (fun _ _ => heach) fun limit => ?_,
      .of_deepened (fun _ _ => hwhole) fun limit => ?_⟩
    · exact (branchings_sequencing (env.limited limit)).ofList_together limit commands
        (scope, ambient)
    · refine ((branchings_sequencing (env.limited limit)).together_ofList limit commands
        (scope, ambient)).trans ?_
      exact enumerateWithin_deepened (env.limited limit) (Nat.le_succ limit) (Nat.le_refl _) _
        scope ambient
  · refine ⟨.of_deepened (fun _ _ hle => renderOnce_deepened env hle _ method ambient) fun limit =>
      ?_,
      .of_deepened (fun _ _ hle => renderOnce_deepened env hle _ method ambient) fun limit => ?_⟩
    · simp only [renderOnce_limited]
      exact hwalks.nested_flat limit before children after (method, ambient)
    · simp only [renderOnce_limited]
      exact hwalks.flat_nested limit before children after (method, ambient)
  · refine ⟨.of_deepened (fun _ _ hle => enumerate_deepened env hle _ scope ambient) fun limit =>
      ?_,
      .of_deepened (fun _ _ hle => enumerate_deepened env hle _ scope ambient) fun limit => ?_⟩
    · exact (branchings_sequencing (env.limited limit)).nested_flat limit before children after
        (scope, ambient)
    · refine ((branchings_sequencing (env.limited limit)).flat_nested limit before children after
        (scope, ambient)).trans ?_
      exact enumerateWithin_deepened (env.limited limit) (Nat.le_add_right limit 2) (Nat.le_refl _)
        _ scope ambient

end PromptTemplate
