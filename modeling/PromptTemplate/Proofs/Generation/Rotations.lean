/-
`Rotations.lean` -- each template rotates for itself.

All templates of a generator share its counters. A generator that answers all calls is compared with
one that answers those for the rotation of one template. They read it under different numbers, but a
rotation does not tell them apart, so they stay aligned as long as the nodes of the template stand
alike in both (`Generator.Aligned`), and what is done besides moves none of them.
-/
import PromptTemplate.Proofs.Generation.Keeping

set_option autoImplicit false

namespace PromptTemplate

namespace Generator

/-! ## 1. Calls together -/

section Together

variable {generator : Generator}
  (hload : Grammar.load generator.declaration = .ok generator.grammar)
  (env : Environment) {source : Text} {tree : Command}

/-- A call for a template that can be read is a call for its tree, which is kept then. -/
theorem perform_of_parse {kept : Generator} (hread : generator.parse source = (.ok tree, kept))
    (count : Number) (method : Option Text) :
    generator.perform env (.generate (.template source) count method) =
      (.prompts (kept.generateTree env tree count method).1,
        (kept.generateTree env tree count method).2) := by
  rw [perform_generate, generate, hread]

/-- Only a call that asks for so many prompts gets any. -/
theorem exists_count {env : Environment} {count : Number} {method : Option Text}
    {texts : List Text} (hanswer : (generator.generateTree env tree count method).1 = .ok texts) :
    ∃ n, count.toNat? = some n := by
  dsimp only [generateTree, PromptTemplate.generate] at hanswer
  cases hcount : count.toNat? with
  | none =>
    rw [hcount] at hanswer
    cases hanswer
  | some n => exact ⟨n, rfl⟩

/-- Calls for the rotation of a template that can be read are calls for its tree. -/
theorem answers_of_parse {kept : Generator} (hread : generator.parse source = (.ok tree, kept))
    {standing : Text} {calls : List Call}
    (hcalls : ∀ call ∈ calls, call.rotates standing source = true) :
    generator.answers env calls = kept.answers env calls := by
  cases calls with
  | nil => rfl
  | cons call calls =>
    obtain ⟨count, method, rfl, -⟩ := Call.exists_of_rotates (hcalls call List.mem_cons_self)
    rw [answers, answers, perform_of_parse env hread,
      perform_of_parse env (parse_of_kept (lookup_parse hread))]

include hload

/-- A call for the rotation of a tree renders it so often, going on in the session. -/
theorem generateTree_cyclical (tree : Command) {count : Number} {n : Nat}
    (hcount : count.toNat? = some n) {method : Option Text}
    (hmethod : method.getD generator.method = Sampling.cyclical.name) :
    (generator.generateTree env tree count method).1 =
        (tree.prompts { env with grammar := generator.grammar } .cyclical n
          generator.session).1.mapError .walk ∧
      (generator.generateTree env tree count method).2.session =
        (tree.prompts { env with grammar := generator.grammar } .cyclical n
          generator.session).2 := by
  have hname : Sampling.ofName? Sampling.cyclical.name = some .cyclical := by decide
  unfold generateTree PromptTemplate.generate
  rw [hmethod, hcount, hname, hload]
  exact ⟨rfl, rfl⟩

variable {origin : Origin} (htree : tree.Everywhere (Command.UnmarkedFrom origin))
include htree

/-- A call for the rotation of a tree and one that goes on behind it give together what one call
gives. -/
theorem generateTree_add {count : Number} {method : Option Text}
    (hmethod : method.getD generator.method = Sampling.cyclical.name) {n : Nat}
    {first rest : List Text} (hfirst : (generator.generateTree env tree count method).1 = .ok first)
    (hrest : ((generator.generateTree env tree count method).2.generateTree env tree (.ofNat n)
      (some Sampling.cyclical.name)).1 = .ok rest) :
    (generator.generateTree env tree (.ofNat (count.toNat?.getD 0 + n))
      (some Sampling.cyclical.name)).1 = .ok (first ++ rest) := by
  obtain ⟨m, hcount⟩ := exists_count hfirst
  obtain ⟨hmine, hsession⟩ := generateTree_cyclical hload env tree hcount hmethod
  -- the generator behind the first call has the same grammar, and the session that the call left
  have hafter : Grammar.load (generator.generateTree env tree count method).2.declaration =
      .ok (generator.generateTree env tree count method).2.grammar := hload
  have hgrammar : (generator.generateTree env tree count method).2.grammar = generator.grammar :=
    rfl
  rw [(generateTree_cyclical hafter env tree (Number.toNat?_ofNat n) rfl).1, hsession,
    hgrammar] at hrest
  rw [hmine] at hfirst
  rw [hcount, Option.getD_some,
    (generateTree_cyclical hload env tree (Number.toNat?_ofNat _) rfl).1,
    Command.prompts_add _ htree (ok_of_mapError hfirst) (ok_of_mapError hrest)]
  rfl

/-- Calls for the rotation of a template that is kept, if all of them succeed, give together what
one call gives. -/
theorem generateTree_total (hkept : generator.trees.lookup source = some tree) {calls : List Call}
    (hcalls : ∀ call ∈ calls, call.rotates generator.method source = true)
    {prompts : List (List Text)}
    (hanswers : generator.answers env calls = prompts.map fun texts => .prompts (.ok texts)) :
    (generator.generateTree env tree (.ofNat (calls.map Call.count).sum)
      (some Sampling.cyclical.name)).1 = .ok prompts.flatten := by
  -- one call after another: the prompts of the first, and then those of a shorter list of calls
  induction calls generalizing generator prompts with
  | nil =>
    obtain rfl : prompts = [] := List.map_eq_nil_iff.1 hanswers.symm
    rw [(generateTree_cyclical hload env tree (Number.toNat?_ofNat _) rfl).1]
    rfl
  | cons call calls ih =>
    obtain ⟨hcall, hrest⟩ := List.forall_mem_cons.1 hcalls
    obtain ⟨count, method, rfl, hmethod⟩ := Call.exists_of_rotates hcall
    obtain ⟨first, rest, rfl, hfirst, hmore⟩ := List.map_eq_cons_iff.1 hanswers.symm
    rw [perform_of_parse env (parse_of_kept hkept)] at hfirst hmore
    have hload' : Grammar.load (generator.generateTree env tree count method).2.declaration =
        .ok (generator.generateTree env tree count method).2.grammar := hload
    have htotal := ih hload' hkept hrest hmore.symm
    rw [List.map_cons, List.sum_cons, List.flatten_cons]
    exact generateTree_add hload env htree hmethod (Answer.prompts.inj hfirst).symm htotal

end Together

/-! ## 2. Generators side by side -/

/-- Two generators with the same settings, in which the nodes of a template stand alike. -/
structure Aligned (source : Text) (a b : Generator) : Prop where
  settings : a.SameSettings b
  stand : ∃ m n, a.Faithful m ∧ b.Faithful n ∧ a.standing m source = b.standing n source

namespace Aligned

variable {source : Text} {a b : Generator} (env : Environment)

/-- Two trees of a template rotate alike from where they stand alike: renumbered, the one is the
other. -/
theorem generateTree {number : Text → Nat} (ha : a.Faithful number) (hsettings : a.SameSettings b)
    {m n : Nat} {tree other : Command} (hmine : a.grammar.parse (.template m) source = .ok tree)
    (hyours : a.grammar.parse (.template n) source = .ok other)
    (hunmarked : a.grammar.Unmarked source) (count : Number) {method : Option Text}
    (hmethod : method.getD a.method = Sampling.cyclical.name)
    (hstand : a.session.standing m = b.session.standing n) :
    (a.generateTree env tree count method).1 = (b.generateTree env other count method).1 ∧
      (a.generateTree env tree count method).2.session.standing m =
        (b.generateTree env other count method).2.session.standing n := by
  have hread := ha.parse_number source m n
  rw [hmine, hyours] at hread
  have hother : tree.renumbered (Equiv.swap m n).toEmbedding = other := (Except.ok.inj hread).symm
  have hlabel : ∀ place, (⟨place, .template n⟩ : Label) =
      Label.renumbered (Equiv.swap m n).toEmbedding ⟨place, .template m⟩ := fun place => by
    rw [Label.renumbered, Origin.renumbered, Equiv.coe_toEmbedding, Equiv.swap_apply_left]
  -- under the other number, the nodes of the first tree are those of the second
  have hmoved : ∀ s : Session,
      (s.renumbered (Equiv.swap m n).toEmbedding).standing n = s.standing m := fun s =>
    funext fun place => by
      rw [Session.standing, hlabel place]
      exact Counters.position_renumbered s.counters _
  have halike : (Likeness.sharing (.template n)).alike
      (a.renumbered (Equiv.swap m n).toEmbedding).session b.session := by
    rintro ⟨place, _⟩ rfl
    exact congrFun ((hmoved a.session).trans hstand) place
  have hname : ∀ sampling, Sampling.ofName? (method.getD a.method) = some sampling →
      sampling ≠ .combinatorial → sampling = .cyclical := by
    intro sampling hsampling _
    rw [hmethod] at hsampling
    exact (Option.some.inj hsampling).symm
  obtain ⟨hanswer, hafter⟩ := Likeness.generateTree_alike
    (fun g => Likeness.sharing_kept { env with grammar := g } (.template n))
    (Likeness.sharing_reports _)
    (a := a.renumbered (Equiv.swap m n).toEmbedding)
    ⟨hsettings.declaration, hsettings.grammar, hsettings.method⟩
    (fun sampling hsampling => Likeness.unmarked_visits _
      (hunmarked.everywhere ha.opens hyours) (hname sampling hsampling))
    count halike
  rw [← hother, a.generateTree_renumbered, hother] at hanswer hafter
  refine ⟨hanswer, funext fun place => ?_⟩
  rw [← hmoved]
  exact hafter ⟨place, .template n⟩ rfl

/-- Both keep the template and rotate it: with the same answer, and they stay aligned. -/
theorem rotate (h : a.Aligned source b) {tree other : Command}
    (hkept : a.trees.lookup source = some tree) (hkept' : b.trees.lookup source = some other)
    (hunmarked : a.grammar.Unmarked source) (count : Number) {method : Option Text}
    (hmethod : method.getD a.method = Sampling.cyclical.name) :
    (a.generateTree env tree count method).1 = (b.generateTree env other count method).1 ∧
      (a.generateTree env tree count method).2.Aligned source
        (b.generateTree env other count method).2 := by
  -- both generators have the template under a number of its own, where their rotations stand alike
  obtain ⟨hsettings, m, n, ha, hb, hstand⟩ := h
  have hother := hb.trees source other hkept'
  rw [← hsettings.grammar] at hother
  rw [standing, standing, keeps_of_lookup hkept, keeps_of_lookup hkept', if_pos rfl,
    if_pos rfl] at hstand
  obtain ⟨hanswer, hafter⟩ := generateTree env ha hsettings (ha.trees source tree hkept) hother
    hunmarked count hmethod hstand
  have hmine : (a.generateTree env tree count method).2.keeps source = true := keeps_of_lookup hkept
  have hyours : (b.generateTree env other count method).2.keeps source = true :=
    keeps_of_lookup hkept'
  refine ⟨hanswer, ⟨hsettings.declaration, hsettings.grammar, hsettings.method⟩, m, n,
    (ha.generateTree env hkept hunmarked count method).1,
    (hb.generateTree env hkept' (hsettings.grammar ▸ hunmarked) count method).1, ?_⟩
  rw [standing, standing, hmine, hyours, if_pos rfl, if_pos rfl]
  exact hafter

variable (h : a.Aligned source b)
include h

/-- Both rotate the template: with the same answer, and they stay aligned. -/
theorem perform (hunmarked : a.grammar.Unmarked source) {call : Call}
    (hcall : call.rotates a.method source = true) :
    (a.perform env call).1 = (b.perform env call).1 ∧
      (a.perform env call).2.Aligned source (b.perform env call).2 := by
  obtain ⟨count, method, rfl, hmethod⟩ := Call.exists_of_rotates hcall
  obtain ⟨m, n, ha, hb, hstand⟩ := h.stand
  -- reading it moves no node, and succeeds for both or for neither
  obtain ⟨m', ha', hmine⟩ := ha.parse source
  obtain ⟨n', hb', hyours⟩ := hb.parse source
  have hfirst := a.parse_settings source
  have halign : (a.parse source).2.Aligned source (b.parse source).2 :=
    ⟨(hfirst.trans h.settings).trans (b.parse_settings source).symm, m', n', ha', hb',
      ((hmine source).trans hstand).trans (hyours source).symm⟩
  obtain ⟨i, hi⟩ := ha.exists_number source
  obtain ⟨j, hj⟩ := hb.exists_number source
  have hread := ha.parse_number source i j
  rw [h.settings.grammar, ← hj, ← h.settings.grammar, ← hi] at hread
  rcases hA : a.parse source with ⟨result, a'⟩
  rcases hB : b.parse source with ⟨result', b'⟩
  rw [hA, hB] at halign hread
  cases result with
  | error error =>
    cases hread
    rw [perform_generate, perform_generate, Generator.generate, Generator.generate, hA, hB]
    exact ⟨rfl, halign⟩
  | ok tree =>
    cases hread
    rw [hA] at hfirst
    rw [← hfirst.grammar] at hunmarked
    rw [← hfirst.method] at hmethod
    rw [perform_of_parse env hA, perform_of_parse env hB]
    obtain ⟨hanswer, hafter⟩ :=
      halign.rotate env (lookup_parse hA) (lookup_parse hB) hunmarked count
      hmethod
    exact ⟨congrArg Answer.prompts hanswer, hafter⟩

/-- One of them does something else: they stay aligned. -/
theorem perform_other {call : Call} (hcall : call.Unmarked a.grammar)
    (hother : call.rotates a.method source = false) : (a.perform env call).2.Aligned source b := by
  obtain ⟨m, n, ha, hb, hstand⟩ := h.stand
  obtain ⟨m', ha', hsame⟩ := ha.perform env hcall
  exact ⟨(a.perform_settings env call).trans h.settings, m', n, ha', hb,
    (hsame source hother).trans hstand⟩

/-- The answers for the rotation, among all answers of the one, are all answers of the other. The
induction is on the calls, and what is done besides leaves the two aligned. -/
theorem answers (hunmarked : a.grammar.Unmarked source) {calls : List Call}
    (hcalls : ∀ call ∈ calls, call.Unmarked a.grammar) :
    a.answersTo env (Call.rotates a.method source) calls =
      b.answers env (calls.filter (Call.rotates a.method source)) := by
  -- calls that are left out do not move the rotation, so the second generator need not follow them
  induction calls generalizing a b with
  | nil => rfl
  | cons call calls ih =>
    obtain ⟨hcall, hrest⟩ := List.forall_mem_cons.1 hcalls
    have hsettings := a.perform_settings env call
    have hmore : ∀ {b : Generator}, (a.perform env call).2.Aligned source b →
        (a.perform env call).2.answersTo env (Call.rotates a.method source) calls =
          b.answers env (calls.filter (Call.rotates a.method source)) := by
      intro b haligned
      rw [← hsettings.grammar] at hunmarked hrest
      rw [← hsettings.method]
      exact ih haligned hunmarked hrest
    rw [answersTo_cons, List.filter_cons]
    split
    · next hrotates =>
      obtain ⟨hanswer, haligned⟩ := h.perform env hunmarked hrotates
      rw [Generator.answers, hmore haligned, hanswer]
    · next hother => exact hmore (h.perform_other env hcall (Bool.eq_false_iff.2 hother))

end Aligned

/-- **Rotations are independent.** Make a generator and put any calls to it, to read templates and
to use them, by any methods and with any counts, and whether they succeed or fail; no template has
wildcards or markers. Then for each template the calls for its rotation are answered as by another
new generator that gets nothing but these calls. If the template can be read and all of them
succeed, their prompts together are those of one call for as many prompts. And once the template is
kept, no other call drops its tree or moves a node of it: not reading it, not drawing from it or
exhausting it, and nothing that is done with other templates. -/
theorem answers_rotations {declaration : GrammarDeclaration} {method : Text} {first start : Nat}
    {used fresh : Generator} (hused : create declaration method first = .ok used)
    (hfresh : create declaration method start = .ok fresh) (env : Environment) {calls : List Call}
    (hcalls : ∀ call ∈ calls, call.Unmarked used.grammar) {source : Text}
    (hsource : used.grammar.Unmarked source) :
    used.answersTo env (Call.rotates method source) calls =
        fresh.answers env (calls.filter (Call.rotates method source)) ∧
      (∀ tree, (fresh.parse source).1 = .ok tree → ∀ prompts : List (List Text),
        used.answersTo env (Call.rotates method source) calls =
            prompts.map (fun texts => .prompts (.ok texts)) →
          (fresh.generate env (.template source)
            (.ofNat ((calls.filter (Call.rotates method source)).map Call.count).sum)
            (some Sampling.cyclical.name)).1 = .ok prompts.flatten) ∧
      ∀ tree, (used.after env calls).trees.lookup source = some tree →
        ∀ call, call.Unmarked used.grammar → call.rotates method source = false →
          ((used.after env calls).perform env call).2.trees.lookup source = some tree ∧
            ∀ label ∈ tree.labels,
              ((used.after env calls).perform env call).2.session.counters.position label =
                (used.after env calls).session.counters.position label := by
  have hmine := faithful_of_create hused
  have hyours := faithful_of_create hfresh
  have hsettings : used.SameSettings fresh := by
    obtain ⟨hload, hnew⟩ := eq_of_create hused
    obtain ⟨hload', hnew'⟩ := eq_of_create hfresh
    rw [hnew, hnew']
    exact ⟨rfl, Except.ok.inj (hload.symm.trans hload'), rfl⟩
  obtain rfl : used.method = method := by rw [(eq_of_create hused).2]
  have halign : used.Aligned source fresh := by
    refine ⟨hsettings, _, _, hmine, hyours, ?_⟩
    rw [(eq_of_create hused).2, (eq_of_create hfresh).2]
    rfl
  have hanswers := halign.answers env hsource hcalls
  refine ⟨hanswers, fun tree hread prompts hprompts => ?_, fun tree hkept call hcall hother => ?_⟩
  · have hunmarked : fresh.grammar.Unmarked source := hsettings.grammar ▸ hsource
    have hrotates : ∀ call ∈ calls.filter (Call.rotates used.method source),
        call.rotates used.method source = true := fun call hmem => (List.mem_filter.1 hmem).2
    obtain ⟨number, hkeeps, -⟩ := hyours.parse source
    have hkept := fresh.parse_settings source
    rw [hanswers] at hprompts
    rw [generate]
    rcases hparse : fresh.parse source with ⟨result, kept⟩
    rw [hparse] at hread hkeeps hkept
    obtain rfl : result = .ok tree := hread
    have htree := (hkept.grammar ▸ hunmarked).everywhere hkeeps.opens
      (hkeeps.trees source tree (lookup_parse hparse))
    rw [answers_of_parse env hparse hrotates] at hprompts
    have hmethod : kept.method = used.method := hkept.method.trans hsettings.method.symm
    rw [← hmethod] at hrotates hprompts ⊢
    exact generateTree_total hkeeps.grammar env htree (lookup_parse hparse) hrotates hprompts
  · obtain ⟨number, hafter⟩ := hmine.after env hcalls
    have hsame := used.after_settings env calls
    rw [← hsame.grammar] at hcall
    rw [← hsame.method] at hother
    obtain ⟨number', hlater, hstand⟩ := hafter.perform env hcall
    have hkept' := lookup_perform_of_kept hkept env hcall
    refine ⟨hkept', fun label hlabel => ?_⟩
    -- the tree is the same, so its number is
    obtain ⟨place, origin⟩ := label
    obtain rfl : origin = .template (number source) :=
      (Grammar.parse_readFrom (hafter.trees source tree hkept)).origin_eq _ hlabel
    have hnumber : number source = number' source := Origin.template.inj
      ((Grammar.parse_readFrom (hlater.trees source tree hkept')).origin_eq _ hlabel)
    have hplace := congrFun (hstand source hother) place
    rw [standing, standing, keeps_of_lookup hkept, keeps_of_lookup hkept', if_pos rfl, if_pos rfl,
      ← hnumber] at hplace
    exact hplace

/-- A template with three turns. -/
def threefold : Text := units "\x7ba|b|c\x7d"

/-- Calls for its rotation among others: for a template with the same block in it, for the template
itself by other methods, and for one that can not be read. -/
def shuffled : List Call :=
  [.parse (units "\x7ba|"), .generate (.template threefold) 2 none,
    .generate (.template (threefold ++ threefold)) 1 none,
    .generate (.template threefold) 2 (some (units "combinatorial")),
    .generate (.template (units "\x7ba|")) 1 none,
    .generate (.template threefold) 1 (some (units "random")),
    .generate (.template threefold) 2 (some (units "cyclical"))]

theorem answers_rotations_of_shuffled : ∃ used fresh,
    create .absent (units "cyclical") 0 = .ok used ∧
    create .absent (units "cyclical") 7 = .ok fresh ∧
    (∀ call ∈ shuffled, call.Unmarked used.grammar) ∧ used.grammar.Unmarked threefold ∧
    used.answersTo plainEnvironment (Call.rotates (units "cyclical") threefold) shuffled =
      fresh.answers plainEnvironment
        [.generate (.template threefold) 2 none,
          .generate (.template threefold) 2 (some (units "cyclical"))] ∧
    (fresh.generate plainEnvironment (.template threefold) (.ofNat 4)
      (some Sampling.cyclical.name)).1 = .ok [units "a", units "b", units "c", units "a"] := by
  have hused : create .absent (units "cyclical") 0 = .ok _ := rfl
  have hfresh : create .absent (units "cyclical") 7 = .ok _ := rfl
  have hthreefold : Grammar.standard.Unmarked threefold := by decide +kernel
  have htwice : Grammar.standard.Unmarked (threefold ++ threefold) := by decide +kernel
  have hbroken : Grammar.standard.Unmarked (units "\x7ba|") := by decide +kernel
  have hcalls : ∀ call ∈ shuffled, call.Unmarked Grammar.standard := by
    simp only [shuffled, List.forall_mem_cons]
    exact ⟨.parse hbroken, .generate hthreefold _ _, .generate htwice _ _, .generate hthreefold _ _,
      .generate hbroken _ _, .generate hthreefold _ _, .generate hthreefold _ _, nofun⟩
  obtain ⟨hanswers, htotal, -⟩ :=
    answers_rotations hused hfresh plainEnvironment hcalls hthreefold
  refine ⟨_, _, hused, hfresh, hcalls, hthreefold, hanswers, ?_⟩
  -- the tree is too large to write out: it is enough that there is one
  have hread : (Grammar.standard.parse (.template 8) threefold).toOption.isSome = true := by
    decide +kernel
  cases hparse : Grammar.standard.parse (.template 8) threefold with
  | error error =>
    rw [hparse] at hread
    cases hread
  | ok tree =>
    refine htotal tree ?_ [[units "a", units "b"], [units "c", units "a"]] (hanswers.trans ?_)
    · rw [Generator.parse]
      simp only [List.lookup_nil, Session.parseTemplate, Session.fresh, hparse]
    · have hrotations : shuffled.filter (Call.rotates (units "cyclical") threefold) =
          [.generate (.template threefold) 2 none,
            .generate (.template threefold) 2 (some (units "cyclical"))] := rfl
      rw [hrotations]
      simp only [answers, perform_generate, List.map_cons, List.map_nil, List.cons.injEq,
        Answer.prompts.injEq, and_true]
      decide +kernel

end Generator

end PromptTemplate
