/-
`Prefixes.lean` -- fewer different texts are the first of more.

A run is looked through until there are as many different texts as asked for
(`Run.distinctTexts`). Whoever asks for fewer stops earlier on the same way: the texts so far are
the same, and what the longer look meets behind them, draws and errors too, is never met. Main
statement: `enumerateDistinct_fewer`.
-/
import PromptTemplate.Proofs.Expansion.Advancing
import PromptTemplate.Proofs.Text.Order

set_option autoImplicit false

namespace PromptTemplate

/-! ## 1. Texts not seen before -/

/-- The texts of some branches that were not seen before, each once, in order. -/
def Branch.newTexts (seen : List Text) (branches : List Branch) : List Text :=
  ((branches.map (·.text)).removeAll seen).eraseDups

namespace Branch

variable {seen : List Text} {branch : Branch}

theorem newTexts_nil (seen : List Text) : newTexts seen [] = [] := rfl

/-- A text that was seen counts for nothing. -/
theorem newTexts_cons_of_mem (h : branch.text ∈ seen) (branches : List Branch) :
    newTexts seen (branch :: branches) = newTexts seen branches := by
  rw [newTexts, List.map_cons, List.cons_removeAll, if_neg (by simpa using h), newTexts]

/-- A text that was not seen comes first, and then it was. -/
theorem newTexts_cons_of_not_mem (h : branch.text ∉ seen) (branches : List Branch) :
    newTexts seen (branch :: branches) = branch.text :: newTexts (branch.text :: seen)
      branches := by
  rw [newTexts, List.map_cons, List.cons_removeAll, if_pos (by simpa using h), List.eraseDups_cons,
    newTexts, List.removeAll_cons]
  simp only [List.removeAll, List.filter_filter, Bool.and_comm]

theorem newTexts_of_none_seen (branches : List Branch) :
    newTexts [] branches = (branches.map (·.text)).eraseDups := by
  rw [newTexts, List.removeAll_nil]

end Branch

/-! ## 2. Looking through a run -/

namespace Run

variable {run : Run} {limit : Option Nat} {seen texts : List Text} {after : Session}

/-- The texts seen so far, the latest first, once a branch was looked at. -/
def look (seen : List Text) (branch : Branch) : List Text := seen.insert branch.text

theorem length_look_le (seen : List Text) (branch : Branch) :
    (look seen branch).length ≤ seen.length + 1 := by
  unfold look
  by_cases h : branch.text ∈ seen
  · rw [List.insert_of_mem h]
    exact Nat.le_succ _
  · rw [List.insert_of_not_mem h]
    exact Nat.le_refl _

/-- What is seen with a branch is followed by what is new behind it. -/
theorem reverse_look_append (seen : List Text) (branch : Branch) (branches : List Branch) :
    (look seen branch).reverse ++ Branch.newTexts (look seen branch) branches =
      seen.reverse ++ Branch.newTexts seen (branch :: branches) := by
  unfold look
  by_cases h : branch.text ∈ seen
  · rw [List.insert_of_mem h, Branch.newTexts_cons_of_mem h]
  · rw [List.insert_of_not_mem h, Branch.newTexts_cons_of_not_mem h, List.reverse_cons,
      List.append_assoc, List.singleton_append]

/-- The branch that stands ready is looked at, and then the look is over or goes on. -/
theorem distinctTexts_yield (limit : Option Nat) (seen : List Text) (branch : Branch) (s : Session)
    (rest : Session → Run) :
    (yield branch s rest).distinctTexts limit seen =
      if limit.any (· ≤ (look seen branch).length) then (.ok (look seen branch).reverse, s)
      else (rest s).distinctTexts limit (look seen branch) := by
  have hlook : (if branch.text ∈ seen then seen else branch.text :: seen) = look seen branch := by
    unfold look
    by_cases h : branch.text ∈ seen
    · rw [if_pos h, List.insert_of_mem h]
    · rw [if_neg h, List.insert_of_not_mem h]
  rw [distinctTexts, hlook]

/-- With a branch that makes the texts as many as the limit, the look is over. -/
theorem distinctTexts_yield_of_le {n : Nat} (branch : Branch) (s : Session)
    (rest : Session → Run) (h : n ≤ (look seen branch).length) :
    (yield branch s rest).distinctTexts (some n) seen = (.ok (look seen branch).reverse, s) :=
  (distinctTexts_yield _ _ _ _ _).trans (if_pos (decide_eq_true h))

/-- With fewer texts than the limit it goes on where the run was left. -/
theorem distinctTexts_yield_of_lt (branch : Branch) (s : Session) (rest : Session → Run)
    (h : ∀ n, limit = some n → (look seen branch).length < n) :
    (yield branch s rest).distinctTexts limit seen =
      (rest s).distinctTexts limit (look seen branch) := by
  rw [distinctTexts_yield]
  refine if_neg ?_
  cases limit with
  | none => exact Bool.false_ne_true
  | some n => exact fun hreached => absurd (of_decide_eq_true hreached) (Nat.not_le.2 (h n rfl))

/-- The texts that a look finds are those of the branches that it takes. It takes them up to the
one that makes the texts as many as the limit, or all of them, and then they are fewer. -/
theorem exists_taken_of_distinctTexts (h : run.distinctTexts limit seen = (.ok texts, after))
    (hroom : ∀ n, limit = some n → seen.length < n) :
    ∃ branches : List Branch, texts = seen.reverse ++ Branch.newTexts seen branches ∧
      ((limit = some texts.length ∧ branches ≠ [] ∧
          run.take (some branches.length) = (branches, .limit, after)) ∨
        ((∀ n, limit = some n → texts.length < n) ∧
          run.take none = (branches, .exhausted, after))) := by
  induction run generalizing seen with
  | done s =>
    cases h
    refine ⟨[], by rw [Branch.newTexts_nil, List.append_nil], .inr ⟨fun n hn => ?_, rfl⟩⟩
    rw [List.length_reverse]
    exact hroom n hn
  | fail error s => cases h
  | yield branch s rest ih =>
    by_cases hmore : ∀ n, limit = some n → (look seen branch).length < n
    · rw [distinctTexts_yield_of_lt branch s rest hmore] at h
      obtain ⟨branches, htexts, htaken⟩ := ih s h hmore
      refine ⟨branch :: branches, htexts.trans (reverse_look_append seen branch branches), ?_⟩
      refine htaken.imp (fun ⟨hlimit, hne, htake⟩ => ⟨hlimit, List.cons_ne_nil _ _, ?_⟩)
        fun ⟨hfewer, htake⟩ => ⟨hfewer, ?_⟩
      -- taking one more branch takes the first one and then those
      · have hleft : ¬ some branches.length = some 0 := by simpa using hne
        simp only [take, List.length_cons, Option.map_some, Nat.add_sub_cancel, if_neg hleft, htake]
      · simp only [take, Option.map_none, reduceCtorEq, if_false, htake]
    · simp only [not_forall, Nat.not_lt, exists_prop] at hmore
      obtain ⟨n, rfl, hreached⟩ := hmore
      rw [distinctTexts_yield_of_le branch s rest hreached] at h
      cases h
      have hlength := length_look_le seen branch
      have hexact : (look seen branch).length = n := by have := hroom n rfl; omega
      refine ⟨[branch], ?_, .inl ⟨?_, List.cons_ne_nil _ _, rfl⟩⟩
      · rw [← reverse_look_append, Branch.newTexts_nil, List.append_nil]
      · rw [List.length_reverse, hexact]

/-- A look takes no draw back. -/
theorem le_drawn_of_distinctTexts {drawn : Nat} (hadvances : run.Advances drawn)
    (limit : Option Nat) (seen : List Text) : drawn ≤ (run.distinctTexts limit seen).2.drawn := by
  induction run generalizing seen drawn with
  | done s => exact hadvances
  | fail error s => exact hadvances
  | yield branch s rest ih =>
    obtain ⟨hdrawn, hrest⟩ := hadvances
    rw [distinctTexts_yield]
    split
    · exact hdrawn
    · exact Nat.le_trans hdrawn (ih s (hrest s) _)

/-- A look for fewer texts finds the first of those that a look for more finds, and takes no more
draws. As long as neither is over, both are in the same session. -/
theorem distinctTexts_take {drawn : Nat} (hadvances : run.Advances drawn)
    (h : run.distinctTexts limit seen = (.ok texts, after)) {fewer : Nat}
    (hroom : seen.length < fewer) (hfewer : ∀ n, limit = some n → fewer ≤ n) :
    ∃ earlier : Session, run.distinctTexts (some fewer) seen = (.ok (texts.take fewer), earlier) ∧
      earlier.drawn ≤ after.drawn := by
  induction run generalizing seen drawn with
  | done s =>
    cases h
    refine ⟨_, ?_, Nat.le_refl _⟩
    rw [List.take_of_length_le (by rw [List.length_reverse]; omega)]
    rfl
  | fail error s => cases h
  | yield branch s rest ih =>
    obtain ⟨-, hrest⟩ := hadvances
    have hlength := length_look_le seen branch
    by_cases hover : fewer ≤ (look seen branch).length
    · -- the shorter look is over with this branch; the longer one keeps what it has seen
      rw [distinctTexts_yield_of_le branch s rest hover]
      have hexact : (look seen branch).reverse.length = fewer := by
        rw [List.length_reverse]
        omega
      refine ⟨s, ?_⟩
      by_cases hmore : ∀ n, limit = some n → (look seen branch).length < n
      · rw [distinctTexts_yield_of_lt branch s rest hmore] at h
        obtain ⟨branches, rfl, -⟩ := exists_taken_of_distinctTexts h hmore
        have hdrawn := le_drawn_of_distinctTexts (hrest s) limit (look seen branch)
        rw [h] at hdrawn
        rw [List.take_left' hexact]
        exact ⟨rfl, hdrawn⟩
      · simp only [not_forall, Nat.not_lt, exists_prop] at hmore
        obtain ⟨n, rfl, hreached⟩ := hmore
        rw [distinctTexts_yield_of_le branch s rest hreached] at h
        cases h
        rw [← hexact, List.take_length]
        exact ⟨rfl, Nat.le_refl _⟩
    · -- neither is over
      have hmore : ∀ n, limit = some n → (look seen branch).length < n := fun n hn => by
        have := hfewer n hn
        omega
      rw [distinctTexts_yield_of_lt branch s rest hmore] at h
      rw [distinctTexts_yield_of_lt branch s rest fun n hn => by cases hn; omega]
      exact ih s (hrest s) h (by omega)

end Run

/-! ## 3. The first different renderings -/

/-- **Asking for fewer different renderings gives the first of them.** If as many as a limit, or
all of them, are found without an error, then in the same session any smaller limit gives the
first of these renderings, as many as it asks for or all there are, again without an error and
with no more draws: nothing of what stands behind the last of them is met. What is found has no
repetition, is never more than the limit, and is the texts of some branches of the tree in the
order in which each comes first. Those branches are taken up to the one whose text makes them as
many as the limit, or, where they stay fewer, they are all branches that the tree has. -/
theorem enumerateDistinct_fewer (env : Environment) (command : Command) (scope : Scope)
    (s : Session) {limit : Option Nat} {texts : List Text} {after : Session}
    (h : enumerateDistinct env command scope limit s = (.ok texts, after)) :
    (∀ fewer : Nat, (∀ n, limit = some n → fewer ≤ n) → ∃ earlier : Session,
      enumerateDistinct env command scope (some fewer) s = (.ok (texts.take fewer), earlier) ∧
        earlier.drawn ≤ after.drawn) ∧
    texts.Nodup ∧ (∀ n, limit = some n → texts.length ≤ n) ∧
    ∃ branches : List Branch, texts = (branches.map (·.text)).eraseDups ∧
      ((limit = some texts.length ∧ (enumerate env command scope []).take (some branches.length) s =
          (branches, .limit, after)) ∨
        ((∀ n, limit = some n → texts.length < n) ∧ (enumerate env command scope []).take none s =
          (branches, .exhausted, after))) := by
  have hadvances := enumerateWithin_advances env env.depthLimit command scope [] s
  by_cases hzero : limit = some 0
  · -- nothing is asked for, and nothing runs
    subst hzero
    cases h
    refine ⟨fun fewer hfewer => ⟨s, ?_, Nat.le_refl _⟩, List.nodup_nil, fun n _ => Nat.zero_le n,
      [], rfl, .inl ⟨rfl, rfl⟩⟩
    rw [Nat.le_zero.1 (hfewer 0 rfl)]
    rfl
  · have hroom : ∀ n, limit = some n → ([] : List Text).length < n := fun n hn =>
      Nat.pos_of_ne_zero fun h0 => hzero (h0 ▸ hn)
    rw [enumerateDistinct, Branches.distinctTexts, if_neg hzero] at h
    obtain ⟨branches, htexts, htaken⟩ := Run.exists_taken_of_distinctTexts h hroom
    rw [List.reverse_nil, List.nil_append, Branch.newTexts_of_none_seen] at htexts
    refine ⟨fun fewer hfewer => ?_, ?_, ?_, branches, htexts, ?_⟩
    · cases fewer with
      | zero =>
        have hdrawn := Run.le_drawn_of_distinctTexts hadvances limit []
        rw [enumerate, h] at *
        exact ⟨s, rfl, hdrawn⟩
      -- zero texts need no run at all, so the law for a shorter look begins at one
      | succ fewer =>
        rw [enumerateDistinct, Branches.distinctTexts, if_neg (by simp)]
        exact Run.distinctTexts_take hadvances h (Nat.succ_pos fewer) hfewer
    · rw [htexts]
      exact Text.nodup_eraseDups _
    · rintro n rfl
      rcases htaken with ⟨hlimit, -⟩ | ⟨hfewer, -⟩
      · exact Nat.le_of_eq (Option.some.inj hlimit).symm
      · exact Nat.le_of_lt (hfewer n rfl)
    -- a limit that is reached had a branch to reach it with, which the bounded run asks for
    · refine htaken.imp (fun ⟨hlimit, hne, htake⟩ => ⟨hlimit, ?_⟩) fun ⟨hfewer, htake⟩ =>
        ⟨hfewer, htake⟩
      rw [Branches.take, if_neg (by simpa using hne)]
      exact htake

/-- Two options are drawn from inside of a node that has all its choices, one of them twice, and
an unknown variable comes last. -/
def partlyDrawnSample : Command :=
  .variant ⟨[0], .built 0⟩
    [⟨1, .literal (units "a")⟩, ⟨1, .literal (units "a")⟩,
      ⟨1, .variant ⟨[1], .built 0⟩ [⟨1, .literal (units "b")⟩, ⟨1, .literal (units "c")⟩] 1 1
        (units ",") (some .random)⟩,
      ⟨1, .literal (units "d")⟩, ⟨1, .access (units "x") none⟩]
    1 1 (units ",") none

/-- Every draw is a half, and numbers are exact. -/
def halvingEnvironment : Environment where
  grammar := .standard
  source := fun _ => .finite (mkRat 1 2)
  round := .exact
  policy := .automatic
  resolve := fun _ => .ok []
  depthLimit := 4

/-- Three texts of the sample are found before its error is met, and one of them without a draw. -/
theorem enumerateDistinct_fewer_of_partlyDrawn :
    enumerateDistinct halvingEnvironment partlyDrawnSample (.root []) (some 3) (Session.fresh 0) =
        (.ok [units "a", units "c", units "d"], { Session.fresh 0 with drawn := 1 }) ∧
      ∃ earlier : Session,
        enumerateDistinct halvingEnvironment partlyDrawnSample (.root []) (some 1)
          (Session.fresh 0) =
          (.ok [units "a"], earlier) ∧ earlier.drawn ≤ 1 := by
  have hfound : enumerateDistinct halvingEnvironment partlyDrawnSample (.root []) (some 3)
      (Session.fresh 0) =
      (.ok [units "a", units "c", units "d"], { Session.fresh 0 with drawn := 1 }) := by
    with_unfolding_all rfl
  refine ⟨hfound, (enumerateDistinct_fewer _ _ _ _ hfound).1 1 fun n hn => ?_⟩
  cases hn
  decide

end PromptTemplate
