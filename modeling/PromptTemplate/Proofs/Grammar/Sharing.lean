/-
`Sharing.lean` -- readers are shared exactly between equal choices of delimiters.

Two tables stand behind the readers, one by the handles of declarations and one by the keys of
grammars. What ties them together is that a handle leads to a reader of the grammar that its
declaration gives, and that no two readers have the same grammar (`SharedReaders.Consistent`). The
second half rests on the key, which tells grammars apart: it is a list of quoted texts, and a quoted
text can be told from what follows.
-/
import Mathlib.Data.List.Nodup
import PromptTemplate.Grammar.Shared
import PromptTemplate.Proofs.Json.Strings

set_option autoImplicit false

namespace PromptTemplate

/-! ## 1. Keys -/

/-- Quoted texts with commas between are told apart, whatever follows them. -/
theorem Text.join_quote_inj {texts others : List Text} (hlength : texts.length = others.length)
    {rest more : Text}
    (h : join (units ",") (texts.map quote) ++ rest = join (units ",") (others.map quote) ++ more) :
    texts = others := by
  induction texts generalizing others with
  | nil => exact (List.length_eq_zero_iff.1 hlength.symm).symm
  | cons first texts ih =>
    obtain ⟨other, others, rfl⟩ := List.exists_cons_of_length_eq_add_one hlength.symm
    have hfewer : texts.length = others.length := Nat.succ.inj hlength
    -- a quoted text ends where its quote ends, so the first one can be split off on both sides
    cases texts with
    | nil =>
      obtain rfl := List.length_eq_zero_iff.1 hfewer.symm
      rw [(quote_append_inj h).1]
    | cons second texts =>
      obtain ⟨last, others, rfl⟩ := List.exists_cons_of_length_eq_add_one hfewer.symm
      simp only [List.map_cons, join, List.append_assoc] at h
      obtain ⟨rfl, hrest⟩ := quote_append_inj h
      rw [ih hfewer (List.append_cancel_left hrest)]

/-- The key tells grammars apart, whatever units the delimiters have. -/
theorem Grammar.key_injective : Function.Injective Grammar.key := by
  intro g g' h
  have hquoted := List.append_cancel_left ((List.append_assoc _ _ _).symm.trans
    (h.trans (List.append_assoc _ _ _)))
  have htexts : g.fields.map (·.2) = g'.fields.map (·.2) :=
    Text.join_quote_inj rfl (by simpa only [List.map_map, Function.comp_def] using hquoted)
  cases g
  cases g'
  simpa [fields] using htexts

namespace SharedReaders

/-! ## 2. One call -/

variable {declared : Nat → GrammarDeclaration}

/-- A handle that was seen leads to a reader of its grammar, and each grammar has one reader. -/
structure Consistent (declared : Nat → GrammarDeclaration) (readers : SharedReaders) : Prop where
  known : ∀ handle number, readers.seen.lookup handle = some number →
    ∃ g, Grammar.load (declared handle) = .ok g ∧ readers.grammars[number]? = some g
  single : readers.grammars.Nodup

theorem Consistent.empty : Consistent declared .empty := ⟨nofun, .nil⟩

/-- A reader that is there stays the one of its number. -/
theorem getElem?_of_prefix {grammars more : List Grammar} (hkept : grammars <+: more) {number : Nat}
    {g : Grammar} (h : grammars[number]? = some g) : more[number]? = some g := by
  obtain ⟨new, rfl⟩ := hkept
  rwa [List.getElem?_append_left (List.getElem?_eq_some_iff.1 h).1]

theorem numberOfKey?_eq_none {readers : SharedReaders} {g : Grammar}
    (h : readers.numberOfKey? g.key = none) : g ∉ readers.grammars := fun hmem => by
  simpa using List.findIdx?_eq_none_iff.1 h g hmem

theorem getElem?_of_numberOfKey? {readers : SharedReaders} {g : Grammar} {number : Nat}
    (h : readers.numberOfKey? g.key = some number) : readers.grammars[number]? = some g := by
  obtain ⟨hlt, hkey, -⟩ := List.findIdx?_eq_some_iff_getElem.1 h
  rw [List.getElem?_eq_getElem hlt, Grammar.key_injective (of_decide_eq_true hkey)]

/-- A further handle for a reader of its grammar. -/
theorem Consistent.see {readers : SharedReaders} (h : readers.Consistent declared)
    {handle number : Nat} {g : Grammar} {grammars : List Grammar}
    (hload : Grammar.load (declared handle) = .ok g) (hkept : readers.grammars <+: grammars)
    (hsingle : grammars.Nodup) (hnumber : grammars[number]? = some g) :
    Consistent declared ⟨(handle, number) :: readers.seen, grammars⟩ := by
  refine ⟨fun other place hother => ?_, hsingle⟩
  rw [List.lookup_cons] at hother
  split at hother
  · next hsame =>
    cases hother
    rw [eq_of_beq hsame]
    exact ⟨g, hload, hnumber⟩
  · obtain ⟨found, hfound, hplace⟩ := h.known other place hother
    exact ⟨found, hfound, getElem?_of_prefix hkept hplace⟩

/-- What a call can do: a declaration that is refused is refused again and leaves everything as it
is; for any other one a reader of its grammar comes back, and no reader is lost. -/
theorem Consistent.get {readers : SharedReaders} (h : readers.Consistent declared) (handle : Nat) :
    (∃ error, Grammar.load (declared handle) = .error error ∧
      readers.get handle (declared handle) = (.error error, readers)) ∨
    ∃ g number after, Grammar.load (declared handle) = .ok g ∧
      readers.get handle (declared handle) = (.ok number, after) ∧
        after.grammars[number]? = some g ∧
      readers.grammars <+: after.grammars ∧ after.Consistent declared := by
  unfold SharedReaders.get
  -- a declaration seen before, or refused, or one of a grammar that is there, or a new grammar
  cases hseen : readers.seen.lookup handle with
  | some number =>
    obtain ⟨g, hload, hnumber⟩ := h.known handle number hseen
    exact .inr ⟨g, number, readers, hload, rfl, hnumber, List.prefix_refl _, h⟩
  | none =>
    cases hload : Grammar.load (declared handle) with
    | error error => exact .inl ⟨error, rfl, rfl⟩
    | ok g =>
      refine .inr ?_
      cases hkey : readers.numberOfKey? g.key with
      | some number =>
        have hnumber := getElem?_of_numberOfKey? hkey
        exact ⟨g, number, ⟨(handle, number) :: readers.seen, readers.grammars⟩, rfl,
          by simp only [hkey], hnumber, List.prefix_refl _,
          h.see hload (List.prefix_refl _) h.single hnumber⟩
      | none =>
        have hnew := numberOfKey?_eq_none hkey
        have hkept : readers.grammars <+: readers.grammars ++ [g] := List.prefix_append _ _
        have hsingle : (readers.grammars ++ [g]).Nodup :=
          List.nodup_append'.2 ⟨h.single, List.nodup_singleton g, List.disjoint_singleton.2 hnew⟩
        exact ⟨g, readers.grammars.length,
          ⟨(handle, readers.grammars.length) :: readers.seen, readers.grammars ++ [g]⟩, rfl,
          by simp only [hkey], List.getElem?_concat_length, hkept,
          h.see hload hkept hsingle List.getElem?_concat_length⟩

/-! ## 3. Any calls -/

/-- The replies to calls, one after another, each with the handle that it was called for. Handles
name declarations that do not change. -/
def replies (declared : Nat → GrammarDeclaration) :
    SharedReaders → List Nat → List (Nat × Except ConfigurationError Nat)
  | _, [] => []
  | readers, handle :: handles =>
    (handle, (readers.get handle (declared handle)).1) ::
      replies declared (readers.get handle (declared handle)).2 handles

/-- The readers behind the calls. -/
def after (declared : Nat → GrammarDeclaration) : SharedReaders → List Nat → SharedReaders
  | readers, [] => readers
  | readers, handle :: handles => after declared (readers.get handle (declared handle)).2 handles

theorem replies_append (readers : SharedReaders) (handles more : List Nat) :
    replies declared readers (handles ++ more) =
      replies declared readers handles ++
        replies declared (after declared readers handles) more := by
  induction handles generalizing readers with
  | nil => rfl
  | cons handle handles ih => rw [List.cons_append, replies, replies, ih, after, List.cons_append]

theorem length_replies (readers : SharedReaders) (handles : List Nat) :
    (replies declared readers handles).length = handles.length := by
  induction handles generalizing readers with
  | nil => rfl
  | cons handle handles ih => rw [replies, List.length_cons, ih, List.length_cons]

/-- No call loses a reader or the tie between the tables. -/
theorem Consistent.after {readers : SharedReaders} (h : readers.Consistent declared)
    (handles : List Nat) : (after declared readers handles).Consistent declared ∧
      readers.grammars <+: (SharedReaders.after declared readers handles).grammars := by
  induction handles generalizing readers with
  | nil => exact ⟨h, List.prefix_refl _⟩
  | cons handle handles ih =>
    rw [SharedReaders.after]
    rcases h.get handle with ⟨error, -, hget⟩ | ⟨g, number, next, -, hget, -, hkept, hnext⟩
    · rw [hget]
      exact ih h
    · rw [hget]
      exact ⟨(ih hnext).1, hkept.trans (ih hnext).2⟩

/-- What a call for a declaration comes back with, once and for all calls: its error, or the reader
of its grammar. -/
def Settles (declared : Nat → GrammarDeclaration) (grammars : List Grammar) (handle : Nat)
    (reply : Except ConfigurationError Nat) : Prop :=
  match Grammar.load (declared handle) with
  | .error error => reply = .error error
  | .ok g => ∃ number, reply = .ok number ∧ grammars[number]? = some g

theorem Settles.exists_grammar {grammars : List Grammar} {handle number : Nat}
    (h : Settles declared grammars handle (.ok number)) :
    ∃ g, Grammar.load (declared handle) = .ok g := by
  unfold Settles at h
  cases hload : Grammar.load (declared handle) with
  | error error => rw [hload] at h; cases h
  | ok g => exact ⟨g, rfl⟩

theorem Consistent.settles {readers : SharedReaders} (h : readers.Consistent declared)
    (handles : List Nat) : ∀ reply ∈ replies declared readers handles,
      Settles declared (SharedReaders.after declared readers handles).grammars reply.1 reply.2 := by
  induction handles generalizing readers with
  | nil => exact nofun
  | cons handle handles ih =>
    rw [replies, SharedReaders.after]
    unfold Settles
    rcases h.get handle
      with ⟨error, hload, hget⟩ | ⟨g, number, next, hload, hget, hnumber, -, hnext⟩
    · rw [hget]
      exact List.forall_mem_cons.2 ⟨by simp only [hload], ih h⟩
    · rw [hget]
      have hlast := getElem?_of_prefix (hnext.after handles).2 hnumber
      exact List.forall_mem_cons.2 ⟨by simpa only [hload] using ⟨number, rfl, hlast⟩, ih hnext⟩

/-- Readers of two declarations are the same one exactly if the grammars are the same. -/
theorem Consistent.eq_iff {readers : SharedReaders} (h : readers.Consistent declared)
    {first second m n : Nat} (hfirst : Settles declared readers.grammars first (.ok m))
    (hsecond : Settles declared readers.grammars second (.ok n)) :
    m = n ↔ Grammar.load (declared first) = Grammar.load (declared second) := by
  unfold Settles at hfirst hsecond
  cases hg : Grammar.load (declared first) with
  | error error => rw [hg] at hfirst; cases hfirst
  | ok g =>
    cases hg' : Grammar.load (declared second) with
    | error error => rw [hg'] at hsecond; cases hsecond
    | ok g' =>
      rw [hg] at hfirst
      rw [hg'] at hsecond
      obtain ⟨_, hm, hplace⟩ := hfirst
      obtain ⟨_, hn, hplace'⟩ := hsecond
      cases hm
      cases hn
      constructor
      · rintro rfl
        -- each grammar has one number as the table has no grammar twice
        rw [Option.some.inj (hplace.symm.trans hplace')]
      · intro heq
        cases heq
        have hlt := (List.getElem?_eq_some_iff.1 hplace).1
        exact (List.getElem?_inj hlt h.single).1 (hplace.trans hplace'.symm)

/-- **Readers are shared exactly between equal choices of delimiters.** Call for readers any number
of times, by the handles of declarations that do not change, be they left out, given or refused. A
call fails exactly if its declaration is refused, and with that error; any other call comes back
with a reader whose grammar is the declared one. Two calls come back with the same reader exactly
if the grammars of their declarations are equal in all seven delimiters, whatever units these have.
A call that fails changes no reply to the calls behind it. -/
theorem replies_shared (declared : Nat → GrammarDeclaration) (handles : List Nat) :
    (∀ reply ∈ replies declared .empty handles,
      Settles declared (after declared .empty handles).grammars reply.1 reply.2) ∧
    (∀ first ∈ replies declared .empty handles, ∀ second ∈ replies declared .empty handles,
      ∀ m n, first.2 = .ok m → second.2 = .ok n → ∃ g g', Grammar.load (declared first.1) = .ok g ∧
        Grammar.load (declared second.1) = .ok g' ∧ (m = n ↔ g = g')) ∧
    ∀ before handle behind, handles = before ++ handle :: behind →
      ∀ error, Grammar.load (declared handle) = .error error → ∃ earlier later,
        earlier.length = before.length ∧
          replies declared .empty handles = earlier ++ (handle, .error error) :: later ∧
          replies declared .empty (before ++ behind) = earlier ++ later := by
  have hempty : Consistent declared .empty := .empty
  have hsettles := hempty.settles handles
  refine ⟨hsettles, fun first hfirst second hsecond m n hm hn => ?_, ?_⟩
  · have hm' := hsettles first hfirst
    have hn' := hsettles second hsecond
    rw [hm] at hm'
    rw [hn] at hn'
    obtain ⟨g, hg⟩ := hm'.exists_grammar
    obtain ⟨g', hg'⟩ := hn'.exists_grammar
    refine ⟨g, g', hg, hg', ((hempty.after handles).1.eq_iff hm' hn').trans ?_⟩
    rw [hg, hg', Except.ok.injEq]
  · rintro before handle behind rfl error herror
    -- the call that fails leaves the readers as the calls before it left them
    have hget : (after declared .empty before).get handle (declared handle) =
        (.error error, after declared .empty before) := by
      rcases (hempty.after before).1.get handle with ⟨found, hfound, hget⟩ | ⟨g, _, _, hload, -⟩
      · rw [herror] at hfound
        cases hfound
        exact hget
      · rw [herror] at hload
        cases hload
    refine ⟨replies declared .empty before, replies declared (after declared .empty before) behind,
      length_replies _ _, ?_, replies_append _ _ _⟩
    rw [replies_append, replies, hget]

/-- Delimiters with a quote, a comma, a backslash and half of a surrogate pair, declared twice and
in different orders; a declaration that is refused; and none. -/
def quaint : Nat → GrammarDeclaration
  | 1 => .members [(units "variantStart", some (.str (units "\",\""))),
      (units "variableStart", some (.str [0xD800, 92]))]
  | 2 => .members [(units "variableStart", some (.str [0xD800, 92])),
      (units "variantStart", some (.str (units "\",\"")))]
  | 3 => .members [(units "wrapStart", some (.str []))]
  | _ => .absent

/-- Both declarations of these delimiters get one reader, whatever is refused between them, and the
standard delimiters get another. -/
theorem replies_shared_of_quaint :
    replies quaint .empty [1, 3, 2, 0] =
        [(1, .ok 0), (3, .error ⟨[.empty (units "wrapStart")]⟩), (2, .ok 0), (0, .ok 1)] ∧
      (∃ g, Grammar.load (quaint 1) = .ok g ∧ Grammar.load (quaint 2) = .ok g) ∧
      ∃ earlier later, earlier.length = [1].length ∧
        replies quaint .empty [1, 3, 2, 0] =
          earlier ++ (3, .error ⟨[.empty (units "wrapStart")]⟩) :: later ∧
        replies quaint .empty [1, 2, 0] = earlier ++ later := by
  have hreplies : replies quaint .empty [1, 3, 2, 0] =
      [(1, .ok 0), (3, .error ⟨[.empty (units "wrapStart")]⟩), (2, .ok 0), (0, .ok 1)] := rfl
  obtain ⟨-, hsame, hrefused⟩ := replies_shared quaint [1, 3, 2, 0]
  have hfirst : (1, .ok 0) ∈ replies quaint .empty [1, 3, 2, 0] := by
    rw [hreplies]
    exact List.mem_cons_self
  have hthird : (2, .ok 0) ∈ replies quaint .empty [1, 3, 2, 0] := by
    rw [hreplies]
    simp
  obtain ⟨g, g', hg, hg', hiff⟩ := hsame _ hfirst _ hthird 0 0 rfl rfl
  obtain rfl : g = g' := hiff.1 rfl
  exact ⟨hreplies, ⟨g, hg, hg'⟩, hrefused [1] 3 [2, 0] rfl _ rfl⟩

end SharedReaders

end PromptTemplate
