/-
`Comments.lean` -- what stands in a comment is of no account.

A comment is skipped in one step, to the end of its line or past its closing mark, and what
is left there is the same text whatever stood in it. So two sources that differ in a comment
come to twin places behind it, and from there on they are read alike. What is left to see is
that both come to the comment in the same way: the text before it holds no mark of the
grammar, so it is read as one run of plain text, which ends where the comment begins.
-/
import PromptTemplate.Proofs.Template.Doubles

set_option autoImplicit false

namespace PromptTemplate

/-! ## 1. Searching -/

namespace Text

theorem includes_cons (u : CodeUnit) (rest token : Text) :
    includes (u :: rest) token = (startsWith (u :: rest) token || includes rest token) := by
  rw [includes, includes, cut, startsWith]
  cases token.isPrefixOf (u :: rest) with
  | true => rfl
  | false => simp

/-- A pair of units that begins no text begins none that goes on without its second unit. -/
theorem startsWith_pair_append {u v w : CodeUnit} {p ahead : Text}
    (h : startsWith (u :: p) [v, w] = false) (hend : u = v → p = [] → ahead.head? ≠ some w) :
    startsWith (u :: (p ++ ahead)) [v, w] = false := by
  rw [startsWith, List.isPrefixOf_cons_cons] at h ⊢
  by_cases hv : v = u
  · subst hv
    cases p with
    | nil =>
      cases ahead with
      | nil => simp
      | cons a ahead =>
        have hne : w ≠ a := fun hw => hend rfl rfl (by rw [hw, List.head?_cons])
        simp [List.isPrefixOf_cons_cons, hne]
    | cons a p => simpa [List.isPrefixOf_cons_cons] using h
  · rw [beq_false_of_ne hv, Bool.false_and]

/-- A text is cut at the pair behind a part that has none. -/
theorem cut_pair_append {v w : CodeUnit} (hne : v ≠ w) {c : Text} (h : c.includes [v, w] = false)
    (s : Text) : cut [v, w] (c ++ v :: w :: s) = some (c, s) := by
  induction c with
  | nil => simp [cut]
  | cons u c ih =>
    rw [includes_cons, Bool.or_eq_false_iff] at h
    have hnot : startsWith (u :: (c ++ v :: w :: s)) [v, w] = false := by
      refine startsWith_pair_append h.1 fun _ _ => ?_
      rw [List.head?_cons, Ne, Option.some.injEq]
      exact hne
    rw [startsWith] at hnot
    rw [List.cons_append, cut, hnot, if_neg Bool.false_ne_true, ih h.2]
    rfl

/-- No mark that begins a comment is among letters and digits. -/
theorem not_mem_of_isAlphanumeric {t : Text} (h : t.isAlphanumeric = true) {u : CodeUnit}
    (hu : u = 35 ∨ u = 47) : u ∉ t := by
  intro hmem
  rw [isAlphanumeric, Bool.and_eq_true] at h
  rcases hu with rfl | rfl
  · have hpoint := List.all_eq_true.1 h.2 _ (mem_points (by decide) (by decide) hmem)
    exact absurd hpoint (by decide +kernel)
  · have hpoint := List.all_eq_true.1 h.2 _ (mem_points (by decide) (by decide) hmem)
    exact absurd hpoint (by decide +kernel)

end Text

namespace Template

open Command (Alike)
open Reader (Agree AcceptAlike)

/-! ## 2. Text without marks -/

/-- No mark of the standard grammar stands in the text, nor one that begins a comment. -/
structure Bare (p : Text) : Prop where
  openers : ∀ opener ∈ Grammar.standard.openers, p.includes opener = false
  sign : 35 ∉ p
  slashes : p.includes (units "//") = false
  star : p.includes (units "/*") = false

/-- No such mark begins here. -/
structure Unmarked (ahead : Text) : Prop where
  openers : ∀ opener ∈ Grammar.standard.openers, ahead.startsWith opener = false
  sign : ahead.head? ≠ some 35
  slashes : ahead.startsWith (units "//") = false
  star : ahead.startsWith (units "/*") = false

/-- What follows begins like a comment, and its first slash makes none with the text before. -/
def Follows (p ahead : Text) : Prop := ∀ u ∈ ahead.head?, u = 35 ∨ u = 47 ∧ p.getLast? ≠ some 47

variable {u : CodeUnit} {p ahead : Text}

theorem Bare.tail (h : Bare (u :: p)) : Bare p := by
  obtain ⟨hopeners, hsign, hslashes, hstar⟩ := h
  refine ⟨fun opener hmem => ?_, fun hmem => hsign (List.mem_cons_of_mem _ hmem), ?_, ?_⟩
  · have hopener := hopeners opener hmem
    rw [Text.includes_cons, Bool.or_eq_false_iff] at hopener
    exact hopener.2
  · rw [Text.includes_cons, Bool.or_eq_false_iff] at hslashes
    exact hslashes.2
  · rw [Text.includes_cons, Bool.or_eq_false_iff] at hstar
    exact hstar.2

theorem Follows.tail (h : Follows (u :: p) ahead) : Follows p ahead := by
  intro v hv
  refine (h v hv).imp id fun ⟨hslash, hlast⟩ => ⟨hslash, fun hp => hlast ?_⟩
  rw [List.getLast?_cons, hp]
  rfl

/-- No mark begins in the text, and none begins there and ends in the comment behind it. -/
theorem Bare.unmarked (h : Bare (u :: p)) (hahead : Follows (u :: p) ahead) :
    Unmarked (u :: (p ++ ahead)) := by
  have hpair : ∀ v w, Text.includes (u :: p) [v, w] = false → w ≠ 35 → (w = 47 → v = 47) →
      Text.startsWith (u :: (p ++ ahead)) [v, w] = false := by
    intro v w hincludes hsign hslash
    rw [Text.includes_cons, Bool.or_eq_false_iff] at hincludes
    refine Text.startsWith_pair_append hincludes.1 fun hu hp hhead => ?_
    rcases hahead w hhead with hw | ⟨hw, hlast⟩
    · exact hsign hw
    · exact hlast (by rw [hp, hu, hslash hw]; rfl)
  have hopeners := h.openers
  simp only [Grammar.openers, List.forall_mem_cons] at hopeners
  obtain ⟨hbrace, hvariable, hwrap, hwildcard, -⟩ := hopeners
  refine ⟨?_, fun hhead => h.sign ?_, hpair 47 47 h.slashes (by decide) fun _ => rfl,
    hpair 47 42 h.star (by decide) (by decide)⟩
  · simp only [Grammar.openers, List.forall_mem_cons]
    refine ⟨?_, hpair 36 123 hvariable (by decide) (by decide),
      hpair 37 123 hwrap (by decide) (by decide),
      hpair 95 95 hwildcard (by decide) (by decide), List.forall_mem_nil _⟩
    -- a single unit does not depend on what follows
    rw [Text.includes_cons, Bool.or_eq_false_iff] at hbrace
    have hfirst := hbrace.1
    simp only [Text.startsWith, Grammar.standard] at hfirst ⊢
    simpa [units, unitsOfChar, List.isPrefixOf_cons_cons] using hfirst
  · rw [List.head?_cons, Option.some.injEq] at hhead
    rw [hhead]
    exact List.mem_cons_self

/-- Where no mark begins, text goes on and nothing is skipped. -/
theorem Unmarked.comments (h : Unmarked ahead) (previous : Option CodeUnit) :
    atLineComment previous ahead = false ∧ blockComment? ahead = none := by
  have hsign : (ahead.head? == some 35) = false := beq_eq_false_iff_ne.2 h.sign
  constructor
  · rw [atLineComment, hsign, h.slashes, Bool.false_and, Bool.or_self]
  · rw [blockComment?, h.star, if_neg Bool.false_ne_true]

theorem Unmarked.endsText (h : Unmarked ahead) (previous : Option CodeUnit) :
    endsText .standard .prompt previous ahead = false := by
  obtain ⟨hline, hblock⟩ := h.comments previous
  have hopeners : (Grammar.standard.openers.any fun opener => ahead.startsWith opener) = false :=
    List.any_eq_false.2 fun opener hmem => by rw [h.openers opener hmem]; exact Bool.false_ne_true
  rw [Template.endsText, hline, hblock, hopeners]
  rfl

/-- A text without marks is plain up to the comment behind it. -/
theorem plainText_bare (hp : Bare p) (hahead : Follows p ahead)
    (hends : ∀ previous, plainText .standard .prompt previous ahead = [])
    (previous : Option CodeUnit) :
    plainText .standard .prompt previous (p ++ ahead) = p := by
  induction p generalizing previous with
  | nil => exact hends previous
  | cons u p ih =>
    have hgoes := (hp.unmarked hahead).endsText previous
    rw [List.cons_append, plainText, hgoes, if_neg Bool.false_ne_true, ih hp.tail hahead.tail]

/-! ## 3. Skipping one comment -/

/-- The place behind the comment that begins here, if one does. -/
def pastComment? (c : Cursor) : Option Cursor :=
  if atLineComment c.previous c.rest then some (c.skipWhile (· != 10))
  else (blockComment? c.rest).map fun length => c.advance length

theorem afterComments_succ (rounds : Nat) (c : Cursor) :
    afterComments? (rounds + 1) c =
      match pastComment? c with
      | some after => afterComments? rounds after
      | none => some c := by
  rw [afterComments?, pastComment?]
  split
  · rfl
  · cases blockComment? c.rest with
    | none => rfl
    | some length => rfl

/-- Two texts that begin with a comment, and go on in the same way behind it. -/
inductive SameBehind : Text → Text → Prop
  | line {c d : Text} (hc : 10 ∉ c) (hd : 10 ∉ d) (s : Text) :
    SameBehind (35 :: (c ++ 10 :: s)) (35 :: (d ++ 10 :: s))
  | block {c d : Text} (hc : c.includes (units "*/") = false) (hd : d.includes (units "*/") = false)
      (s : Text) : SameBehind (47 :: 42 :: (c ++ 42 :: 47 :: s)) (47 :: 42 :: (d ++ 42 :: 47 :: s))

theorem pastComment_line {place : Cursor} {c s : Text} (hc : 10 ∉ c)
    (h : place.rest = 35 :: (c ++ 10 :: s)) :
    ∃ after, pastComment? place = some after ∧ after.rest = 10 :: s ∧
      place.position < after.position := by
  have hline : atLineComment place.previous place.rest = true := by rw [h]; rfl
  refine ⟨place.skipWhile (· != 10), by rw [pastComment?, if_pos hline], ?_, ?_⟩
  · rw [Cursor.skipWhile_rest, h, ← List.cons_append, List.dropWhile_append_of_pos]
    · rfl
    · intro u hu
      rcases List.mem_cons.1 hu with rfl | hu
      · rfl
      · exact bne_iff_ne.2 fun h10 => hc (h10 ▸ hu)
  · rw [Cursor.skipWhile, Cursor.position_advance, Cursor.left, h, List.takeWhile_cons_of_pos rfl]
    simp only [List.length_cons]
    omega

theorem pastComment_block {place : Cursor} {c s : Text} (hc : c.includes (units "*/") = false)
    (h : place.rest = 47 :: 42 :: (c ++ 42 :: 47 :: s)) :
    ∃ after, pastComment? place = some after ∧ after.rest = s ∧ after.previous = some 47 ∧
      place.position < after.position := by
  -- it is no comment of the other kind: the mark of a line comment does not stand here
  have hline : atLineComment place.previous place.rest = false := by rw [h]; rfl
  have hblock : blockComment? place.rest = some (c.length + 4) := by
    rw [h, blockComment?]
    have hcut : Text.cut (units "*/") (c ++ 42 :: 47 :: s) = some (c, s) :=
      Text.cut_pair_append (by decide) hc s
    have hopens : Text.startsWith (47 :: 42 :: (c ++ 42 :: 47 :: s)) (units "/*") = true := rfl
    rw [if_pos hopens, List.drop_succ_cons, List.drop_succ_cons, List.drop_zero, hcut]
    rfl
  have hsplit : place.rest = (47 :: 42 :: (c ++ [42, 47])) ++ s := by rw [h]; simp
  have hlength : (47 :: 42 :: (c ++ [42, 47])).length = c.length + 4 := by simp
  have hafter := Cursor.advance_append hsplit
  rw [hlength] at hafter
  have hpast : pastComment? place = some (place.advance (c.length + 4)) := by
    rw [pastComment?, hline, if_neg Bool.false_ne_true, hblock]
    rfl
  refine ⟨place.advance (c.length + 4), hpast, ?_, ?_, ?_⟩
  · rw [hafter]
  · have hlast : 47 :: 42 :: (c ++ [42, 47]) = (47 :: 42 :: c ++ [42]) ++ [47] := by simp
    rw [hafter, hlast, List.getLast?_concat]
    rfl
  · rw [hafter]
    exact Nat.lt_add_of_pos_right (Nat.succ_pos _)

/-- Past the comments the places are twins, whatever stood before them. -/
theorem SameBehind.past {ahead ahead' : Text} (h : SameBehind ahead ahead') {place place' : Cursor}
    (hplace : place.rest = ahead) (hplace' : place'.rest = ahead') :
    ∃ after after', pastComment? place = some after ∧ pastComment? place' = some after' ∧
      after.Twin after' ∧ place.position < after.position ∧ place'.position < after'.position := by
  cases h with
  | line hc hd s =>
    obtain ⟨after, hpast, hrest, hmoved⟩ := pastComment_line hc hplace
    obtain ⟨after', hpast', hrest', hmoved'⟩ := pastComment_line hd hplace'
    refine ⟨after, after', hpast, hpast', ⟨hrest.trans hrest'.symm, ?_⟩, hmoved, hmoved'⟩
    -- no comment begins with the end of the line
    rw [hrest, hrest']
    rfl
  | block hc hd s =>
    obtain ⟨after, hpast, hrest, hprevious, hmoved⟩ := pastComment_block hc hplace
    obtain ⟨after', hpast', hrest', hprevious', hmoved'⟩ := pastComment_block hd hplace'
    refine ⟨after, after', hpast, hpast', ⟨hrest.trans hrest'.symm, ?_⟩, hmoved, hmoved'⟩
    rw [hrest, hrest', hprevious, hprevious']

/-- No text stands where the comment begins. -/
theorem SameBehind.stops {ahead ahead' : Text} (h : SameBehind ahead ahead')
    (previous : Option CodeUnit) :
    plainText .standard .prompt previous ahead = [] ∧ plainText .standard .prompt previous ahead' =
      [] := by
  -- where a comment begins the text ends, of whatever kind it is and whatever stands before it
  have hstops : ∀ (place : Cursor) (after : Cursor), pastComment? place = some after →
      plainText .standard .prompt place.previous place.rest = [] := by
    intro place after hpast
    have hends : endsText .standard .prompt place.previous place.rest = true := by
      rw [endsText]
      unfold pastComment? at hpast
      split at hpast
      · next hline => rw [hline]; rfl
      · obtain ⟨length, hlength, -⟩ := Option.map_eq_some_iff.1 hpast
        rw [hlength, Option.isSome_some, Bool.or_true]
        rfl
    cases hrest : place.rest with
    | nil => rfl
    | cons u rest => rw [plainText, ← hrest, if_pos hends]
  have hrest : (⟨0, previous, ahead⟩ : Cursor).rest = ahead := rfl
  have hrest' : (⟨0, previous, ahead'⟩ : Cursor).rest = ahead' := rfl
  obtain ⟨after, after', hpast, hpast', -⟩ := h.past hrest hrest'
  exact ⟨hstops _ _ hpast, hstops _ _ hpast'⟩

/-- Skipping begins at the comments and ends at twin places. -/
theorem SameBehind.skipComments {ahead ahead' : Text} (h : SameBehind ahead ahead')
    {place place' : Cursor} (hplace : place.rest = ahead) (hplace' : place'.rest = ahead') :
    skipComments.AcceptAlike .loose (fun skipped skipped' => skipped = true ∧
      skipped' = true) skipComments
      place place' := by
  intro f g _
  obtain ⟨after, after', hpast, hpast', htwin, hmoved, hmoved'⟩ := h.past hplace hplace'
  rw [Template.skipComments, Template.skipComments, afterComments_succ, afterComments_succ,
    hpast, hpast']
  dsimp only
  -- the counts of rounds differ, and running out of them is excluded elsewhere
  cases hlast : afterComments? place.rest.length after with
  | none => exact .exhausted_left
  | some last =>
    cases hlast' : afterComments? place'.rest.length after' with
    | none => exact .exhausted_right
    | some last' =>
      obtain ⟨length, rfl, rfl⟩ := afterComments_twin htwin hlast hlast'
      refine .accepted ⟨?_, ?_⟩ (htwin.advance length) trivial
      · rw [decide_eq_true_eq, Cursor.position_advance]
        omega
      · rw [decide_eq_true_eq, Cursor.position_advance]
        omega

/-! ## 4. Coming to the comment -/

section Behind

variable {ahead' : Text} {s s' : Setting} {c d : Cursor}

/-- No comment is skipped where no mark begins. -/
theorem Unmarked.skipComments (h : Unmarked c.rest) (f : Furthest) :
    skipComments c f = .accepted false c f := by
  obtain ⟨hline, hblock⟩ := h.comments c.previous
  have hnone : pastComment? c = none := by
    rw [pastComment?, hline, if_neg Bool.false_ne_true, hblock]
    rfl
  simp only [Template.skipComments, afterComments_succ, hnone, Nat.lt_irrefl, decide_false]

variable (hp : Bare p) (hsame : SameBehind ahead ahead') (hahead : Follows p ahead)
  (hahead' : Follows p ahead') (hc : c.rest = p ++ ahead) (hd : d.rest = p ++ ahead')
include hp hsame hahead hahead' hc hd

/-- The text before the comment is the first run, and the runs behind it are the same. -/
theorem textRuns_bare (hne : p ≠ []) (rounds rounds' : Nat) :
    (textRuns .standard .prompt rounds).AcceptAlike .loose
      (fun runs runs' => runs' = runs ∧ runs ≠ [])
      (textRuns .standard .prompt rounds') c d := by
  cases rounds with
  | zero => exact .exhausted_left
  | succ rounds =>
    cases rounds' with
    | zero => exact .exhausted_right
    | succ rounds' =>
      -- the run is `p` on both sides, up to the comment; behind the comment the two are twins
      have hrun : plainText .standard .prompt c.previous c.rest = p := by
        rw [hc]
        exact plainText_bare hp hahead (fun previous => (hsame.stops previous).1) c.previous
      have hrun' : plainText .standard .prompt d.previous d.rest = p := by
        rw [hd]
        exact plainText_bare hp hahead' (fun previous => (hsame.stops previous).2) d.previous
      have hempty : ¬p.isEmpty = true := by simpa using hne
      have hplace : (c.advance p.length).rest = ahead := by
        rw [Cursor.advance_rest, hc, List.drop_left]
      have hplace' : (d.advance p.length).rest = ahead' := by
        rw [Cursor.advance_rest, hd, List.drop_left]
      rw [textRuns, textRuns]
      refine AcceptAlike.bind_here ?_
      simp only [hrun, hrun']
      rw [if_neg hempty, if_neg hempty]
      refine AcceptAlike.bind_moveTo ?_
      rw [if_neg (by decide), if_neg (by decide)]
      refine (hsame.skipComments hplace hplace').bind
        fun skipped skipped' hskipped after after' hafter => ?_
      rw [if_pos hskipped.1, if_pos hskipped.2]
      refine (textRuns_twin .standard .prompt rounds rounds' hafter).bind
        fun runs _ hruns _ _ hlast => ?_
      subst hruns
      exact .pure ⟨rfl, List.cons_ne_nil p runs⟩ hlast

theorem text_bare (hs : s.grammar = .standard) (hs' : s'.grammar = .standard) (hne : p ≠ []) :
    (text s .prompt).AcceptAlike .loose Alike (text s' .prompt) c d := by
  rw [text, text, hs, hs']
  refine AcceptAlike.bind_here ?_
  refine (textRuns_bare hp hsame hahead hahead' hc hd hne _ _).bind fun _ runs hruns _ _ hlast => ?_
  obtain ⟨rfl, hruns⟩ := hruns
  rw [if_neg (by simpa using hruns)]
  exact .pure rfl hlast

/-- Nothing opens where no mark begins, so a chunk is text there. -/
theorem chunk_bare {inner inner' : Inner} (hs : s.grammar = .standard)
    (hs' : s'.grammar = .standard) (hne : p ≠ []) :
    (chunk s inner .prompt).AcceptAlike .loose Alike (chunk s' inner' .prompt) c d := by
  obtain ⟨u, q, rfl⟩ := List.exists_cons_of_ne_nil hne
  have hunmarked : Unmarked c.rest := hc ▸ hp.unmarked hahead
  have hunmarked' : Unmarked d.rest := hd ▸ hp.unmarked hahead'
  exact AcceptAlike.firstOf_append (refuses_blocks inner hs hunmarked.openers)
    (refuses_blocks inner' hs' hunmarked'.openers)
    (.firstOf_singleton (text_bare hp hsame hahead hahead' hc hd hs hs' hne))

/-- From the beginning of the text the chunks agree: behind the comment they do so anyway. -/
theorem chunks_bare {inner inner' : Inner} (hs : s.grammar = .standard)
    (hs' : s'.grammar = .standard) (hinner : inner.Agree .loose s s' inner') (rounds rounds' : Nat)
    (f g : Furthest) :
    (chunks s inner .prompt rounds c f).Agree .loose (List.Forall₂ Alike)
      (chunks s' inner' .prompt rounds' d g) := by
  cases rounds with
  | zero => exact .exhausted_left
  | succ rounds =>
    cases rounds' with
    | zero => exact .exhausted_right
    | succ rounds' =>
      have hsettings : Collation.loose.Settings s s' := settings_loose (hs'.trans hs.symm)
      have hrest := chunks_agree hsettings hinner .prompt rounds rounds'
      rw [chunks, chunks]
      -- with nothing before it the comment is skipped at once, else it is in
      -- the text of the first chunk
      by_cases hne : p = []
      · subst hne
        refine (hsame.skipComments hc hd).bind_agree (fun _ _ _ => ?_) trivial
        refine (chunk_agree hsettings hinner .prompt).attempt.bind fun found found' hfound => ?_
        cases hfound with
        | none => exact .pure .nil
        | some hnext => exact hrest.bind fun _ _ hmore => .pure (.cons hnext hmore)
      · obtain ⟨u, q, rfl⟩ := List.exists_cons_of_ne_nil hne
        have hunmarked : Unmarked c.rest := hc ▸ hp.unmarked hahead
        have hunmarked' : Unmarked d.rest := hd ▸ hp.unmarked hahead'
        have hchunk : (chunk s inner .prompt).AcceptAlike .loose Alike (chunk s' inner' .prompt) c
            d :=
          chunk_bare hp hsame hahead hahead' hc hd hs hs' hne
        simp only [Bind.bind, Reader.andThen, hunmarked.skipComments, hunmarked'.skipComments]
        refine hchunk.attempt.bind_agree (fun found found' hfound => ?_) trivial
        cases hfound with
        | none => exact .pure .nil
        | some hnext => exact hrest.bind fun _ _ hmore => .pure (.cons hnext hmore)

end Behind

/-! ## 5. Templates -/

/-- A source with a sign or a slash in it is not plain. -/
theorem not_isPlain {u : CodeUnit} {source : Text} (hu : u = 35 ∨ u = 47) (h : u ∈ source) :
    ¬IsPlain .standard source := by
  intro hplain
  rw [IsPlain, Bool.and_eq_true] at hplain
  exact Text.not_mem_of_isAlphanumeric hplain.1 hu h

/-- Sources that begin with the same text without marks and go on with comments that end alike
are read alike. -/
theorem parse_sameBehind (origin origin' : Origin) {ahead ahead' : Text} (hp : Bare p)
    (hsame : SameBehind ahead ahead') (hahead : Follows p ahead) (hahead' : Follows p ahead') :
    SameParse (Grammar.standard.parse origin (p ++ ahead))
      (Grammar.standard.parse origin' (p ++ ahead')) := by
  have hopens : Grammar.standard.Opens := ⟨by decide, by decide, by decide, by decide⟩
  -- a text with a comment in it is not one of those that are returned unread
  have hplain : ¬IsPlain .standard (p ++ ahead) ∧ ¬IsPlain .standard (p ++ ahead') := by
    cases hsame with
    | line => exact ⟨not_isPlain (.inl rfl) (by simp), not_isPlain (.inl rfl) (by simp)⟩
    | block => exact ⟨not_isPlain (.inr rfl) (by simp), not_isPlain (.inr rfl) (by simp)⟩
  refine sameParse_of_agree (whole_agree (k := .loose) hplain.1 hplain.2 (fun _ => .malformed _ _)
    (fun _ _ => .malformed _ _) ?_) (parse_proper hopens origin _) (parse_proper hopens origin' _)
  rw [chunksWith, chunksWith]
  have hinner : Inner.Agree .loose ⟨.standard, origin, [], p ++ ahead⟩
      ⟨.standard, origin', [], p ++ ahead'⟩
      ⟨chunksWith .standard origin (p ++ ahead).length [] .block (p ++ ahead),
        fun base value =>
          whole .standard (chunksWith .standard origin (p ++ ahead).length base .prompt) value⟩
      ⟨chunksWith .standard origin' (p ++ ahead').length [] .block (p ++ ahead'),
        fun base value =>
          whole .standard (chunksWith .standard origin' (p ++ ahead').length base .prompt) value⟩ :=
    ⟨chunksWith_agree_loose .standard origin origin' _ _ [] [] .block _ _,
      fun {place place'} _ value => whole_agree_self (k := .loose) (Cursor.Twin.refl _) trivial
        (chunksWith_agree_loose .standard origin origin' _ _
          ([] ++ place) ([] ++ place') .prompt value value)⟩
  refine Outcome.Agree.andThen (chunks_bare hp hsame hahead hahead' rfl rfl rfl rfl hinner _ _ _ _)
    ?_
  exact fun _ _ hread => .pure (.ofList hread)

end Template

/-- **What stands in a comment is of no account.** Behind a text without marks, the comment up
to the end of a line can be exchanged for any other, and so can the closed comment, unless the
text ends in a slash: the trees that are read are equal up to labels, or the errors are of one
kind. -/
theorem Grammar.parse_ignores_comments (origin origin' : Origin) {p : Text} (hp : Template.Bare p)
    (s c d : Text) :
    (10 ∉ c → 10 ∉ d →
      Template.SameParse (standard.parse origin (p ++ units "#" ++ c ++ units "\n" ++ s))
        (standard.parse origin' (p ++ units "#" ++ d ++ units "\n" ++ s))) ∧
    (c.includes (units "*/") = false → d.includes (units "*/") = false →
      p.endsWith (units "/") = false →
      Template.SameParse (standard.parse origin (p ++ units "/*" ++ c ++ units "*/" ++ s))
        (standard.parse origin' (p ++ units "/*" ++ d ++ units "*/" ++ s))) := by
  have hunits : units "#" = [35] ∧ units "\n" = [10] ∧ units "/*" = [47, 42] ∧
      units "*/" = [42, 47] ∧
      units "/" = [47] := ⟨rfl, rfl, rfl, rfl, rfl⟩
  -- the marks in units, as the cursor lemmas have them
  obtain ⟨hsign, hline, hopen, hclose, hslash⟩ := hunits
  constructor
  · intro hc hd
    have hfollows : ∀ rest, Template.Follows p (35 :: rest) := fun rest u hu => by
      cases hu
      exact .inl rfl
    have hsame :=
      Template.parse_sameBehind origin origin' hp (.line hc hd s) (hfollows _) (hfollows _)
    simpa [hsign, hline] using hsame
  · intro hc hd hp'
    have hlast : p.getLast? ≠ some 47 := by
      intro hp''
      obtain ⟨init, rfl⟩ := List.getLast?_eq_some_iff.1 hp''
      rw [Text.endsWith, hslash, List.isSuffixOf_iff_suffix.2 (List.suffix_append init [47])] at hp'
      cases hp'
    have hfollows : ∀ rest, Template.Follows p (47 :: rest) := fun rest u hu => by
      cases hu
      exact .inr ⟨rfl, hlast⟩
    have hsame :=
      Template.parse_sameBehind origin origin' hp (.block hc hd s) (hfollows _) (hfollows _)
    simpa [hopen, hclose] using hsame

/-- An apology for a brace in one comment, and nothing in the other. -/
theorem Grammar.parse_ignores_comments_of_brace :
    Template.Bare (units "a _ b") ∧
      Template.SameParse
        (standard.parse (.built 0) (units "a _ b" ++ units "#" ++ units " a \x7b is open" ++
          units "\n" ++ units "c \x7bx|y\x7d"))
        (standard.parse (.built 1) (units "a _ b" ++ units "#" ++ units "" ++ units "\n" ++
          units "c \x7bx|y\x7d")) ∧
      Template.SameParse
        (standard.parse (.built 0) (units "a _ b" ++ units "/*" ++ units "**" ++ units "*/" ++
          units "/ \x7bx"))
        (standard.parse (.built 1) (units "a _ b" ++ units "/*" ++ units "/" ++ units "*/" ++
          units "/ \x7bx")) := by
  have hbare : Template.Bare (units "a _ b") := ⟨by decide, by decide, by decide, by decide⟩
  obtain ⟨hline, -⟩ := parse_ignores_comments (.built 0) (.built 1) hbare (units "c \x7bx|y\x7d")
    (units " a \x7b is open") (units "")
  obtain ⟨-, hblock⟩ :=
    parse_ignores_comments (.built 0) (.built 1) hbare (units "/ \x7bx") (units "**")
    (units "/")
  exact ⟨hbare, hline (by decide) (by decide), hblock (by decide) (by decide) (by decide)⟩

end PromptTemplate
