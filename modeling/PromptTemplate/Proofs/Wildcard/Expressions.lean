/-
`Expressions.lean` -- patterns for names as regular expressions.

A pattern can be written as a regular expression: it is cut at its stars, the stars become runs, and
all other units stand for themselves, those that mean something behind a backslash. Whatever the
pattern is, that expression compiles, and it matches a name exactly if the pattern does when it is
read from left to right. Nothing that stands behind a part begins with a quantifier, so each part is
read on its own, and the backtracking of a run is told by what is left of the name (`Glob.run`).
-/
import PromptTemplate.Pattern.Reader
import PromptTemplate.Proofs.Wildcard.Listed

set_option autoImplicit false

namespace PromptTemplate

/-! ## 1. Writing the expression -/

namespace Glob

/-- A pattern cut at its stars, of which two count as one cut where they can. The stars are kept
between the pieces. -/
def cutStars : Text → List Text
  | [] => [[]]
  | [u] => if u = star then [[], [star], []] else [[u]]
  | u :: v :: rest =>
    if u = star ∧ v = star then [] :: [star, star] :: cutStars rest
    else if u = star then [] :: [star] :: cutStars (v :: rest)
    else
      match cutStars (v :: rest) with
      | [] => [[u]]
      | piece :: pieces => (u :: piece) :: pieces

/-- The units that mean something in a regular expression, without the star. -/
def special : Text := units ".+?^$\x7b\x7d()|[]\\"

/-- A text as an expression for itself. -/
def escape (t : Text) : Text := t.flatMap fun u => if u ∈ special then [92, u] else [u]

/-- A piece as an expression. -/
def expressionOf (piece : Text) : Text :=
  if piece = [star, star] then units ".*" else if piece = [star] then units "[^/]*"
  else escape piece

/-- The expression for whole names that a pattern is written as. -/
def source (pattern : Text) : Text :=
  units "^" ++ (cutStars pattern).flatMap expressionOf ++ units "$"

/-- The expression compiled. -/
def compile (pattern : Text) : Except Pattern.Fault Pattern := Pattern.read false (source pattern)

end Glob

/-- A part of a pattern as an expression. -/
def GlobPart.source : GlobPart → Text
  | unit u => Glob.escape [u]
  | segmentRun => units "[^/]*"
  | anyRun => units ".*"

namespace Glob

/-- The first piece holds no star. -/
theorem star_notMem_cutStars (t : Text) :
    ∃ piece pieces, cutStars t = piece :: pieces ∧ star ∉ piece := by
  -- the pieces are cut at runs of stars, and what is put in front of a piece is no star
  fun_induction cutStars t with
  | case1 => exact ⟨_, _, rfl, List.not_mem_nil⟩
  | case2 => exact ⟨_, _, rfl, List.not_mem_nil⟩
  | case3 u hu => exact ⟨_, _, rfl, by simpa using Ne.symm hu⟩
  | case4 => exact ⟨_, _, rfl, List.not_mem_nil⟩
  | case5 => exact ⟨_, _, rfl, List.not_mem_nil⟩
  | case6 u v rest hstars hu hnone ih =>
    obtain ⟨piece, pieces, hcut, -⟩ := ih
    rw [hnone] at hcut
    cases hcut
  | case7 u v rest hstars hu piece pieces hsome ih =>
    obtain ⟨piece', pieces', hcut, hpiece⟩ := ih
    rw [hsome] at hcut
    cases hcut
    exact ⟨_, _, rfl, List.not_mem_cons_of_ne_of_not_mem (Ne.symm hu) hpiece⟩

/-- A piece without a star is escaped and nothing else. -/
theorem expressionOf_of_notMem {piece : Text} (h : star ∉ piece) :
    expressionOf piece = escape piece := by
  have hpair : piece ≠ [star, star] := by rintro rfl; exact h List.mem_cons_self
  have hsingle : piece ≠ [star] := by rintro rfl; exact h List.mem_cons_self
  rw [expressionOf, if_neg hpair, if_neg hsingle]

/-- Piece by piece is part by part. -/
theorem flatMap_cutStars (pattern : Text) :
    (cutStars pattern).flatMap expressionOf = (read pattern).flatMap GlobPart.source := by
  fun_induction read pattern with
  | case1 => rfl
  | case2 => rfl
  | case3 u hu =>
    have hpiece : star ∉ [u] := by simpa using Ne.symm hu
    rw [cutStars, if_neg hu, List.flatMap_singleton, expressionOf_of_notMem hpiece,
      List.flatMap_singleton]
    rfl
  | case4 u v rest hstars ih =>
    rw [cutStars, if_pos hstars, List.flatMap_cons, List.flatMap_cons, List.flatMap_cons, ih]
    rfl
  | case5 v rest hstars ih =>
    rw [cutStars, if_neg hstars, if_pos rfl, List.flatMap_cons, List.flatMap_cons,
      List.flatMap_cons, ih]
    rfl
  | case6 u v rest hstars hu ih =>
    -- the unit joins the piece that begins behind it, and escaping goes unit by unit
    obtain ⟨piece, pieces, hcut, hpiece⟩ := star_notMem_cutStars (v :: rest)
    have hmore : star ∉ u :: piece := List.not_mem_cons_of_ne_of_not_mem (Ne.symm hu) hpiece
    have hfirst : escape (u :: piece) = escape [u] ++ escape piece := by
      rw [escape, escape, escape, ← List.flatMap_append, List.singleton_append]
    rw [hcut, List.flatMap_cons, expressionOf_of_notMem hpiece] at ih
    rw [cutStars, if_neg hstars, if_neg hu, hcut]
    dsimp only
    rw [List.flatMap_cons, List.flatMap_cons, expressionOf_of_notMem hmore, hfirst,
      List.append_assoc, ih]
    rfl

/-- A unit of a pattern is no star: a single star is a part of its own. -/
theorem ne_star_of_mem_read {pattern : Text} {u : CodeUnit} (h : .unit u ∈ read pattern) :
    u ≠ star := by
  fun_induction read pattern with
  | case1 => cases h
  | case2 => simp at h
  | case3 v hv =>
    rw [List.mem_singleton] at h
    cases h
    exact hv
  | case4 v w rest hstars ih => exact ih (by simpa using h)
  | case5 w rest hstars ih => exact ih (by simpa using h)
  | case6 v w rest hstars hv ih =>
    rcases List.mem_cons.1 h with h | h
    · cases h
      exact hv
    · exact ih h

end Glob

/-! ## 2. Reading the expression -/

/-- What a part of a pattern compiles to. -/
def GlobPart.term : GlobPart → Pattern.Term
  | unit u => .unit u
  | segmentRun => .loop 0 none true 1 0 (.set true [.range 47 47])
  | anyRun => .loop 0 none true 1 0 .any

/-- What the parts compile to, one after another up to the end of the text. -/
def Glob.term : Glob → Pattern.Term
  | [] => .sequence .textEnd .empty
  | part :: parts => .sequence part.term (term parts)

namespace Glob

open Pattern

/-- The parts as an expression, and the end of it. -/
def written (parts : Glob) : Text := parts.flatMap GlobPart.source ++ units "$"

/-- Parts are written one after another. -/
theorem written_cons (part : GlobPart) (parts : Glob) :
    written (part :: parts) = part.source ++ written parts := by
  rw [written, written, List.flatMap_cons, List.append_assoc]

/-- The expression begins at the start of the text. -/
theorem source_eq (pattern : Text) : source pattern = 94 :: written (read pattern) := by
  rw [source, flatMap_cutStars, List.append_assoc]
  rfl

/-- A unit as an expression: behind a backslash if it means something, and else alone. -/
theorem source_unit (u : CodeUnit) :
    (GlobPart.unit u).source = if u ∈ special then [92, u] else [u] := by
  rw [GlobPart.source, escape, List.flatMap_singleton]

/-- No operator stands among the units that need no backslash. -/
theorem ne_of_notMem_special {u v : CodeUnit} (hu : u ∉ special) (hv : v ∈ special) : u ≠ v :=
  fun h => hu (h ▸ hv)

/-- The text does not begin with a quantifier, so what stands before it is not repeated. -/
def Unrepeated (ahead : Text) : Prop := ∀ u ∈ ahead.head?, u ≠ 42 ∧ u ≠ 43 ∧ u ≠ 63 ∧ u ≠ 123

/-- Neither a part nor the end of the parts begins with a quantifier. -/
theorem unrepeated_written {parts : Glob} (hunits : ∀ u, .unit u ∈ parts → u ≠ star) :
    Unrepeated (written parts) := by
  cases parts with
  | nil => exact fun u hu => by cases hu; decide
  | cons part parts =>
    rw [written_cons]
    -- what is written begins with a plain unit, a backslash, a bracket or a point: none repeats
    cases part with
    | unit v =>
      have hv := hunits v List.mem_cons_self
      rw [source_unit]
      split
      · exact fun u hu => by cases hu; decide
      · next hplain =>
        intro u hu
        cases hu
        exact ⟨hv, ne_of_notMem_special hplain (by decide), ne_of_notMem_special hplain (by decide),
          ne_of_notMem_special hplain (by decide)⟩
    | segmentRun => exact fun u hu => by cases hu; decide
    | anyRun => exact fun u hu => by cases hu; decide

/-- What follows is no quantifier. -/
theorem readQuantifier_eq_none {ahead : Text} (h : Unrepeated ahead) :
    readQuantifier? ahead = none := by
  cases ahead with
  | nil => rfl
  | cons u ahead =>
    obtain ⟨hstar, hplus, hquestion, hbrace⟩ := h u rfl
    rw [readQuantifier?, if_neg hstar, if_neg hplus, if_neg hquestion, if_neg hbrace]

section Reading

variable {setting : Setting} {enclosing : Enclosing} {ahead : Text}

/-- A backslash and a unit that means something are that unit. -/
theorem readAtom_escaped {u : CodeUnit} (hu : u ∈ special) :
    readAtom setting enclosing (92 :: u :: ahead) = .ok (.unit u, true, ahead) := by
  have hmem : u ∈ ([46, 43, 63, 94, 36, 123, 125, 40, 41, 124, 91, 93, 92] : Text) := hu
  simp only [List.mem_cons, List.not_mem_nil, or_false] at hmem
  -- none of them is a letter or a digit, so none names a class or a number
  rcases hmem with
    rfl | rfl | rfl | rfl | rfl | rfl | rfl | rfl | rfl | rfl | rfl | rfl | rfl <;> rfl

/-- A unit without a meaning of its own is that unit. -/
theorem readAtom_plain {u : CodeUnit} (hu : u ∉ special) (hstar : u ≠ star) :
    readAtom setting enclosing (u :: ahead) = .ok (.unit u, true, ahead) := by
  have hne (v : CodeUnit) (hv : v ∈ special) : u ≠ v := ne_of_notMem_special hu hv
  have hstar : u ≠ 42 := hstar
  simp [readAtom, hstar, hne 43 (by decide), hne 63 (by decide), hne 94 (by decide),
    hne 36 (by decide),
    hne 46 (by decide), hne 91 (by decide), hne 92 (by decide), hne 123 (by decide)]

/-- A star makes any number of rounds of a term, as many as it can. -/
theorem quantify_star {term : Term} (hlook : ∀ positive body, term ≠ .look false positive body)
    (hahead : Unrepeated ahead) :
    quantify 0 0 term (42 :: ahead) = .ok (.loop 0 none true 1 0 term, ahead) := by
  have hstar : readQuantifier? (42 :: ahead) = some (0, countLimit, ahead) := rfl
  rw [quantify, hstar]
  dsimp only
  rw [if_neg (by decide)]
  split
  · next positive body => exact absurd rfl (hlook positive body)
  · rw [if_pos rfl]
    cases ahead with
    | nil => rfl
    | cons u ahead =>
      have hu : u ≠ 63 := (hahead u rfl).2.2.1
      simp [hu]

/-- An atom with what repeats it, if anything does. -/
theorem readTerm_of_atom {u : CodeUnit} {t rest : Text} {atom term : Term} (hu : u ≠ 40)
    (hatom : readAtom setting enclosing (u :: t) = .ok (atom, true, rest))
    (hquantify : quantify 0 0 atom rest = .ok (term, ahead)) (fuel : Nat)
    (names : List (Text × Nat)) :
    readTerm setting (fuel + 1) enclosing ⟨0, names⟩ (u :: t) = .ok (term, ⟨0, names⟩, ahead) := by
  rw [readTerm, if_neg hu, hatom]
  dsimp only
  rw [hquantify]
  rfl

/-- One part is one term, whatever part stands behind it. -/
theorem readTerm_part {part : GlobPart} (hpart : ∀ u, part = .unit u → u ≠ star)
    (hahead : Unrepeated ahead) (fuel : Nat) (names : List (Text × Nat)) :
    readTerm setting (fuel + 1) enclosing ⟨0, names⟩ (part.source ++ ahead) =
      .ok (part.term, ⟨0, names⟩, ahead) := by
  cases part with
  | unit u =>
    -- the part before a star is repeated, and no other is: what follows begins
    -- with no mark of repetition
    have hquantify : quantify 0 0 (.unit u) ahead = .ok (.unit u, ahead) := by
      rw [quantify, readQuantifier_eq_none hahead]
    rw [source_unit]
    split
    · next hu => exact readTerm_of_atom (by decide) (readAtom_escaped hu) hquantify fuel names
    · next hu =>
      exact readTerm_of_atom (ne_of_notMem_special hu (by decide)) (readAtom_plain hu (hpart u rfl))
        hquantify
        fuel names
  | segmentRun =>
    have hatom : readAtom setting enclosing (91 :: (units "^/]*" ++ ahead)) =
        .ok (.set true [.range 47 47], true, 42 :: ahead) := rfl
    exact readTerm_of_atom (by decide) hatom (quantify_star nofun hahead) fuel names
  | anyRun =>
    have hatom : readAtom setting enclosing (46 :: (units "*" ++ ahead)) =
        .ok (.any, true, 42 :: ahead) := rfl
    exact readTerm_of_atom (by decide) hatom (quantify_star nofun hahead) fuel names

/-- A part begins neither another alternative nor the end of a group. -/
theorem exists_cons_source (part : GlobPart) :
    ∃ u more, part.source = u :: more ∧ u ≠ 124 ∧ u ≠ 41 := by
  cases part with
  | unit u =>
    rw [source_unit]
    split
    · exact ⟨92, [u], rfl, by decide, by decide⟩
    · next hu =>
      exact ⟨u, [], rfl, ne_of_notMem_special hu (by decide), ne_of_notMem_special hu (by decide)⟩
  | segmentRun => exact ⟨91, units "^/]*", rfl, by decide, by decide⟩
  | anyRun => exact ⟨46, units "*", rfl, by decide, by decide⟩

/-- A term and the terms behind it. -/
theorem readSequence_of_term {u : CodeUnit} {t rest after : Text} {first second : Term}
    (hu : u ≠ 124 ∧ u ≠ 41) {fuel : Nat} {names : List (Text × Nat)}
    (hterm : readTerm setting fuel enclosing ⟨0, names⟩ (u :: t) = .ok (first, ⟨0, names⟩, rest))
    (hrest : readSequence setting fuel enclosing ⟨0, names⟩ rest =
      .ok (second, ⟨0, names⟩, after)) :
    readSequence setting (fuel + 1) enclosing ⟨0, names⟩ (u :: t) =
      .ok (.sequence first second, ⟨0, names⟩, after) := by
  rw [readSequence, if_neg (by simpa using hu), hterm]
  dsimp only
  rw [hrest]

/-- The parts are terms one after another. -/
theorem readSequence_written (hsingle : setting.multiline = false) {parts : Glob}
    (hunits : ∀ u, .unit u ∈ parts → u ≠ star) {fuel : Nat} (hfuel : parts.length + 2 ≤ fuel)
    (names : List (Text × Nat)) :
    readSequence setting fuel enclosing ⟨0, names⟩ (written parts) =
      .ok (term parts, ⟨0, names⟩, []) := by
  induction parts generalizing fuel with
  | nil =>
    obtain ⟨fuel, rfl⟩ := Nat.exists_eq_add_of_le' hfuel
    have hatom : readAtom setting enclosing [36] = .ok (.textEnd, false, []) := by
      simp [readAtom, hsingle]
    have hend : readTerm setting (fuel + 1) enclosing ⟨0, names⟩ [36] =
        .ok (.textEnd, ⟨0, names⟩, []) := by
      rw [readTerm, if_neg (by decide), hatom]
    exact readSequence_of_term (by decide) hend rfl
  -- one round for the part, and two for the end of the text and of the sequence
  | cons part parts ih =>
    obtain ⟨fuel, rfl⟩ := Nat.exists_eq_add_one_of_ne_zero (Nat.ne_zero_of_lt hfuel)
    have hfuel' : parts.length + 2 ≤ fuel := Nat.le_of_succ_le_succ hfuel
    have hrest : ∀ u, .unit u ∈ parts → u ≠ star :=
      fun u hmem => hunits u (List.mem_cons_of_mem _ hmem)
    have hbehind := ih hrest hfuel'
    obtain ⟨fuel, rfl⟩ := Nat.exists_eq_add_one_of_ne_zero (Nat.ne_zero_of_lt hfuel')
    have hpart : ∀ u, part = .unit u → u ≠ star := fun u hu => hunits u (hu ▸ List.mem_cons_self)
    have hterm : readTerm setting (fuel + 1) enclosing ⟨0, names⟩ (part.source ++ written parts) =
        .ok (part.term, ⟨0, names⟩, written parts) :=
          readTerm_part hpart (unrepeated_written hrest) fuel names
    obtain ⟨u, more, hsource, hu⟩ := exists_cons_source part
    rw [written_cons]
    rw [hsource, List.cons_append] at hterm ⊢
    exact readSequence_of_term hu hterm hbehind

/-- Every part is written with a unit at least. -/
theorem length_lt_written (parts : Glob) : parts.length < (written parts).length := by
  induction parts with
  | nil => exact Nat.succ_pos _
  | cons part parts ih =>
    obtain ⟨u, more, hsource, -⟩ := exists_cons_source part
    rw [written_cons, hsource, List.length_append, List.length_cons, List.length_cons]
    omega

end Reading

/-- No group begins at such a unit. -/
theorem countGroups_cons {u : CodeUnit} (hu : u ≠ 92 ∧ u ≠ 91 ∧ u ≠ 40) (ahead : Text) :
    countGroups false (u :: ahead) = countGroups false ahead := by
  cases ahead with
  | nil => rfl
  | cons v ahead =>
    generalize hbehind : countGroups false (v :: ahead) = behind
    unfold countGroups
    rw [if_neg hu.1, if_neg hu.2.1, if_neg hu.2.2]
    exact hbehind

/-- None begins at a unit behind a backslash. -/
theorem countGroups_escaped (u : CodeUnit) (ahead : Text) :
    countGroups false (92 :: u :: ahead) = countGroups false ahead := countGroups.eq_def _ _

/-- The expression opens no group: parentheses stand behind backslashes only. -/
theorem countGroups_written (parts : Glob) : countGroups false (written parts) = (0, false) := by
  induction parts with
  | nil => rfl
  | cons part parts ih =>
    rw [written_cons, ← ih]
    cases part with
    | unit u =>
      rw [source_unit]
      split
      · exact countGroups_escaped u _
      · next hu =>
        exact countGroups_cons ⟨ne_of_notMem_special hu (by decide),
          ne_of_notMem_special hu (by decide),
          ne_of_notMem_special hu (by decide)⟩ _
    | segmentRun =>
      -- the brackets of a set open no group
      have hset (ahead : Text) : countGroups false (91 :: 94 :: 47 :: 93 :: ahead) =
          countGroups false ahead := by
        cases ahead <;> simp [countGroups]
      exact (hset (42 :: written parts)).trans (countGroups_cons (by decide) _)
    | anyRun =>
      exact (countGroups_cons (by decide) (42 :: written parts)).trans
        (countGroups_cons (by decide) _)

/-- There are no names to resolve. -/
theorem resolve_term (names : List (Text × Nat)) (parts : Glob) :
    (term parts).resolve names = some (term parts) := by
  induction parts with
  | nil => rfl
  | cons part parts ih =>
    rw [term, Term.resolve, ih]
    cases part <;> rfl

/-- Every pattern compiles: to the beginning of the text, its parts, and the end of it. -/
theorem compile_eq (pattern : Text) :
    compile pattern = .ok ⟨.sequence .textStart (term (read pattern)), 0⟩ := by
  have hgroups : countGroups false (source pattern) = (0, false) := by
    rw [source_eq, countGroups_cons (by decide), countGroups_written]
  -- three rounds for each unit are more than one for each part
  have hfuel : (read pattern).length + 2 ≤ 3 * (source pattern).length + 1 := by
    have hlength := length_lt_written (read pattern)
    rw [source_eq, List.length_cons]
    omega
  have hsequence : readSequence ⟨false, 0, false⟩ (3 * (source pattern).length + 2) ⟨[], []⟩ ⟨0, []⟩
      (source pattern) = .ok (.sequence .textStart (term (read pattern)), ⟨0, []⟩, []) := by
    have hbehind : readSequence ⟨false, 0, false⟩ (3 * (source pattern).length + 1) ⟨[], []⟩ ⟨0, []⟩
        (written (read pattern)) = .ok (term (read pattern), ⟨0, []⟩, []) :=
      readSequence_written rfl (fun u => ne_star_of_mem_read) hfuel []
    rw [source_eq] at hbehind ⊢
    exact readSequence_of_term (by decide) rfl hbehind
  rw [compile, Pattern.read, hgroups]
  dsimp only
  rw [readChoice, hsequence]
  simp only [Term.resolve, resolve_term]
  rfl

/-! ## 3. Matching -/

/-- An expression that begins with the beginning of the text matches there or nowhere. -/
theorem search_eq_none (body : Term) (groups position : Nat) {before : Text} (hbefore : before ≠ [])
    (t : Text) :
    search ⟨.sequence .textStart body, groups⟩ position before t = none := by
  have hrun (place : Nat) {passed : Text} (hpassed : passed ≠ []) (rest : Text) :
      (Term.sequence .textStart body).run true
        (start ⟨.sequence .textStart body, groups⟩ place passed rest) some = none := by
    simp [Term.run, start, hpassed]
  induction t generalizing position before with
  | nil => rw [search, hrun position hbefore]; rfl
  | cons u t ih =>
    rw [search, hrun position hbefore]
    exact ih _ (List.cons_ne_nil u before)

/-- A test runs the body from the start of the text, with all groups empty. -/
theorem test_eq (body : Term) (groups : Nat) (t : Text) :
    test ⟨.sequence .textStart body, groups⟩ t =
      (body.run true ⟨0, [], t, List.replicate groups none⟩ some).isSome := by
  have hrun (t : Text) : (Term.sequence .textStart body).run true
      (start ⟨.sequence .textStart body, groups⟩ 0 [] t) some =
        body.run true ⟨0, [], t, List.replicate groups none⟩ some := by
    simp [Term.run, start]
  cases t with
  | nil => rw [test, search, hrun, Option.isSome_map]
  | cons u t =>
    rw [test, search, hrun]
    cases body.run true ⟨0, [], u :: t, List.replicate groups none⟩ some with
    | none => rw [search_eq_none body groups 1 (List.cons_ne_nil u [])]; rfl
    | some q => rfl

/-- A round of a run takes one unit more, if that is allowed; and if nothing comes of it, the run
ends here. -/
theorem rounds_cons (allowed : CodeUnit → Bool) (next : Continue) (fuel position : Nat)
    (before : Text) (u : CodeUnit) (rest : Text) (captures : List (Option Text)) :
    rounds (step true allowed) true (fun q => q) (fuel + 1) 0 none
      ⟨position, before, u :: rest, captures⟩ next =
      ((if allowed u then
          rounds (step true allowed) true (fun q => q) fuel 0 none
            ⟨position + 1, u :: before, rest, captures⟩ next
        else none).or (next ⟨position, before, u :: rest, captures⟩)) := by
  cases hu : allowed u with
  | false => simp [rounds, step, hu]
  | true =>
    rw [if_pos rfl]
    generalize hmore : rounds (step true allowed) true (fun q => q) fuel 0 none
      ⟨position + 1, u :: before, rest, captures⟩ next = more
    cases more <;> simp [rounds, step, hu, hmore]

/-- Backtracking over the rounds of a run asks what is left at each of them whether it goes on as it
should, from the longest run to the shortest. The loop has no groups to forget. -/
theorem rounds_isSome {allowed : CodeUnit → Bool} {next : Continue} {goesOn : Text → Bool}
    (hnext : ∀ q : Place, (next q).isSome = goesOn q.after) {fuel : Nat} (p : Place)
    (hfuel : p.after.length < fuel) :
    (rounds (step true allowed) true (fun q => q) fuel 0 none p next).isSome =
      run allowed goesOn p.after := by
  induction fuel generalizing p with
  | zero => exact absurd hfuel (Nat.not_lt_zero _)
  | succ fuel ih =>
    obtain ⟨position, before, after, captures⟩ := p
    cases after with
    | nil => simp [rounds, step, run, hnext]
    | cons u rest =>
      have hmore := ih ⟨position + 1, u :: before, rest, captures⟩ (Nat.lt_of_succ_lt_succ hfuel)
      rw [rounds_cons, Option.isSome_or, hnext, run, Bool.or_comm]
      cases hu : allowed u with
      | false => rfl
      | true => rw [if_pos rfl, hmore, Bool.true_and]

/-- What a segment is made of is every unit but the slash. -/
theorem set_holds (u : CodeUnit) : (([Item.range 47 47].any (·.holds u)) != true) = (u != 47) := by
  have hequal : (decide (47 ≤ u) && decide (u ≤ 47)) = (u == 47) := by
    rw [Bool.eq_iff_iff, Bool.and_eq_true, decide_eq_true_eq, decide_eq_true_eq, beq_iff_eq]
    exact ⟨fun ⟨hlow, hhigh⟩ => UInt16.le_antisymm hhigh hlow,
      fun h => h ▸ ⟨UInt16.le_refl _, UInt16.le_refl _⟩⟩
  simp [Item.holds, hequal, bne]

/-- Every part goes on as the pattern does. -/
theorem run_term (parts : Glob) (p : Place) :
    ((term parts).run true p some).isSome = accepts parts p.after := by
  induction parts generalizing p with
  | nil =>
    obtain ⟨position, before, after, captures⟩ := p
    cases after <;> rfl
  | cons part parts ih =>
    -- a run stops where nothing is left, and each round of it takes a unit
    have hfuel : p.after.length < 0 + p.before.length + p.after.length + 2 := by omega
    cases part with
    | unit u =>
      obtain ⟨position, before, after, captures⟩ := p
      cases after with
      | nil => rfl
      | cons v rest =>
        have hrest := ih ⟨position + 1, v :: before, rest, captures⟩
        by_cases huv : u = v
        · simpa [term, GlobPart.term, Term.run, step, accepts, huv] using hrest
        · simp [term, GlobPart.term, Term.run, step, accepts, huv, Ne.symm huv]
    | segmentRun =>
      have hset : (fun u => ([Item.range 47 47].any (·.holds u)) != true) = fun u => u != 47 :=
        funext set_holds
      rw [accepts, ← hset]
      exact rounds_isSome ih p hfuel
    | anyRun => exact rounds_isSome ih p hfuel

/-- The compiled expression matches the names that the pattern accepts. -/
theorem test_compiled (pattern name : Text) :
    test ⟨.sequence .textStart (term (read pattern)), 0⟩ name = accepts (read pattern) name := by
  rw [test_eq, run_term]

/-! ## 4. What a pattern stands for -/

/-- How a name is covered by a pattern that is read from left to right: two stars by any units, a
star that has no other behind it by units that are no slashes, and every other unit by itself. -/
inductive Covers : (pattern name : Text) → Prop
  | done : Covers [] []
  | anyRun {pattern name : Text} (taken : Text) : Covers pattern name →
    Covers (star :: star :: pattern) (taken ++ name)
  | segmentRun {pattern name : Text} (taken : Text) (hsegment : 47 ∉ taken)
    (hsingle : pattern.head? ≠ some star) :
    Covers pattern name → Covers (star :: pattern) (taken ++ name)
  | unit {u : CodeUnit} {pattern name : Text} (hunit : u ≠ star) : Covers pattern name →
    Covers (u :: pattern) (u :: name)

namespace Covers

variable {u : CodeUnit} {pattern name : Text}

/-- Nothing covers nothing. -/
theorem nil_iff : Covers [] name ↔ name = [] := by
  constructor
  · intro h
    cases h
    rfl
  · rintro rfl
    exact .done

/-- Two stars cover any beginning. -/
theorem pair_iff : Covers (star :: star :: pattern) name ↔
    ∃ taken behind, name = taken ++ behind ∧ Covers pattern behind := by
  constructor
  · intro h
    cases h with
    | anyRun taken h => exact ⟨taken, _, rfl, h⟩
    | segmentRun taken hsegment hsingle h => exact absurd rfl hsingle
    | unit hunit h => exact absurd rfl hunit
  · rintro ⟨taken, behind, rfl, h⟩
    exact .anyRun taken h

/-- A single star covers any beginning without a slash. -/
theorem single_iff (hsingle : pattern.head? ≠ some star) : Covers (star :: pattern) name ↔
    ∃ taken behind, name = taken ++ behind ∧ 47 ∉ taken ∧ Covers pattern behind := by
  constructor
  · intro h
    cases h with
    | anyRun taken h => exact absurd rfl hsingle
    | segmentRun taken hsegment _ h => exact ⟨taken, _, rfl, hsegment, h⟩
    | unit hunit h => exact absurd rfl hunit
  · rintro ⟨taken, behind, rfl, hsegment, h⟩
    exact .segmentRun taken hsegment hsingle h

/-- Another unit covers itself. -/
theorem unit_iff (hunit : u ≠ star) : Covers (u :: pattern) name ↔
    ∃ behind, name = u :: behind ∧ Covers pattern behind := by
  constructor
  · intro h
    cases h with
    | anyRun taken h => exact absurd rfl hunit
    | segmentRun taken hsegment _ h => exact absurd rfl hunit
    | unit _ h => exact ⟨_, rfl, h⟩
  · rintro ⟨behind, rfl, h⟩
    exact .unit hunit h

end Covers

/-- A run splits the name into what it takes and what goes on. -/
theorem run_eq_true_iff {allowed : CodeUnit → Bool} {goesOn : Text → Bool} {name : Text} :
    run allowed goesOn name = true ↔
      ∃ taken behind, name = taken ++ behind ∧ (∀ u ∈ taken, allowed u = true) ∧
        goesOn behind = true := by
  constructor
  · intro h
    induction name with
    | nil => exact ⟨[], [], rfl, nofun, h⟩
    | cons u rest ih =>
      rw [run, Bool.or_eq_true, Bool.and_eq_true] at h
      rcases h with h | ⟨hu, h⟩
      · exact ⟨[], u :: rest, rfl, nofun, h⟩
      · obtain ⟨taken, behind, rfl, htaken, hbehind⟩ := ih h
        exact ⟨u :: taken, behind, rfl, List.forall_mem_cons.2 ⟨hu, htaken⟩, hbehind⟩
  · rintro ⟨taken, behind, rfl, htaken, hbehind⟩
    exact run_append taken htaken hbehind

/-- The name is within a line. -/
def InLine (name : Text) : Prop := ∀ u ∈ name, u.isLineTerminator = false

instance (name : Text) : Decidable (InLine name) :=
  -- by the units of the name, not by all units there are
  List.decidableBAll (fun u : CodeUnit => u.isLineTerminator = false) name

section Accepted

variable {parts : Glob} {pattern name : Text}
  (ih : ∀ {behind : Text}, InLine behind → (accepts parts behind = true ↔ Covers pattern behind))
  (hname : InLine name)
include ih hname

/-- The part for two stars accepts what they cover. -/
theorem accepts_anyRun_iff :
    accepts (.anyRun :: parts) name = true ↔ Covers (star :: star :: pattern) name := by
  rw [accepts, run_eq_true_iff, Covers.pair_iff]
  refine exists_congr fun taken => exists_congr fun behind => and_congr_right fun hsplit => ?_
  have htaken : ∀ u ∈ taken, (!u.isLineTerminator) = true := fun u hu => by
    rw [hname u (hsplit ▸ List.mem_append_left _ hu)]
    rfl
  rw [ih fun u hu => hname u (hsplit ▸ List.mem_append_right _ hu)]
  exact and_iff_right htaken

/-- The part for a single star accepts what it covers. -/
theorem accepts_segmentRun_iff (hsingle : pattern.head? ≠ some star) :
    accepts (.segmentRun :: parts) name = true ↔ Covers (star :: pattern) name := by
  rw [accepts, run_eq_true_iff, Covers.single_iff hsingle]
  refine exists_congr fun taken => exists_congr fun behind => and_congr_right fun hsplit =>
    and_congr ?_ ?_
  · simp only [bne_iff_ne]
    exact ⟨fun hall hmem => hall 47 hmem rfl, fun hslash u hu heq => hslash (heq ▸ hu)⟩
  · exact ih fun u hu => hname u (hsplit ▸ List.mem_append_right _ hu)

/-- The part for another unit accepts that unit. -/
theorem accepts_unit_iff {u : CodeUnit} (hunit : u ≠ star) :
    accepts (.unit u :: parts) name = true ↔ Covers (u :: pattern) name := by
  rw [Covers.unit_iff hunit]
  cases name with
  | nil => exact ⟨nofun, nofun⟩
  | cons v rest =>
    rw [accepts, Bool.and_eq_true, decide_eq_true_eq, ih (List.forall_mem_cons.1 hname).2]
    constructor
    · rintro ⟨rfl, h⟩
      exact ⟨rest, rfl, h⟩
    · rintro ⟨behind, heq, h⟩
      cases heq
      exact ⟨rfl, h⟩

end Accepted

/-- Within a line, the names that a pattern accepts are those that it covers. The induction is on
how the pattern is read. -/
theorem accepts_iff_covers (pattern : Text) {name : Text} (hname : InLine name) :
    accepts (read pattern) name = true ↔ Covers pattern name := by
  have hnil {behind : Text} (_ : InLine behind) : accepts [] behind = true ↔ Covers [] behind := by
    rw [Covers.nil_iff, accepts, List.isEmpty_iff]
  -- the cases are those of reading the pattern: a unit, a run inside of a segment, or one across
  fun_induction read pattern generalizing name with
  | case1 => exact hnil hname
  | case2 => exact accepts_segmentRun_iff hnil hname (by simp)
  | case3 u hu => exact accepts_unit_iff hnil hname hu
  | case4 u v rest hstars ih =>
    obtain ⟨rfl, rfl⟩ := hstars
    exact accepts_anyRun_iff ih hname
  | case5 v rest hstars ih =>
    refine accepts_segmentRun_iff ih hname fun hhead => hstars ⟨rfl, ?_⟩
    cases hhead
    rfl
  | case6 u v rest hstars hu ih => exact accepts_unit_iff ih hname hu

/-- **A pattern matches what it stands for.** Written as a regular expression it always compiles.
The expression matches the names that are found for the pattern, and within a line these are the
ones that split along it: two stars take any units, a single one those of a segment, and every other
unit stands for itself, also one that means something in regular expressions. -/
theorem compile_matches (pattern : Text) : ∃ compiled, compile pattern = .ok compiled ∧
    (∀ name, compiled.test name = accepts (read pattern) name) ∧
      ∀ name, InLine name → (compiled.test name = true ↔ Covers pattern name) := by
  refine ⟨_, compile_eq pattern, test_compiled pattern, fun name hname => ?_⟩
  rw [test_compiled]
  exact accepts_iff_covers pattern hname

/-- Three stars are two and one, and a point, a bar and brackets are themselves. -/
theorem compile_matches_of_punctuation : ∃ compiled,
    compile (units "a***/[b|c].+") = .ok compiled ∧ InLine (units "a/x/y/[b|c].+") ∧
      Covers (units "a***/[b|c].+") (units "a/x/y/[b|c].+") ∧
        compiled.test (units "a/x/y/[b|c].+") = true ∧
      InLine (units "a/x/b") ∧ compiled.test (units "a/x/b") = false := by
  obtain ⟨compiled, hcompiled, hsame, hmatches⟩ := compile_matches (units "a***/[b|c].+")
  have hname : InLine (units "a/x/y/[b|c].+") := by decide
  have htest : compiled.test (units "a/x/y/[b|c].+") = true := by
    rw [hsame]
    decide +kernel
  have hother : compiled.test (units "a/x/b") = false := by
    rw [hsame]
    decide +kernel
  exact ⟨compiled, hcompiled, hname, (hmatches _ hname).1 htest, htest, by decide, hother⟩

end Glob

end PromptTemplate
