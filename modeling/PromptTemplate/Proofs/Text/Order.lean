/-
`Order.lean` -- texts in ascending order, and lists without repetition.
-/
import PromptTemplate.Text

set_option autoImplicit false

namespace PromptTemplate.Text

/-! ## 1. Sorting -/

theorem le_trans {s t v : Text} (hst : le s t = true) (htv : le t v = true) : le s v = true := by
  induction s generalizing t v with
  | nil => rfl
  | cons a s ih =>
    cases t with
    | nil => cases hst
    | cons b t =>
      cases v with
      | nil => cases htv
      | cons c v =>
        rw [le] at hst htv ⊢
        -- the first units decide unless they are equal, in each of the two comparisons
        by_cases hab : a = b
        · subst hab
          rw [if_pos rfl] at hst
          by_cases hac : a = c
          · rw [if_pos hac] at htv ⊢
            exact ih hst htv
          · rw [if_neg hac] at htv ⊢
            exact htv
        · rw [if_neg hab, decide_eq_true_eq] at hst
          by_cases hbc : b = c
          · subst hbc
            rw [if_neg hab, decide_eq_true_eq]
            exact hst
          · rw [if_neg hbc, decide_eq_true_eq] at htv
            have hac : a < c := Std.lt_trans hst htv
            rw [if_neg (Std.ne_of_lt hac), decide_eq_true_eq]
            exact hac

theorem le_total (s t : Text) : (le s t || le t s) = true := by
  induction s generalizing t with
  | nil => rfl
  | cons a s ih =>
    cases t with
    | nil => rfl
    | cons b t =>
      rw [le, le]
      by_cases hab : a = b
      · rw [if_pos hab, if_pos hab.symm]
        exact ih t
      · rw [if_neg hab, if_neg (Ne.symm hab)]
        rcases Std.lt_trichotomy a b with h | h | h
        · simp [h]
        · exact absurd h hab
        · simp [h]

theorem le_refl (t : Text) : le t t = true := by
  simpa using le_total t t

/-- What is sorted is in ascending order. -/
theorem pairwise_sort (ts : List Text) : (sort ts).Pairwise fun s t => le s t = true := by
  rw [sort]
  refine List.pairwise_mergeSort ?_ le_total ts
  exact fun _ _ _ => le_trans

theorem mem_sort {t : Text} {ts : List Text} : t ∈ sort ts ↔ t ∈ ts :=
  List.mem_mergeSort

theorem le_antisymm {s t : Text} (hst : le s t = true) (hts : le t s = true) : s = t := by
  induction s generalizing t with
  | nil =>
    cases t with
    | nil => rfl
    | cons b t => cases hts
  | cons a s ih =>
    cases t with
    | nil => cases hst
    | cons b t =>
      rw [le] at hst hts
      by_cases hab : a = b
      · subst hab
        rw [if_pos rfl] at hst hts
        rw [ih hst hts]
      · rw [if_neg hab, decide_eq_true_eq] at hst
        rw [if_neg (Ne.symm hab), decide_eq_true_eq] at hts
        exact absurd (Std.lt_trans hst hts) Std.lt_irrefl

/-- The order in which texts are given makes no difference. -/
theorem sort_eq_of_perm {ts us : List Text} (h : ts.Perm us) : sort ts = sort us := by
  refine List.Perm.eq_of_pairwise (fun _ _ _ _ => le_antisymm) (pairwise_sort ts)
    (pairwise_sort us) ?_
  exact ((List.mergeSort_perm ts le).trans h).trans (List.mergeSort_perm us le).symm

/-! ## 2. Repetition -/

/-- What repetitions are taken out of repeats nothing. -/
theorem nodup_eraseDups (ts : List Text) : ts.eraseDups.Nodup := by
  induction hlength : ts.length using Nat.strongRecOn generalizing ts with
  | _ length ih =>
    cases ts with
    | nil => exact List.nodup_nil
    | cons t ts =>
      have hshorter := List.length_filter_le (fun other => !other == t) ts
      rw [List.eraseDups_cons, List.nodup_cons]
      refine ⟨?_, ih _ (by rw [← hlength, List.length_cons]; omega) _ rfl⟩
      rw [List.mem_eraseDups, List.mem_filter]
      rintro ⟨-, hdifferent⟩
      simp at hdifferent

/-- Where no key is repeated, every entry is found. -/
theorem lookup_of_mem {κ α : Type} [BEq κ] [LawfulBEq κ] {entries : List (κ × α)}
    (h : (entries.map (·.1)).Nodup) {entry : κ × α} (hentry : entry ∈ entries) :
    entries.lookup entry.1 = some entry.2 := by
  obtain ⟨before, behind, rfl⟩ := List.append_of_mem hentry
  rw [List.map_append, List.map_cons, List.nodup_append] at h
  refine List.lookup_eq_some_iff.2 ⟨before, behind, rfl, fun other hother => ?_⟩
  exact bne_iff_ne.2 (h.2.2 other.1 (List.mem_map_of_mem hother) entry.1 List.mem_cons_self).symm

/-- Where no key is repeated, the order of the entries makes no difference. -/
theorem lookup_eq_of_perm {κ α : Type} [BEq κ] [LawfulBEq κ] {entries others : List (κ × α)}
    (h : (entries.map (·.1)).Nodup) (hperm : entries.Perm others) (key : κ) :
    entries.lookup key = others.lookup key := by
  have hothers : (others.map (·.1)).Nodup := (hperm.map _).nodup_iff.1 h
  have hmem {listed : List (κ × α)} {value : α} (hfound : listed.lookup key = some value) :
      (key, value) ∈ listed := by
    obtain ⟨before, behind, rfl, -⟩ := List.lookup_eq_some_iff.1 hfound
    exact List.mem_append_right _ List.mem_cons_self
  ext value
  constructor
  · intro hfound
    exact lookup_of_mem hothers (hperm.subset (hmem hfound))
  · intro hfound
    exact lookup_of_mem h (hperm.symm.subset (hmem hfound))

end PromptTemplate.Text
