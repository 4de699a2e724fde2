/-
`Results.lean` -- results that are a value or an error.

What is known of a result that was put together tells what is known of its parts: of the first
and the second of two, of each member of a list, and of a result whose error was renamed.
-/
import Mathlib.Data.List.Basic

set_option autoImplicit false

namespace PromptTemplate

variable {α β γ ε : Type}

theorem ok_of_mapError {f : α → β} {result : Except α γ} {value : γ}
    (h : result.mapError f = .ok value) : result = .ok value := by
  cases result with
  | error error => cases h
  | ok found =>
    cases h
    rfl

theorem exists_of_mapError {f : α → β} {result : Except α γ} {error : β}
    (h : result.mapError f = .error error) : ∃ fault, result = .error fault ∧ error = f fault := by
  cases result with
  | error fault =>
    cases h
    exact ⟨fault, rfl, rfl⟩
  | ok found => cases h

theorem exists_of_map_ok {f : α → β} {result : Except ε α} {value : β}
    (h : result.map f = .ok value) : ∃ a, result = .ok a ∧ f a = value := by
  cases result with
  | error error => cases h
  | ok a =>
    cases h
    exact ⟨a, rfl, rfl⟩

theorem exists_of_bind_ok {first : Except ε α} {next : α → Except ε β} {value : β}
    (h : first >>= next = .ok value) : ∃ a, first = .ok a ∧ next a = .ok value := by
  cases first with
  | error error => cases h
  | ok a => exact ⟨a, rfl, h⟩

/-- What goes wrong with a list goes wrong with one of its members. -/
theorem exists_of_mapM_error {f : α → Except ε β} {members : List α} {error : ε}
    (h : members.mapM f = .error error) : ∃ a ∈ members, f a = .error error := by
  induction members with
  | nil => cases h
  | cons a members ih =>
    rw [List.mapM_cons] at h
    -- the search stops at the first member that fails; the members before it do not matter
    cases hfirst : f a with
    | error first =>
      rw [hfirst] at h
      cases h
      exact ⟨a, List.mem_cons_self, hfirst⟩
    | ok first =>
      rw [hfirst] at h
      cases hrest : members.mapM f with
      | error found =>
        rw [hrest] at h
        cases h
        obtain ⟨other, hother, hfound⟩ := ih hrest
        exact ⟨other, List.mem_cons_of_mem _ hother, hfound⟩
      | ok rest => rw [hrest] at h; cases h

/-- There is a value for each member, and each value is that of one of the members. -/
theorem values_of_mapM {f : α → Except ε β} {members : List α} {values : List β}
    (h : members.mapM f = .ok values) :
    values.length = members.length ∧ (∀ b ∈ values, ∃ a ∈ members, f a = .ok b) ∧
      ∀ a ∈ members, ∃ b ∈ values, f a = .ok b := by
  induction members generalizing values with
  | nil =>
    cases h
    exact ⟨rfl, List.forall_mem_nil _, List.forall_mem_nil _⟩
  | cons a members ih =>
    rw [List.mapM_cons] at h
    obtain ⟨first, hfirst, h⟩ := exists_of_bind_ok h
    obtain ⟨rest, hrest, h⟩ := exists_of_bind_ok h
    cases h
    obtain ⟨hlength, hvalues, hmembers⟩ := ih hrest
    refine ⟨by rw [List.length_cons, List.length_cons, hlength], fun b hmem => ?_,
      fun other hmem => ?_⟩
    · rcases List.mem_cons.1 hmem with rfl | hmem
      · exact ⟨a, List.mem_cons_self, hfirst⟩
      · obtain ⟨other, hother, hfound⟩ := hvalues b hmem
        exact ⟨other, List.mem_cons_of_mem _ hother, hfound⟩
    · rcases List.mem_cons.1 hmem with rfl | hmem
      · exact ⟨first, List.mem_cons_self, hfirst⟩
      · obtain ⟨b, hb, hfound⟩ := hmembers other hmem
        exact ⟨b, List.mem_cons_of_mem _ hb, hfound⟩

end PromptTemplate
