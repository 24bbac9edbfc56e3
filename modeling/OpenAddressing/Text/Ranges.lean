/-!
# Sets of code points

A set of code points is a list of ranges, each with its first and its last member,
in ascending order. `Ranges.has` stops at the first range above the code point that
it looks for; `Ranges.has_iff` says that it misses nothing by that.
-/

namespace OpenAddressing.Text

/-- Ranges of code points, by first and last member. -/
abbrev Ranges := List (Nat × Nat)

namespace Ranges

/-- No range is empty, each begins after the end of the one before, and the first
begins at `n` or above. -/
def ascendsFrom (n : Nat) : Ranges → Bool
  | [] => true
  | (lo, hi) :: rs => decide (n ≤ lo) && decide (lo ≤ hi) && ascendsFrom (hi + 1) rs

/-- Some range has the code point. -/
def has (c : Nat) : Ranges → Bool
  | [] => false
  | (lo, hi) :: rs => decide (lo ≤ c) && (decide (c ≤ hi) || has c rs)

theorem le_of_mem_of_ascendsFrom {r : Nat × Nat} : ∀ {n : Nat} {rs : Ranges},
    ascendsFrom n rs = true → r ∈ rs → n ≤ r.1
  | _, [], _, hr => by cases hr
  | n, (lo, hi) :: rs, h, hr => by
      simp only [ascendsFrom, Bool.and_eq_true, decide_eq_true_eq] at h
      rcases List.mem_cons.mp hr with rfl | hr
      · exact h.1.1
      · have := le_of_mem_of_ascendsFrom h.2 hr
        omega

theorem has_iff {c : Nat} : ∀ {n : Nat} {rs : Ranges}, ascendsFrom n rs = true →
    (has c rs = true ↔ ∃ r ∈ rs, r.1 ≤ c ∧ c ≤ r.2)
  | _, [], _ => by simp [has]
  | n, (lo, hi) :: rs, h => by
      simp only [ascendsFrom, Bool.and_eq_true, decide_eq_true_eq] at h
      simp only [has, Bool.and_eq_true, Bool.or_eq_true, decide_eq_true_eq, has_iff h.2,
        List.mem_cons, exists_eq_or_imp]
      constructor
      · rintro ⟨h1, h2 | h2⟩
        · exact Or.inl ⟨h1, h2⟩
        · exact Or.inr h2
      · rintro (⟨h1, h2⟩ | ⟨r, hr, h1, h2⟩)
        · exact ⟨h1, Or.inl h2⟩
        · have := le_of_mem_of_ascendsFrom h.2 hr
          exact ⟨by omega, Or.inr ⟨r, hr, h1, h2⟩⟩

end Ranges

end OpenAddressing.Text
