/-!
# Sets of characters given by ranges of code points

* `CodeRange.Table` : inclusive ranges, ascending and apart;
* `CodeRange.Table.contains` : membership of a code point, by a scan that stops at the first
  range above it;
* `CodeRange.contains_iff` : on an ascending table the scan finds exactly the listed ranges.
-/

namespace ModuleLoader.Text.CodeRange

/-- Inclusive ranges of code points. -/
abbrev Table := List (Nat × Nat)

/-- The code point lies in one of the ranges; the scan ends at the first range above it. -/
def Table.contains : Table → Nat → Bool
  | [], _ => false
  | (first, last) :: rest, code =>
    if code < first then false else code ≤ last || Table.contains rest code

def Ascending (table : Table) : Prop := table.Pairwise (fun a b => a.1 ≤ b.1)

/-- On an ascending table the scan answers membership in a listed range. -/
theorem contains_iff {table : Table} (h : Ascending table) (code : Nat) :
    table.contains code = true ↔ ∃ range ∈ table, range.1 ≤ code ∧ code ≤ range.2 := by
  induction table with
  | nil => simp [Table.contains]
  | cons range rest ih =>
    obtain ⟨first, last⟩ := range
    obtain ⟨hfirst, hrest⟩ := List.pairwise_cons.1 h
    by_cases hlt : code < first
    · simp only [Table.contains, hlt, if_true, List.mem_cons, Bool.false_eq_true, false_iff]
      rintro ⟨range, hmem | hmem, hle, -⟩
      · subst hmem; exact absurd hle (by simp only; omega)
      · have := hfirst range hmem; simp only at this; omega
    · simp only [Table.contains, hlt, if_false, Bool.or_eq_true, decide_eq_true_eq,
        List.mem_cons, exists_eq_or_imp, ih hrest]
      constructor
      · rintro (hle | h)
        · exact Or.inl ⟨by omega, hle⟩
        · exact Or.inr h
      · rintro (⟨-, hle⟩ | h)
        · exact Or.inl hle
        · exact Or.inr h

end ModuleLoader.Text.CodeRange
