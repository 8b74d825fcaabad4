import Mathlib.Data.Fintype.Card
import Mathlib.Logic.Relation
import Mathlib.Tactic.Common

/-!
# Depth-first traversal

The nodes of a finite graph are visited depth first. A node is marked when it is entered, and left
once everything that it depends on was visited.

* `Traversal` : the nodes entered and those left again, both in order;
* `tour` : a traversal that goes on with some nodes, one after another (`tour_cons_seen`,
  `tour_cons_new`, `tour_cons`);
* `tour_induction` : how traversals are reasoned about;
* `exists_visited` : a tour adds the nodes that it enters, each of which it leaves;
* `mem_entered_tour` : from the start, it enters what its nodes lead to.
-/

namespace ModuleLoader

/-- How far a traversal has come: the nodes entered and those left again, in order. -/
structure Traversal (ι : Type) where
  entered : List ι
  left : List ι
  deriving DecidableEq, Repr

namespace Traversal
variable {ι : Type}

def start : Traversal ι := ⟨[], []⟩

def enter (t : Traversal ι) (n : ι) : Traversal ι := ⟨t.entered ++ [n], t.left⟩

def leave (t : Traversal ι) (n : ι) : Traversal ι := ⟨t.entered, t.left ++ [n]⟩

@[simp] theorem entered_enter (t : Traversal ι) (n : ι) : (t.enter n).entered = t.entered ++ [n] :=
  rfl

@[simp] theorem left_enter (t : Traversal ι) (n : ι) : (t.enter n).left = t.left := rfl

@[simp] theorem entered_leave (t : Traversal ι) (n : ι) : (t.leave n).entered = t.entered := rfl

@[simp] theorem left_leave (t : Traversal ι) (n : ι) : (t.leave n).left = t.left ++ [n] := rfl

variable [Fintype ι] [DecidableEq ι]

/-- The number of nodes that were not entered yet. -/
def unseen (t : Traversal ι) : Nat := (Finset.univ.filter (fun n => n ∉ t.entered)).card

theorem unseen_le {t u : Traversal ι} (h : t.entered ⊆ u.entered) : u.unseen ≤ t.unseen := by
  refine Finset.card_le_card (fun n hn => ?_)
  simp only [Finset.mem_filter, Finset.mem_univ, true_and] at hn ⊢
  exact fun hmem => hn (h hmem)

theorem unseen_enter {t : Traversal ι} {n : ι} (h : n ∉ t.entered) :
    (t.enter n).unseen < t.unseen := by
  refine Finset.card_lt_card ⟨fun k hk => ?_, fun hsub => ?_⟩
  · simp only [entered_enter, List.mem_append, Finset.mem_filter, Finset.mem_univ, true_and,
      not_or] at hk ⊢
    exact hk.1
  · have hn := hsub (Finset.mem_filter.2 ⟨Finset.mem_univ n, h⟩)
    simp at hn

theorem unseen_start : (start : Traversal ι).unseen = Fintype.card ι := by
  simp [unseen, start, Finset.card_univ]

end Traversal

/-- The traversal that goes on with some nodes, one after another. All nodes that were entered
before stay so. -/
def tourFrom {ι : Type} [Fintype ι] [DecidableEq ι] (deps : ι → List ι) (t : Traversal ι) :
    List ι → {u : Traversal ι // t.entered ⊆ u.entered}
  | [] => ⟨t, List.Subset.refl _⟩
  | n :: rest =>
    if _h : n ∈ t.entered then tourFrom deps t rest
    else
      let below := tourFrom deps (t.enter n) (deps n)
      let after := tourFrom deps (below.1.leave n) rest
      ⟨after.1, fun _ hk => after.2 (below.2 (List.mem_append_left _ hk))⟩
termination_by todo => (t.unseen, todo.length)
decreasing_by
  · exact Prod.Lex.right _ (Nat.lt_succ_self _)
  · exact Prod.Lex.left _ _ (Traversal.unseen_enter _h)
  · refine Prod.Lex.left _ _ (Nat.lt_of_le_of_lt ?_ (Traversal.unseen_enter _h))
    exact Traversal.unseen_le below.2

variable {ι : Type} [Fintype ι] [DecidableEq ι] (deps : ι → List ι)

def tour (t : Traversal ι) (todo : List ι) : Traversal ι := (tourFrom deps t todo).1

variable {t : Traversal ι} {n : ι} {rest : List ι}

theorem entered_subset_tour (t : Traversal ι) (todo : List ι) :
    t.entered ⊆ (tour deps t todo).entered :=
  (tourFrom deps t todo).2

variable {deps}

@[simp] theorem tour_nil : tour deps t [] = t := by
  rw [tour, tourFrom]

theorem tour_cons_seen (h : n ∈ t.entered) : tour deps t (n :: rest) = tour deps t rest := by
  rw [tour, tourFrom, dif_pos h]
  rfl

theorem tour_cons_new (h : n ∉ t.entered) : tour deps t (n :: rest) =
    tour deps ((tour deps (t.enter n) (deps n)).leave n) rest := by
  rw [tour, tourFrom, dif_neg h]
  rfl

theorem tour_singleton_new (h : n ∉ t.entered) :
    tour deps t [n] = (tour deps (t.enter n) (deps n)).leave n := by
  rw [tour_cons_new h, tour_nil]

theorem tour_singleton_seen (h : n ∈ t.entered) : tour deps t [n] = t := by
  rw [tour_cons_seen h, tour_nil]

theorem tour_cons (t : Traversal ι) (n : ι) (rest : List ι) :
    tour deps t (n :: rest) = tour deps (tour deps t [n]) rest := by
  by_cases h : n ∈ t.entered
  · rw [tour_cons_seen h, tour_singleton_seen h]
  · rw [tour_cons_new h, tour_singleton_new h]

variable (deps) in
/-- What holds of a tour through nothing, and of one through a node and more nodes if it holds of
the tours that make it up. -/
theorem tour_induction {P : Traversal ι → List ι → Traversal ι → Prop}
    (nil : ∀ t, P t [] t)
    (seen : ∀ t n rest, n ∈ t.entered → P t rest (tour deps t rest) →
      P t (n :: rest) (tour deps t rest))
    (new : ∀ t n rest below, n ∉ t.entered → below = tour deps (t.enter n) (deps n) →
      P (t.enter n) (deps n) below → P (below.leave n) rest (tour deps (below.leave n) rest) →
        P t (n :: rest) (tour deps (below.leave n) rest))
    (t : Traversal ι) (todo : List ι) : P t todo (tour deps t todo) := by
  induction t, todo using tourFrom.induct deps with
  | case1 t =>
      rw [tour_nil]
      exact nil t
  | case2 t n rest h ih =>
      rw [tour_cons_seen h]
      exact seen t n rest h ih
  | case3 t n rest h below ihbelow ihrest =>
      rw [tour_cons_new h]
      exact new t n rest _ h rfl ihbelow ihrest

/-! ## The nodes that are visited -/

variable (deps) in
theorem exists_visited (t : Traversal ι) (todo : List ι) : ∃ entered left : List ι,
    (tour deps t todo).entered = t.entered ++ entered ∧
      (tour deps t todo).left = t.left ++ left ∧ left.Perm entered := by
  induction t, todo using tour_induction deps with
  | nil t => exact ⟨[], [], by simp, by simp, .refl _⟩
  | seen t n rest h ih => exact ih
  | new t n rest below h hbelow ihbelow ihrest =>
      obtain ⟨entered, left, hentered, hleft, hperm⟩ := ihbelow
      obtain ⟨entered', left', hentered', hleft', hperm'⟩ := ihrest
      refine ⟨n :: entered ++ entered', left ++ n :: left', ?_, ?_, ?_⟩
      · rw [hentered', Traversal.entered_leave, hentered, Traversal.entered_enter]
        simp
      · rw [hleft', Traversal.left_leave, hleft, Traversal.left_enter]
        simp
      · exact List.perm_middle.trans ((hperm.append hperm').cons n)

theorem nodup_tour (t : Traversal ι) (todo : List ι) (h : t.entered.Nodup) :
    (tour deps t todo).entered.Nodup := by
  induction t, todo using tour_induction deps with
  | nil t => exact h
  | seen t n rest hn ih => exact ih h
  | new t n rest below hn hbelow ihbelow ihrest =>
      refine ihrest (ihbelow ?_)
      rw [Traversal.entered_enter]
      exact List.nodup_append.2 ⟨h, List.nodup_singleton n, by
        rintro a ha b hb rfl
        exact hn (List.mem_singleton.1 hb ▸ ha)⟩

theorem subset_tour (t : Traversal ι) (todo : List ι) : todo ⊆ (tour deps t todo).entered := by
  induction t, todo using tour_induction deps with
  | nil t => exact List.nil_subset _
  | seen t n rest h ih => exact List.cons_subset.2 ⟨entered_subset_tour deps t rest h, ih⟩
  | new t n rest below h hbelow ihbelow ihrest =>
      refine List.cons_subset.2 ⟨entered_subset_tour deps _ rest ?_, ihrest⟩
      rw [Traversal.entered_leave, hbelow]
      exact entered_subset_tour deps _ (deps n) (List.mem_append_right _ (List.mem_singleton_self n))

/-- What a node that was entered on the tour depends on was visited. -/
theorem deps_subset_tour (t : Traversal ι) (todo : List ι) :
    ∀ k ∈ (tour deps t todo).entered, k ∈ t.entered ∨ deps k ⊆ (tour deps t todo).entered := by
  induction t, todo using tour_induction deps with
  | nil t => exact fun k hk => Or.inl hk
  | seen t n rest h ih => exact ih
  | new t n rest below h hbelow ihbelow ihrest =>
      intro k hk
      have hlater := entered_subset_tour deps (below.leave n) rest
      rcases ihrest k hk with hk | hk
      · rcases ihbelow k hk with hk | hk
        · rcases List.mem_append.1 hk with hk | hk
          · exact Or.inl hk
          · obtain rfl := List.mem_singleton.1 hk
            have hdeps : deps k ⊆ below.entered := hbelow ▸ subset_tour (t.enter k) (deps k)
            exact Or.inr (List.Subset.trans hdeps hlater)
        · exact Or.inr (List.Subset.trans hk hlater)
      · exact Or.inr hk

/-- What a node depends on, directly or through others; itself included. -/
def Reaches (deps : ι → List ι) : ι → ι → Prop := Relation.ReflTransGen (fun a b => b ∈ deps a)

/-- A tour enters only what its nodes lead to. -/
theorem reaches_of_mem_tour (t : Traversal ι) (todo : List ι) :
    ∀ k ∈ (tour deps t todo).entered, k ∈ t.entered ∨ ∃ n ∈ todo, Reaches deps n k := by
  induction t, todo using tour_induction deps with
  | nil t => exact fun k hk => Or.inl hk
  | seen t n rest h ih =>
      intro k hk
      rcases ih k hk with hk | ⟨m, hm, hreach⟩
      · exact Or.inl hk
      · exact Or.inr ⟨m, List.mem_cons_of_mem _ hm, hreach⟩
  | new t n rest below h hbelow ihbelow ihrest =>
      intro k hk
      rcases ihrest k hk with hk | ⟨m, hm, hreach⟩
      · rcases ihbelow k hk with hk | ⟨m, hm, hreach⟩
        · rcases List.mem_append.1 hk with hk | hk
          · exact Or.inl hk
          · obtain rfl := List.mem_singleton.1 hk
            exact Or.inr ⟨k, List.mem_cons_self, .refl⟩
        · exact Or.inr ⟨n, List.mem_cons_self, .head hm hreach⟩
      · exact Or.inr ⟨m, List.mem_cons_of_mem _ hm, hreach⟩

/-- From the start, a tour enters all that its nodes lead to, and nothing else. -/
theorem mem_entered_tour (roots : List ι) (k : ι) :
    k ∈ (tour deps .start roots).entered ↔ ∃ n ∈ roots, Reaches deps n k := by
  constructor
  · exact fun h => (reaches_of_mem_tour .start roots k h).resolve_left List.not_mem_nil
  · rintro ⟨n, hn, hreach⟩
    induction hreach with
    | refl => exact subset_tour _ _ hn
    | @tail b c hreach hstep ih =>
        exact (deps_subset_tour .start roots b ih).resolve_left List.not_mem_nil hstep

variable (deps) in
/-- From the start, a tour leaves each node that it enters, once. -/
theorem left_tour (roots : List ι) :
    (tour deps .start roots).left.Perm (tour deps .start roots).entered ∧
      (tour deps .start roots).left.Nodup := by
  obtain ⟨entered, left, hentered, hleft, hperm⟩ := exists_visited deps .start roots
  have hall : (tour deps .start roots).left.Perm (tour deps .start roots).entered := by
    rw [hentered, hleft]
    exact hperm
  exact ⟨hall, hall.nodup_iff.2 (nodup_tour .start roots List.nodup_nil)⟩

end ModuleLoader
