import ModuleLoader.Proofs.Action

/-!
# Records under events

* `Registry.Distinct` : no two records have equal symbols, so that a record is found under its
  symbol (`Distinct.find?_eq`);
* `registry_record` : an event leaves the registry alone or makes the first record of a symbol;
* `prefix_replay`, `distinct_replay` : events add records at the end and keep them distinct;
* `find?_replay` : what is found stays found; `exists_registered` : what is found later was
  registered meanwhile.
-/

namespace ModuleLoader

namespace Symbol

theorem same_trans {s t u : Symbol} (hst : s.same t) (htu : t.same u) : s.same u := by
  rw [same_iff] at *
  exact hst.trans htu

theorem same_symm {s t : Symbol} (h : s.same t) : t.same s := by
  rwa [same_comm]

theorem same_of_same {s t u : Symbol} (hs : s.same u) (ht : t.same u) : s.same t :=
  same_trans hs (same_symm ht)

end Symbol

namespace Registry

/-- No two records have equal symbols. -/
def Distinct (registry : Registry) : Prop :=
  registry.modules.Pairwise (fun a b => ¬ a.symbol.same b.symbol)

theorem distinct_empty : Distinct empty := List.Pairwise.nil

theorem find?_congr (registry : Registry) {s t : Symbol} (h : s.same t) :
    registry.find? s = registry.find? t := by
  have hk : s.key = t.key := (Symbol.same_iff s t).1 h
  simp only [find?, Symbol.same, hk]

theorem find?_eq_none_iff (registry : Registry) (s : Symbol) :
    registry.find? s = none ↔ ∀ r ∈ registry.modules, ¬ r.symbol.same s := by
  simp [find?]

theorem Distinct.find?_eq {registry : Registry} (hd : registry.Distinct) {r : LoadedModule}
    {s : Symbol} (hr : r ∈ registry.modules) (hs : r.symbol.same s) :
    registry.find? s = some r := by
  obtain ⟨modules⟩ := registry
  simp only [Distinct, find?] at *
  induction modules with
  | nil => cases hr
  | cons first rest ih =>
      obtain ⟨hfirst, hrest⟩ := List.pairwise_cons.1 hd
      rcases List.mem_cons.1 hr with rfl | hr
      · exact List.find?_cons_of_pos hs
      · have hne : ¬ first.symbol.same s := fun h =>
          hfirst r hr (Symbol.same_of_same h hs)
        simpa [List.find?_cons, hne] using ih hrest hr

theorem insert?_of_find?_none {registry : Registry} {r : LoadedModule}
    (h : registry.find? r.symbol = none) : registry.insert? r = some ⟨registry.modules ++ [r]⟩ := by
  simp [insert?, h]

theorem insert_of_find?_none {registry : Registry} {r : LoadedModule}
    (h : registry.find? r.symbol = none) : registry.insert r = .ok ⟨registry.modules ++ [r]⟩ := by
  simp [insert, insert?_of_find?_none h]

theorem insert_of_find?_some {registry : Registry} {r old : LoadedModule}
    (h : registry.find? r.symbol = some old) :
    registry.insert r = .error (.registeredTwice r.symbol) := by
  simp [insert, insert?, h]

end Registry

namespace Machine

theorem insert?_eq_record {m : Machine} {r : LoadedModule}
    (h : m.registry.find? r.symbol = none) :
    m.registry.insert? r = some (m.record (.registered r)).registry := by
  have hinsert := Registry.insert?_of_find?_none h
  change _ = some ((m.registry.insert? r).getD m.registry)
  rw [hinsert, Option.getD_some]

theorem modules_record_registered {m : Machine} {r : LoadedModule}
    (h : m.registry.find? r.symbol = none) :
    (m.record (.registered r)).registry.modules = m.registry.modules ++ [r] :=
  Registry.modules_of_insert? (insert?_eq_record h)

theorem find?_record_registered {m : Machine} {r : LoadedModule}
    (h : m.registry.find? r.symbol = none) {s : Symbol} (hs : r.symbol.same s) :
    (m.record (.registered r)).registry.find? s = some r := by
  rw [Registry.find?_of_insert? (insert?_eq_record h), if_pos hs]

/-- An event leaves the registry alone, or it makes the first record of a symbol. -/
theorem registry_record (m : Machine) (event : Event) :
    (m.record event).registry = m.registry ∨
      ∃ r, event = .registered r ∧ m.registry.find? r.symbol = none ∧
        (m.record event).registry.modules = m.registry.modules ++ [r] := by
  cases event with
  | registered r =>
      cases h : m.registry.find? r.symbol with
      | none => exact Or.inr ⟨r, rfl, h, modules_record_registered h⟩
      | some old =>
          refine Or.inl ?_
          change (m.registry.insert? r).getD m.registry = _
          rw [(Registry.insert?_eq_none_iff _ _).2 ⟨old, h⟩, Option.getD_none]
  | _ => exact Or.inl rfl

/-- An event adds at most one record, at the end. -/
theorem prefix_record (m : Machine) (event : Event) :
    m.registry.modules <+: (m.record event).registry.modules := by
  rcases m.registry_record event with h | ⟨r, -, -, h⟩
  · exact ⟨[], by rw [h, List.append_nil]⟩
  · exact ⟨[r], h.symm⟩

theorem prefix_replay (m : Machine) (events : List Event) :
    m.registry.modules <+: (m.replay events).registry.modules := by
  induction events generalizing m with
  | nil => exact List.prefix_refl _
  | cons event events ih => exact (m.prefix_record event).trans (ih _)

theorem distinct_record {m : Machine} (h : m.registry.Distinct) (event : Event) :
    (m.record event).registry.Distinct := by
  rcases m.registry_record event with hsame | ⟨r, -, hnew, hadd⟩
  · rwa [hsame]
  · rw [Registry.Distinct, hadd]
    have hold := (Registry.find?_eq_none_iff _ _).1 hnew
    exact List.pairwise_append.2 ⟨h, List.pairwise_singleton _ _, by simpa using hold⟩

theorem distinct_replay {m : Machine} (h : m.registry.Distinct) (events : List Event) :
    (m.replay events).registry.Distinct := by
  induction events generalizing m with
  | nil => exact h
  | cons event events ih => exact ih (distinct_record h event)

theorem find?_replay {m : Machine} {s : Symbol} {r : LoadedModule}
    (h : m.registry.find? s = some r) (events : List Event) :
    (m.replay events).registry.find? s = some r := by
  obtain ⟨added, hadded⟩ := m.prefix_replay events
  rw [Registry.find?, ← hadded, List.find?_append]
  rw [Registry.find?] at h
  rw [h]
  rfl

theorem find?_of_replay_none {m : Machine} {s : Symbol} {events : List Event}
    (h : (m.replay events).registry.find? s = none) : m.registry.find? s = none := by
  cases hr : m.registry.find? s with
  | none => rfl
  | some r => rw [find?_replay hr events] at h; cases h

theorem exists_registered {m : Machine} {s : Symbol} {events : List Event}
    (hnew : m.registry.find? s = none) (h : (m.replay events).registry.find? s ≠ none) :
    ∃ r, .registered r ∈ events ∧ r.symbol.same s := by
  induction events generalizing m with
  | nil => exact absurd hnew h
  | cons event events ih =>
      by_cases hstep : (m.record event).registry.find? s = none
      · obtain ⟨r, hr, hs⟩ := ih hstep h
        exact ⟨r, List.mem_cons_of_mem _ hr, hs⟩
      · rcases m.registry_record event with hsame | ⟨r, rfl, -, hadd⟩
        · rw [hsame] at hstep
          exact absurd hnew hstep
        · refine ⟨r, List.mem_cons_self, ?_⟩
          rw [Registry.find?_eq_none_iff, hadd] at hstep
          rw [Registry.find?_eq_none_iff] at hnew
          simp only [List.mem_append, List.mem_singleton, not_forall, not_not] at hstep
          obtain ⟨a, ha | rfl, hs⟩ := hstep
          · exact absurd hs (hnew a ha)
          · exact hs

end Machine

end ModuleLoader
