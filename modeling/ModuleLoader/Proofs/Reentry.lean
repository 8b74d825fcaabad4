import ModuleLoader.Proofs.Loading
import ModuleLoader.Proofs.Turns

/-!
# Libraries are loaded once, except where an entry point comes back to its own symbol

A script has its record before it runs, a library only once its entry point came back. Until then
the entry point can require its own symbol, and nothing keeps the loader from loading it again.

* `opensFor`, `openings` : a library is opened for a symbol, and how often that happens;
* `LoadsOnce` : of what was told of a run, no library is opened for a symbol while one is being
  loaded or after one was loaded, and no record is refused;
* `Reenters` : a symbol is loaded again while the entry point of its library runs;
* `Prompt`, `Conduct.prompt` : a library that was chosen is opened next, unless all stops there;
* `Course.pairwise_delivered`, `Course.pairwise_runs` : what cannot follow the load of a library and
  that of a script;
* `Course.reenters_of_refused`, `Course.reenters_of_twice` : both faults come from reentry;
* `loadsOnce_iff` : a run loads libraries once exactly if no operation of it reenters.
-/

namespace ModuleLoader

open ModuleLoader.Action

namespace Event

/-- A file is going to be loaded for a symbol equal to this one. -/
def picks (s : Symbol) : Event → Bool
  | .chosen t _ => t.same s
  | _ => false

def picksScript (s : Symbol) : Event → Bool
  | .chosen t ⟨_, .scriptSource⟩ => t.same s
  | _ => false

/-- The entry point of the library for a symbol equal to this one came back. -/
def delivers (s : Symbol) : Event → Bool
  | .delivered t _ => t.same s
  | _ => false

variable {s : Symbol} {event : Event}

theorem exists_of_picks (h : event.picks s) : ∃ t c, event = .chosen t c ∧ t.same s := by
  cases event with
  | chosen t c => exact ⟨t, c, rfl, h⟩
  | _ => cases h

theorem exists_of_picksScript (h : event.picksScript s) :
    ∃ t path, event = .chosen t ⟨path, .scriptSource⟩ ∧ t.same s := by
  cases event with
  | chosen t c =>
      obtain ⟨path, kind⟩ := c
      cases kind with
      | scriptSource => exact ⟨t, path, rfl, h⟩
      | nativeLibrary => cases h
  | _ => cases h

theorem exists_of_delivers (h : event.delivers s) :
    ∃ t library, event = .delivered t library ∧ t.same s := by
  cases event with
  | delivered t library => exact ⟨t, library, rfl, h⟩
  | _ => cases h

end Event

/-- The events begin with the opening of the library that is chosen for a symbol equal to this
one. -/
def opensFor (s : Symbol) : List Event → Bool
  | .chosen t ⟨_, .nativeLibrary⟩ :: .consulted .load _ :: .library .opened _ _ :: _ => t.same s
  | _ => false

/-- How often a library is opened for symbols equal to this one. -/
def openings (s : Symbol) : List Event → Nat
  | [] => 0
  | event :: rest => if opensFor s (event :: rest) then openings s rest + 1 else openings s rest

/-- What is asked of the outcomes of a run. A load that fails ends its operation, so within one
operation a library may be opened only once for a symbol; a later operation may try again, unless
the entry point came back. -/
structure LoadsOnce (outcomes : List (Outcome Answer)) : Prop where
  once : ∀ o ∈ outcomes, ∀ s, openings s o.events ≤ 1
  later : outcomes.Pairwise (fun o o' =>
    ∀ s, o.events.any (·.delivers s) → openings s o'.events = 0)
  accepted : ∀ o ∈ outcomes, ∀ s, stop? o.result ≠ some (.fault (.registeredTwice s))

/-- While the entry point of the library for a symbol runs, the symbol is loaded again: from a
library that is opened, or from a script in spite of which the first library is loaded to the
end. -/
def Reenters (events : List Event) : Prop :=
  ∃ (s t : Symbol) (path : String) (c : Candidate) (before during rest : List Event),
    events = before ++ .chosen s ⟨path, .nativeLibrary⟩ :: (during ++ .chosen t c :: rest) ∧
      s.same t ∧ ¬ during.any (·.delivers s) ∧
      (opensFor s (.chosen t c :: rest) ∨ rest.any (·.delivers s))

/-! ## Openings -/

section Openings
variable {s : Symbol} {events : List Event}

theorem exists_of_opensFor (h : opensFor s events) :
    ∃ t path rest, events = .chosen t ⟨path, .nativeLibrary⟩ :: rest ∧ t.same s := by
  unfold opensFor at h
  split at h
  · exact ⟨_, _, _, rfl, h⟩
  · cases h

theorem opensFor_congr (h : opensFor s events) {t : Symbol} (hs : s.same t) :
    opensFor t events := by
  unfold opensFor at h ⊢
  split at h
  · exact Symbol.same_trans h hs
  · cases h

theorem openings_le_append (s : Symbol) (before events : List Event) :
    openings s events ≤ openings s (before ++ events) := by
  induction before with
  | nil => exact Nat.le_refl _
  | cons event before ih =>
      rw [List.cons_append, openings]
      split
      · exact Nat.le_succ_of_le ih
      · exact ih

theorem openings_pos (h : opensFor s events) (before : List Event) :
    0 < openings s (before ++ events) := by
  refine Nat.lt_of_lt_of_le ?_ (openings_le_append s before events)
  obtain ⟨t, path, rest, rfl, -⟩ := exists_of_opensFor h
  rw [openings, if_pos h]
  exact Nat.succ_pos _

theorem exists_of_openings_pos (h : 0 < openings s events) :
    ∃ before rest, events = before ++ rest ∧ opensFor s rest := by
  induction events with
  | nil => exact absurd h (Nat.lt_irrefl 0)
  | cons event events ih =>
      by_cases hopens : opensFor s (event :: events)
      · exact ⟨[], event :: events, rfl, hopens⟩
      · rw [openings, if_neg hopens] at h
        obtain ⟨before, rest, rfl, hrest⟩ := ih h
        exact ⟨event :: before, rest, rfl, hrest⟩

theorem exists_of_one_lt_openings (h : 1 < openings s events) :
    ∃ before event during rest, events = before ++ event :: (during ++ rest) ∧
      opensFor s (event :: (during ++ rest)) ∧ opensFor s rest := by
  induction events with
  | nil => exact absurd h (Nat.not_lt_zero 1)
  | cons event events ih =>
      by_cases hopens : opensFor s (event :: events)
      · rw [openings, if_pos hopens] at h
        obtain ⟨during, rest, rfl, hrest⟩ := exists_of_openings_pos (Nat.lt_of_succ_lt_succ h)
        exact ⟨[], event, during, rest, rfl, hopens, hrest⟩
      · rw [openings, if_neg hopens] at h
        obtain ⟨before, first, during, rest, rfl, hrest⟩ := ih h
        exact ⟨event :: before, first, during, rest, rfl, hrest⟩

theorem openings_eq_zero (h : ¬ events.any (·.picks s)) : openings s events = 0 := by
  refine Nat.eq_zero_of_not_pos (fun hpos => h ?_)
  obtain ⟨before, rest, rfl, hrest⟩ := exists_of_openings_pos hpos
  obtain ⟨t, path, rest, rfl, ht⟩ := exists_of_opensFor hrest
  exact List.any_eq_true.2 ⟨_, List.mem_append_right _ List.mem_cons_self, ht⟩

end Openings

/-- The events begin with a file that is opened as a library. -/
def Opens (events : List Event) : Prop :=
  ∃ path handle rest, events = .consulted .load path :: .library .opened path handle :: rest

theorem Opens.append {events : List Event} (h : Opens events) (others : List Event) :
    Opens (events ++ others) := by
  obtain ⟨path, handle, rest, rfl⟩ := h
  exact ⟨path, handle, rest ++ others, rfl⟩

theorem Opens.opensFor {events : List Event} (h : Opens events) {s t : Symbol} (path : String)
    (ht : t.same s) : opensFor s (.chosen t ⟨path, .nativeLibrary⟩ :: events) := by
  obtain ⟨_, _, _, rfl⟩ := h
  exact ht

/-- Every library that is chosen is opened next, unless the events stop short of that: then no step
of a load follows. -/
def Prompt (stops : Bool) : List Event → Prop
  | [] => True
  | event :: rest =>
    (∀ s path, event = .chosen s ⟨path, .nativeLibrary⟩ →
        Opens rest ∨ (stops ∧ ∀ other ∈ rest, other.loadOf? = none)) ∧
      Prompt stops rest

namespace Prompt
variable {stops : Bool} {events others : List Event}

theorem of_forall (stops : Bool)
    (h : ∀ event ∈ events, ∀ s path, event ≠ .chosen s ⟨path, .nativeLibrary⟩) :
    Prompt stops events := by
  induction events with
  | nil => trivial
  | cons event events ih =>
      refine ⟨fun s path he => ?_, ih (fun e he => h e (List.mem_cons_of_mem _ he))⟩
      exact absurd he (h event List.mem_cons_self s path)

theorem append (first : Prompt false events) (rest : Prompt stops others) :
    Prompt stops (events ++ others) := by
  induction events with
  | nil => exact rest
  | cons event events ih =>
      obtain ⟨hevent, hevents⟩ := first
      refine ⟨fun s path he => ?_, ih hevents⟩
      rcases hevent s path he with hopens | ⟨hfalse, -⟩
      · exact .inl (hopens.append others)
      · cases hfalse

theorem opening (stops : Bool) (m : Machine) (path : String) (asking : Option Symbol) :
    Prompt stops (asked path asking ++ m.opening path) := by
  have hopening : Prompt stops (m.opening path) :=
    .of_forall stops (by simp [Machine.opening])
  cases asking with
  | none => exact hopening
  | some s => exact ⟨fun _ _ _ => .inl ⟨path, _, _, rfl⟩, hopening⟩

theorem unopened {path : String} (asking : Option Symbol)
    (aside : ∀ event ∈ events, event.isAside) :
    Prompt true (asked path asking ++ .consulted .load path :: events) := by
  have hload : ∀ event ∈ .consulted .load path :: events, event.loadOf? = none := by
    intro event he
    rcases List.mem_cons.1 he with rfl | he
    · rfl
    · exact Event.loadOf?_of_isPlain (Event.isPlain_of_isAside (aside event he))
  have hrest : Prompt true (.consulted .load path :: events) := by
    refine .of_forall true (fun event he s path heq => ?_)
    have hnone := hload event he
    rw [heq] at hnone
    cases hnone
  cases asking with
  | none => exact hrest
  | some s => exact ⟨fun _ _ _ => .inr ⟨rfl, hload⟩, hrest⟩

theorem ending {library : Library} {n : Machine} {asking : Option Symbol} {stop : Option Stop}
    (h : Ending library n asking events stop) : Prompt stops events := by
  refine .of_forall stops ?_
  cases h <;> simp

theorem opens {before after : List Event} {s : Symbol} {path : String}
    (h : Prompt stops (before ++ .chosen s ⟨path, .nativeLibrary⟩ :: after)) {event : Event}
    (he : event ∈ after) (hload : event.loadOf? ≠ none) : Opens after := by
  induction before with
  | nil => exact (h.1 s path rfl).resolve_right (fun hnone => hload (hnone.2 event he))
  | cons first before ih => exact ih h.2

end Prompt

theorem Conduct.prompt {m : Machine} {events : List Event} {stop : Option Stop}
    (h : Conduct m events stop) : Prompt stop.isSome events := by
  -- Only what stops may end short of an opening, and nothing is put behind that.
  induction h with
  | done | halt => trivial
  | aside aside =>
      refine .of_forall false (fun event he s path heq => ?_)
      rw [← List.mem_singleton.1 he, heq] at aside
      cases aside
  | settled => exact .of_forall _ (by simp)
  | append _ _ ihf ihr => exact ihf.append ihr
  | script new _ ih => exact (Prompt.of_forall false (by simp [scriptOpening])).append ih
  | unopened new aside other => exact .unopened _ aside
  | rejected new hides other => exact .opening true _ _ _
  | raised new exposes _ ih => exact (Prompt.opening false _ _ _).append ih
  | load new exposes _ ends ih =>
      exact ((Prompt.opening false _ _ _).append ih).append (.ending ends)

theorem Reenters.append_left {events : List Event} (h : Reenters events) (earlier : List Event) :
    Reenters (earlier ++ events) := by
  obtain ⟨s, t, path, c, before, during, rest, rfl, hrest⟩ := h
  exact ⟨s, t, path, c, earlier ++ before, during, rest, (List.append_assoc _ _ _).symm, hrest⟩

namespace Course
variable {m : Machine} {events : List Event} {stop : Option Stop}

/-- A symbol whose library was loaded has a record in the end, be it another one. -/
theorem found_of_delivered (h : Course m events stop) {s : Symbol} {library : Library}
    (hd : .delivered s library ∈ events) : (m.replay events).registry.find? s ≠ none := by
  have keep {n : Machine} {others : List Event} (hn : n.registry.find? s ≠ none) :
      (n.replay others).registry.find? s ≠ none := mt Machine.find?_of_replay_none hn
  induction h with
  | done | halt => cases hd
  | incident hi => exact absurd hd (hi.not_mem_of_loadOf? rfl)
  | append first rest ihf ihr =>
      rw [Machine.replay_append]
      rcases List.mem_append.1 hd with hd | hd
      · exact keep (ihf hd)
      · exact ihr hd
  | script new run ih =>
      rw [Machine.replay_append]
      rcases List.mem_append.1 hd with hd | hd
      · simp [scriptOpening] at hd
      · exact ih hd
  | native library new run still ih =>
      simp only [List.mem_cons, List.mem_append, Event.delivered.injEq, reduceCtorEq,
        List.not_mem_nil, or_false, false_or] at hd
      rcases hd with hd | ⟨rfl, -⟩
      · rw [Machine.replay_cons, Machine.replay_append]
        exact keep (ih hd)
      · rw [find?_native _ still (Symbol.same_refl _)]
        exact Option.some_ne_none _
  | refused library new run taken ih =>
      simp only [List.mem_cons, List.mem_append, Event.delivered.injEq, reduceCtorEq,
        List.not_mem_nil, or_false, false_or] at hd
      rw [Machine.replay_cons, Machine.replay_append]
      rcases hd with hd | ⟨rfl, -⟩
      · exact keep (ih hd)
      · exact keep taken
  | abandoned new run ih =>
      simp only [List.mem_cons, reduceCtorEq, false_or] at hd
      exact ih hd

/-- Nothing is loaded for a symbol whose library was loaded. -/
theorem pairwise_delivered (h : Course m events stop) :
    events.Pairwise (fun e e' => ∀ s, e.delivers s → ¬ e'.picks s) := by
  induction h with
  | done | halt => exact List.Pairwise.nil
  | incident hi =>
      refine List.pairwise_of_forall_mem_list (fun e he e' _ s hs => ?_)
      obtain ⟨t, library, rfl, -⟩ := Event.exists_of_delivers hs
      exact absurd he (hi.not_mem_of_loadOf? rfl)
  | append first rest ihf ihr =>
      refine List.pairwise_append.2 ⟨ihf, ihr, fun e he e' he' s hs hs' => ?_⟩
      obtain ⟨t, library, rfl, ht⟩ := Event.exists_of_delivers hs
      obtain ⟨u, c, rfl, hu⟩ := Event.exists_of_picks hs'
      refine first.found_of_delivered he ?_
      rw [Registry.find?_congr _ (Symbol.same_of_same ht hu)]
      exact rest.new_of_chosen he'
  | script new run ih =>
      refine List.pairwise_append.2 ⟨by simp [scriptOpening, Event.delivers], ih, ?_⟩
      intro e he e' _ s hs
      obtain ⟨t, library, rfl, -⟩ := Event.exists_of_delivers hs
      simp [scriptOpening] at he
  | native library new run still ih | refused library new run taken ih =>
      refine List.pairwise_cons.2 ⟨fun _ _ _ hs => absurd hs Bool.false_ne_true, ?_⟩
      refine List.pairwise_append.2 ⟨ih, by simp [Event.picks], fun e _ e' he' s _ hs' => ?_⟩
      obtain ⟨u, c, rfl, -⟩ := Event.exists_of_picks hs'
      simp at he'
  | abandoned new run ih =>
      exact List.pairwise_cons.2 ⟨fun _ _ _ hs => absurd hs Bool.false_ne_true, ih⟩

/-- Unless a record is refused, no library is loaded for a symbol after a script was. -/
theorem pairwise_runs (h : Course m events stop)
    (accepted : ∀ s, stop ≠ some (.fault (.registeredTwice s))) :
    events.Pairwise (fun e e' => ∀ s, e.picksScript s → ¬ e'.delivers s) := by
  induction h with
  | done | halt => exact List.Pairwise.nil
  | incident hi =>
      refine List.pairwise_of_forall_mem_list (fun e he e' _ s hs => ?_)
      obtain ⟨t, path, rfl, -⟩ := Event.exists_of_picksScript hs
      exact absurd he (hi.not_mem_of_loadOf? rfl)
  | append first rest ihf ihr =>
      refine List.pairwise_append.2 ⟨ihf (by simp), ihr accepted, fun e he e' he' s hs hs' => ?_⟩
      obtain ⟨t, path, rfl, ht⟩ := Event.exists_of_picksScript hs
      obtain ⟨u, library, rfl, hu⟩ := Event.exists_of_delivers hs'
      obtain ⟨c, hc⟩ := rest.chosen_of_loadOf? he' rfl
      obtain ⟨r, hr⟩ := first.found_of_chosen he
      rw [Registry.find?_congr _ (Symbol.same_of_same ht hu),
        rest.new_of_chosen hc] at hr
      cases hr
  | @script m t' path' events stop new run ih =>
      refine List.pairwise_append.2 ⟨by simp [scriptOpening, Event.delivers], ih accepted, ?_⟩
      intro e he e' he' s hs hs'
      obtain ⟨t, path, rfl, ht⟩ := Event.exists_of_picksScript hs
      obtain ⟨u, library, rfl, hu⟩ := Event.exists_of_delivers hs'
      obtain ⟨c, hc⟩ := run.chosen_of_loadOf? he' rfl
      cases chosen_mem_scriptOpening he
      have hfound := find?_script path' new (Symbol.same_of_same ht hu)
      rw [run.new_of_chosen hc] at hfound
      cases hfound
  | native library new run still ih =>
      refine List.pairwise_cons.2 ⟨fun _ _ _ hs => absurd hs Bool.false_ne_true, ?_⟩
      refine List.pairwise_append.2 ⟨ih (by simp), by simp [Event.picksScript], ?_⟩
      intro e he e' he' s hs hs'
      obtain ⟨t, path, rfl, ht⟩ := Event.exists_of_picksScript hs
      obtain ⟨u, library, rfl, hu⟩ := Event.exists_of_delivers hs'
      obtain ⟨r, hr⟩ := run.found_of_chosen he
      simp only [List.mem_cons, Event.delivered.injEq, reduceCtorEq, List.not_mem_nil,
        or_false] at he'
      obtain ⟨rfl, rfl⟩ := he'
      rw [Registry.find?_congr _ (Symbol.same_of_same ht hu), still] at hr
      cases hr
  | refused library new run taken ih => exact absurd rfl (accepted _)
  | abandoned new run ih =>
      exact List.pairwise_cons.2 ⟨fun _ _ _ hs => absurd hs Bool.false_ne_true, ih accepted⟩

/-- Where a library is loaded for a symbol that got a record meanwhile, the symbol was reentered. -/
theorem reenters_of_taken {s : Symbol} {path : String} {library : Library}
    (run : Course (m.record (.chosen s ⟨path, .nativeLibrary⟩)) events none)
    (new : m.registry.find? s = none)
    (taken : ((m.record (.chosen s ⟨path, .nativeLibrary⟩)).replay events).registry.find? s ≠
      none) :
    Reenters (.chosen s ⟨path, .nativeLibrary⟩ :: (events ++ [.delivered s library])) := by
  obtain ⟨r, hr, hs⟩ := Machine.exists_registered
    (m := m.record (.chosen s ⟨path, .nativeLibrary⟩)) new taken
  obtain ⟨c, hc⟩ := run.chosen_of_loadOf? hr rfl
  obtain ⟨during, rest, rfl⟩ := List.append_of_mem hc
  refine ⟨s, r.symbol, path, c, [], during, rest ++ [.delivered s library], ?_,
    Symbol.same_symm hs, ?_, Or.inr ?_⟩
  · simp
  · intro hdelivered
    obtain ⟨e, he, hes⟩ := List.any_eq_true.1 hdelivered
    have hpair := (List.pairwise_append.1 run.pairwise_delivered).2.2
    exact hpair e he _ List.mem_cons_self s hes hs
  · simp [Event.delivers]

/-- A record is refused only where a symbol was reentered. -/
theorem reenters_of_refused {s : Symbol}
    (h : Course m events (some (.fault (.registeredTwice s)))) : Reenters events := by
  generalize hstop : some (Stop.fault (.registeredTwice s)) = stop at h
  induction h with
  | done | incident | native => cases hstop
  | halt other =>
      cases hstop
      cases other
  | append first rest ihf ihr => exact (ihr hstop).append_left _
  | script new run ih => exact (ih hstop).append_left _
  | refused library new run taken ih => exact run.reenters_of_taken new taken
  | abandoned new run ih => exact (ih hstop).append_left [_]

/-- In one course a library is opened for a symbol twice only if the symbol was reentered. -/
theorem reenters_of_twice (h : Course m events stop) {s : Symbol}
    (htwice : 1 < openings s events) : Reenters events := by
  obtain ⟨before, e, during, rest, rfl, hfirst, hagain⟩ := exists_of_one_lt_openings htwice
  obtain ⟨t, path, _, heq, ht⟩ := exists_of_opensFor hfirst
  obtain ⟨rfl, -⟩ := List.cons.inj heq
  obtain ⟨u, path', rest, rfl, hu⟩ := exists_of_opensFor hagain
  have hsame := Symbol.same_of_same ht hu
  refine ⟨t, u, path, ⟨path', .nativeLibrary⟩, before, during, rest, rfl, hsame, ?_, Or.inl ?_⟩
  · intro hdelivered
    obtain ⟨d, hd, hdt⟩ := List.any_eq_true.1 hdelivered
    have hrest := (List.pairwise_cons.1 (List.pairwise_append.1 h.pairwise_delivered).2.1).2
    exact (List.pairwise_append.1 hrest).2.2 d hd _ List.mem_cons_self t hdt
      (Symbol.same_symm hsame)
  · exact opensFor_congr hagain (Symbol.same_symm ht)

end Course

namespace Conduct
variable {m : Machine} {events : List Event} {stop : Option Stop}

/-- A conduct that reenters opens a library for a symbol twice, or a record is refused. -/
theorem broken_of_reenters (h : Conduct m events stop) (hreenters : Reenters events) :
    (∃ s, 1 < openings s events) ∨ ∃ s, stop = some (.fault (.registeredTwice s)) := by
  obtain ⟨s, t, path, ⟨path', kind⟩, before, during, rest, rfl, hs, -, hagain⟩ := hreenters
  have hlater : Event.chosen t ⟨path', kind⟩ ∈ during ++ .chosen t ⟨path', kind⟩ :: rest := by simp
  have hfirst := (h.prompt.opens hlater (Option.some_ne_none t)).opensFor path
    (Symbol.same_refl s)
  have htwice (hopens : opensFor s (.chosen t ⟨path', kind⟩ :: rest)) :
      1 < openings s (before ++ .chosen s ⟨path, .nativeLibrary⟩ ::
        (during ++ .chosen t ⟨path', kind⟩ :: rest)) := by
    refine Nat.lt_of_lt_of_le ?_ (openings_le_append s before _)
    rw [openings, if_pos hfirst]
    exact Nat.succ_lt_succ (openings_pos hopens during)
  rcases hagain with hopens | hdelivered
  · exact .inl ⟨s, htwice hopens⟩
  · obtain ⟨d, hd, hdelivers⟩ := List.any_eq_true.1 hdelivered
    obtain ⟨u, library, rfl, -⟩ := Event.exists_of_delivers hdelivers
    cases kind with
    | nativeLibrary =>
        have hsplit : before ++ .chosen s ⟨path, .nativeLibrary⟩ ::
            (during ++ .chosen t ⟨path', .nativeLibrary⟩ :: rest) =
          (before ++ .chosen s ⟨path, .nativeLibrary⟩ :: during) ++
            .chosen t ⟨path', .nativeLibrary⟩ :: rest := by simp
        have hprompt := h.prompt
        rw [hsplit] at hprompt
        exact .inl ⟨s, htwice ((hprompt.opens hd (Option.some_ne_none u)).opensFor path'
          (Symbol.same_symm hs))⟩
    | scriptSource =>
        refine .inr (by_contra fun haccepted => ?_)
        have hpair := h.course.pairwise_runs (fun u hu => haccepted ⟨u, hu⟩)
        have hrest := (List.pairwise_cons.1 (List.pairwise_append.1 hpair).2.1).2
        have hscript := (List.pairwise_cons.1 (List.pairwise_append.1 hrest).2.1).1
        exact hscript _ hd s (Symbol.same_symm hs) hdelivers

/-- Within one operation, libraries are loaded once exactly if nothing is reentered. -/
theorem once_iff (h : Conduct m events stop) :
    ((∀ s, openings s events ≤ 1) ∧ ∀ s, stop ≠ some (.fault (.registeredTwice s))) ↔
      ¬ Reenters events := by
  constructor
  · rintro ⟨honce, haccepted⟩ hreenters
    rcases h.broken_of_reenters hreenters with ⟨s, hs⟩ | ⟨s, hs⟩
    · exact absurd (honce s) (Nat.not_le.2 hs)
    · exact haccepted s hs
  · refine fun hreenters => ⟨fun s => Nat.not_lt.1 fun hs => ?_, fun s hs => ?_⟩
    · exact hreenters (h.course.reenters_of_twice hs)
    · subst hs
      exact hreenters h.course.reenters_of_refused

end Conduct

theorem not_picks_of_known {settings : Settings} {m : Machine} {s : Symbol} {turns : List Turn}
    (h : m.registry.find? s ≠ none) :
    ∀ o ∈ runTurns settings m turns, ¬ o.events.any (·.picks s) := by
  induction turns generalizing m with
  | nil => exact fun o ho => absurd ho List.not_mem_nil
  | cons t rest ih =>
      obtain ⟨hafter, hc⟩ := observe_course settings t m
      intro o ho
      rw [runTurns_cons] at ho
      rcases List.mem_cons.1 ho with rfl | ho
      · intro hpicks
        obtain ⟨e, he, hs⟩ := List.any_eq_true.1 hpicks
        obtain ⟨u, c, rfl, hu⟩ := Event.exists_of_picks hs
        rw [← Registry.find?_congr _ hu] at h
        exact h (hc.new_of_chosen he)
      · refine ih ?_ o ho
        rw [hafter.registry]
        exact mt Machine.find?_of_replay_none h

/-- Once a library was loaded for a symbol, no later operation loads anything for it. -/
theorem pairwise_runTurns (settings : Settings) (m : Machine) (turns : List Turn) :
    (runTurns settings m turns).Pairwise (fun o o' =>
      ∀ s, o.events.any (·.delivers s) → ¬ o'.events.any (·.picks s)) := by
  induction turns generalizing m with
  | nil => exact List.Pairwise.nil
  | cons t rest ih =>
      obtain ⟨hafter, hc⟩ := observe_course settings t m
      rw [runTurns_cons]
      refine List.pairwise_cons.2 ⟨fun o ho s hdelivered => ?_, ih _⟩
      obtain ⟨e, he, hs⟩ := List.any_eq_true.1 hdelivered
      obtain ⟨u, library, rfl, hu⟩ := Event.exists_of_delivers hs
      refine not_picks_of_known ?_ o ho
      rw [hafter.registry, ← Registry.find?_congr _ hu]
      exact hc.found_of_delivered he

/-- A run loads libraries once exactly if none of its operations reenters. What the events tell of
loads is all that is loaded: a known symbol is answered without any load, and the file chosen for
any other symbol is loaded once, be it opened and installed or read and run. -/
theorem loadsOnce_iff (settings : Settings) (m : Machine) (turns : List Turn) :
    (LoadsOnce (runTurns settings m turns) ↔
        ∀ o ∈ runTurns settings m turns, ¬ Reenters o.events) ∧
      ∀ exec, LoadsSingly exec := by
  refine ⟨⟨fun h o ho => ?_, fun h => ?_⟩, loadsSingly⟩
  · obtain ⟨n, hc⟩ := exists_conduct ho
    exact hc.once_iff.1 ⟨h.once o ho, h.accepted o ho⟩
  · have hturns (o : Outcome Answer) (ho : o ∈ runTurns settings m turns) :=
      (exists_conduct ho).elim (fun _ hc => hc.once_iff.2 (h o ho))
    refine ⟨fun o ho => (hturns o ho).1, ?_, fun o ho => (hturns o ho).2⟩
    exact (pairwise_runTurns settings m turns).imp
      (fun hlater s hs => openings_eq_zero (hlater s hs))

/-- A library whose entry point requires a script that requires the library. -/
def ring : System :=
  let bare := System.bare (some "/work")
  (bare.write "m/a.so" (.file ⟨some [], .opens standardEntryPoint (some "Require('b)")⟩)).write
    "m/b.lps" (.file ⟨some (Text.Utf8.encode "Require('a)".toList), .opens standardEntryPoint none⟩)

def ringRun : List (Outcome Answer) :=
  runTurns {} ((Machine.blank ring).restart
      ⟨some [.named "m"], Extension.standard, "/opt/app/bin", [], standardEntryPoint⟩)
    [⟨nestingLimit, .require (.string "a"), rfl⟩]

/-- In the ring the library is opened twice, and then refused its record. -/
theorem ring_not_loadsOnce : ¬ LoadsOnce ringRun ∧
    ringRun.any (fun o => (stop? o.result).any Stop.isRefusedRecord) := by
  refine ⟨fun h => ?_, by decide +kernel⟩
  have htwice : ringRun.any (fun o => 1 < openings ⟨"a"⟩ o.events) := by decide +kernel
  obtain ⟨o, ho, hopens⟩ := List.any_eq_true.1 htwice
  exact absurd (h.once o ho ⟨"a"⟩) (Nat.not_le.2 (of_decide_eq_true hopens))

end ModuleLoader
