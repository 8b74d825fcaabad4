import Mathlib.Data.List.Infix
import ModuleLoader.Proofs.Accounting
import ModuleLoader.Proofs.History

/-!
# Who has the open libraries

Between loads the open libraries are those in the records of modules and those that went to who
asked for one by its path, unless an operation failed and left one behind.

* `Machine.openSince`, `Machine.heldSince` : the open libraries, and those that somebody has;
* `mem_openSince`, `mem_heldSince` : what the books say of both;
* `held_of_loadLibrary` : a library loaded by its path is handed to who gets it;
* `instants` : the moments of a run, with what happened in the operation until then
  (`exists_before`, `exists_after`);
* `LeakFree`, `leakFree_iff` : when the open libraries are those that somebody has;
* `raising_leaks` : a library whose entry point fails stays open.
-/

namespace ModuleLoader

open ModuleLoader.Action

/-! ## Who has a library -/

def Event.hands? : Event → Option Nat
  | .handed given => some given.handle
  | _ => none

namespace Machine

def openSince (x start : Machine) : List Nat :=
  (handlesIn .opened (x.since start)).filter
    (fun h => h ∉ handlesIn .closed (x.since start))

/-- The libraries in the records of modules, and those that since then went to who asked for one by
its path. -/
def heldSince (x start : Machine) : List Nat :=
  x.registry.modules.filterMap (fun r => r.library.map Library.handle) ++
    (x.since start).filterMap Event.hands?

end Machine

theorem mem_givenIn {events : List Event} {handle : Nat} : handle ∈ givenIn events ↔
    (∃ r, .registered r ∈ events ∧ r.library.map Library.handle = some handle) ∨
      ∃ library, .handed library ∈ events ∧ library.handle = handle := by
  constructor
  · intro h
    obtain ⟨event, he, hgives⟩ := List.mem_filterMap.1 h
    cases event with
    | registered r => exact Or.inl ⟨r, he, hgives⟩
    | handed library => exact Or.inr ⟨library, he, Option.some.inj hgives⟩
    | _ => cases hgives
  · rintro (⟨r, he, hr⟩ | ⟨library, he, rfl⟩)
    · exact List.mem_filterMap.2 ⟨_, he, hr⟩
    · exact List.mem_filterMap.2 ⟨_, he, rfl⟩

section Moment
variable {m x : Machine} {events : List Event}

/-- The open libraries are those that somebody has and those left. -/
theorem mem_openSince (h : x.Agree (m.replay events)) (hnodup : (handlesIn .opened events).Nodup)
    {left : List Nat} (hb : Books events left) (handle : Nat) :
    handle ∈ x.openSince m ↔ handle ∈ givenIn events ++ left := by
  have hdisjoint := List.disjoint_of_nodup_append (hb.balance.nodup hnodup)
  have hmem := hb.balance.mem_iff (a := handle)
  unfold Machine.openSince
  rw [since_of_agree h, List.mem_filter, hmem, List.mem_append, decide_eq_true_eq]
  constructor
  · rintro ⟨hclosed | hkept, hopen⟩
    · exact absurd hclosed hopen
    · exact hkept
  · intro hkept
    exact ⟨Or.inr hkept, fun hclosed => hdisjoint hclosed hkept⟩

/-- A fresh loader has a library exactly if it was given to somebody. -/
theorem mem_heldSince (h : x.Agree (m.replay events)) (hfresh : m.registry.modules = [])
    (hallows : m.AllowsAll events) (handle : Nat) :
    handle ∈ x.heldSince m ↔ handle ∈ givenIn events := by
  unfold Machine.heldSince
  rw [since_of_agree h, h.registry, List.mem_append, mem_givenIn, List.mem_filterMap]
  refine or_congr ?_ ?_
  · simp only [hallows.mem_modules, hfresh, List.not_mem_nil, false_or]
  · constructor
    · intro hmem
      obtain ⟨event, he, hhands⟩ := List.mem_filterMap.1 hmem
      cases event with
      | handed library => exact ⟨library, he, Option.some.inj hhands⟩
      | _ => cases hhands
    · rintro ⟨library, he, rfl⟩
      exact List.mem_filterMap.2 ⟨_, he, rfl⟩

end Moment

/-- The library that is loaded by its path is the one that was told to be handed out, so that from
then on somebody has it. -/
theorem held_of_loadLibrary {exec : Execute} (hexec : ∀ program, (exec program).Orderly)
    {start m after : Machine} (hm : start.Leads m) {path : String} {library : Library}
    (h : (loadLibrary exec path).on m = (.ok library, after)) :
    library = ⟨path, m.openedCount + 1⟩ ∧ after.trace.head? = some (.handed library) ∧
      library.handle ∈ after.heldSince start := by
  obtain ⟨_, installed, hinstall, hhanded⟩ := on_bind_eq_ok.1 h
  rw [on_record_bind, on_pure] at hhanded
  cases hhanded
  obtain ⟨events, hevents, -⟩ := exists_installation hexec path m
  obtain ⟨earlier, -, hearlier⟩ := hm
  rw [hinstall] at hevents
  obtain rfl : installed = m.replay events := hevents
  have hagree : ((m.replay events).record (.handed library)).Agree
      (start.replay (earlier ++ (events ++ [.handed library]))) := by
    refine hearlier.append ?_
    rw [Machine.replay_append]
    exact .refl _
  refine ⟨installLibrary_ok hinstall, rfl, ?_⟩
  unfold Machine.heldSince
  rw [since_of_agree hagree]
  exact List.mem_append_right _ (List.mem_filterMap.2 ⟨.handed library, by simp, rfl⟩)

/-! ## Runs -/

/-- The moments of a run, each with what happened until then in the operation under way. -/
def instants (settings : Settings) : Machine → List Turn → List (Machine × List Event)
  | m, [] => [(m, [])]
  | m, t :: rest =>
    let (outcome, after) := observe (perform settings t.depth t.operation) m
    outcome.events.inits.map (fun p => (m.replay p, p)) ++ instants settings after rest

theorem instants_cons (settings : Settings) (m : Machine) (t : Turn) (rest : List Turn) :
    instants settings m (t :: rest) =
      (observe (perform settings t.depth t.operation) m).1.events.inits.map
          (fun p => (m.replay p, p)) ++
        instants settings (observe (perform settings t.depth t.operation) m).2 rest := rfl

theorem map_replay_inits (m : Machine) (events : List Event) :
    events.inits.map m.replay = m.passes events := by
  induction events generalizing m with
  | nil => rfl
  | cons event events ih =>
    rw [List.inits_cons, List.map_cons, List.map_map, Machine.passes, ← ih]
    rfl

theorem map_fst_instants (settings : Settings) (m : Machine) (turns : List Turn) :
    (instants settings m turns).map Prod.fst = moments settings m turns := by
  induction turns generalizing m with
  | nil => rfl
  | cons t rest ih =>
    rw [instants_cons, List.map_append, ih, List.map_map]
    exact congrArg (· ++ _) (map_replay_inits m _)

theorem start_mem_instants (settings : Settings) (m : Machine) (turns : List Turn) :
    (m, []) ∈ instants settings m turns := by
  cases turns with
  | nil => exact List.mem_singleton_self _
  | cons t rest =>
    refine List.mem_append_left _ (List.mem_map.2 ⟨[], ?_, rfl⟩)
    exact (List.mem_inits _ _).2 (List.nil_prefix)

theorem final_mem_instants (settings : Settings) (m : Machine) (turns : List Turn) :
    (finalState settings m turns, []) ∈ instants settings m turns := by
  induction turns generalizing m with
  | nil => exact List.mem_singleton_self _
  | cons t rest ih => exact List.mem_append_right _ (ih _)

section Run
variable {settings : Settings} {m : Machine} {turns : List Turn}

theorem handlesOf_run (step : LibraryStep) (settings : Settings) (m : Machine)
    (turns : List Turn) : handlesOf step (libraryStory settings m turns) =
      handlesIn step ((runTurns settings m turns).flatMap Outcome.events) := by
  induction turns generalizing m with
  | nil => rfl
  | cons t rest ih =>
    rw [runTurns_cons, List.flatMap_cons, handlesIn_append, ← ih, ← handlesOf_libraryStory step m]
    exact List.filterMap_append

theorem nodup_opened {events : List Event}
    (h : events <+: (runTurns settings m turns).flatMap Outcome.events) :
    (handlesIn .opened events).Nodup := by
  have hrun := (paired_libraryStory settings m turns).nodup_opened
  rw [handlesOf_run] at hrun
  exact (h.sublist.filterMap _).nodup hrun

theorem allowsAll_before {events : List Event}
    (h : events <+: (runTurns settings m turns).flatMap Outcome.events) : m.AllowsAll events := by
  have hrun := allowsAll_runTurns settings m turns
  obtain ⟨rest, hrest⟩ := h
  rw [← hrest] at hrun
  exact (Machine.allowsAll_append.1 hrun).1

theorem exists_before {i : Machine × List Event} (hi : i ∈ instants settings m turns) :
    ∃ before, i.1.Agree (m.replay (before ++ i.2)) ∧
      before ++ i.2 <+: (runTurns settings m turns).flatMap Outcome.events ∧
      (∃ left, Books i.2 left) ∧
      ((∀ o ∈ runTurns settings m turns, Books o.events []) → Books before []) := by
  induction turns generalizing m with
  | nil =>
    obtain rfl := List.mem_singleton.1 hi
    exact ⟨[], .refl m, List.prefix_refl _, ⟨[], books_nil⟩, fun _ => books_nil⟩
  | cons t rest ih =>
    obtain ⟨hafter, hc⟩ := observe_conduct settings t m
    rw [instants_cons] at hi
    rw [runTurns_cons, List.flatMap_cons]
    generalize observe (perform settings t.depth t.operation) m = first at *
    rcases List.mem_append.1 hi with hi | hi
    · obtain ⟨p, hp, rfl⟩ := List.mem_map.1 hi
      have hprefix := (List.mem_inits _ _).1 hp
      exact ⟨[], .refl _, hprefix.trans (List.prefix_append _ _), hc.kept.1 p hprefix,
        fun _ => books_nil⟩
    · obtain ⟨before, hagree, hprefix, hbooks, hbefore⟩ := ih hi
      refine ⟨first.1.events ++ before, ?_, ?_, hbooks, fun h => ?_⟩
      · rw [List.append_assoc]
        exact hafter.append hagree
      · rw [List.append_assoc]
        exact (List.prefix_append_right_inj _).2 hprefix
      · have hrest := hbefore (fun o ho => h o (List.mem_cons_of_mem _ ho))
        exact (h _ List.mem_cons_self).append hrest

theorem exists_after {o : Outcome Answer} (ho : o ∈ runTurns settings m turns) :
    ∃ before x, (x, []) ∈ instants settings m turns ∧
      x.Agree (m.replay (before ++ o.events)) ∧
      before ++ o.events <+: (runTurns settings m turns).flatMap Outcome.events ∧
      ∃ left, Books before left := by
  induction turns generalizing m with
  | nil => cases ho
  | cons t rest ih =>
    obtain ⟨hafter, hc⟩ := observe_conduct settings t m
    rw [runTurns_cons] at ho ⊢
    rw [List.flatMap_cons, instants_cons]
    generalize observe (perform settings t.depth t.operation) m = first at *
    rcases List.mem_cons.1 ho with rfl | ho
    · exact ⟨[], _, List.mem_append_right _ (start_mem_instants _ _ _), hafter,
        List.prefix_append _ _, [], books_nil⟩
    · obtain ⟨before, x, hx, hagree, hprefix, left, hbefore⟩ := ih ho
      obtain ⟨more, hmore⟩ := hc.kept.1.books
      refine ⟨first.1.events ++ before, x, List.mem_append_right _ hx, ?_, ?_, _,
        hmore.append hbefore⟩
      · rw [List.append_assoc]
        exact hafter.append hagree
      · rw [List.append_assoc]
        exact (List.prefix_append_right_inj _).2 hprefix

end Run

/-- Each load that began gave its library to somebody, so that none is in progress. -/
def Idle (events : List Event) : Prop := begunIn events = (givenIn events).length

/-- Whenever no load is in progress, the open libraries are those that somebody has. -/
def LeakFree (settings : Settings) (m : Machine) (turns : List Turn) : Prop :=
  ∀ i ∈ instants settings m turns, Idle i.2 →
    ∀ h, h ∈ i.1.openSince m ↔ h ∈ i.1.heldSince m

theorem leakFree_of_balanced {settings : Settings} {m : Machine} {turns : List Turn}
    (hfresh : m.registry.modules = [])
    (h : ∀ o ∈ runTurns settings m turns, Books o.events []) : LeakFree settings m turns := by
  intro i hi hidle handle
  obtain ⟨before, hagree, hprefix, ⟨left, hb⟩, hbefore⟩ := exists_before hi
  have hcovered := hb.covered
  rw [hidle] at hcovered
  have hnone : left = [] := List.eq_nil_of_length_eq_zero (by omega)
  rw [hnone] at hb
  have hbooks := (hbefore h).append hb
  rw [mem_openSince hagree (nodup_opened hprefix) hbooks,
    mem_heldSince hagree hfresh (allowsAll_before hprefix), List.append_nil, List.append_nil]

theorem balanced_of_leakFree {settings : Settings} {m : Machine} {turns : List Turn}
    (hfresh : m.registry.modules = []) (h : LeakFree settings m turns) :
    ∀ o ∈ runTurns settings m turns, Books o.events [] := by
  intro o ho
  obtain ⟨n, hc⟩ := exists_conduct ho
  obtain ⟨left, hb⟩ := hc.kept.1.books
  obtain ⟨before, x, hx, hagree, hprefix, earlier, hbefore⟩ := exists_after ho
  have hnodup := nodup_opened hprefix
  have hbooks := hbefore.append hb
  refine hb.nothing (fun handle hleft => ?_)
  have hopen : handle ∈ x.openSince m := by
    rw [mem_openSince hagree hnodup hbooks]
    exact List.mem_append_right _ (List.mem_append_right _ hleft)
  have hheld := (h _ hx rfl handle).1 hopen
  rw [mem_heldSince hagree hfresh (allowsAll_before hprefix)] at hheld
  obtain ⟨-, hgone⟩ := hbooks.of_left hnodup (List.mem_append_right _ hleft)
  exact hgone (List.mem_append_right _ hheld)

/-- In a run each library that is opened is closed or goes to somebody, and whenever no load is in
progress the open libraries are those that somebody has, exactly if no operation fails after it
called the entry point of a library that then went to nobody. -/
theorem leakFree_iff (settings : Settings) (before : Machine) (configuration : Configuration)
    (turns : List Turn) :
    let m := before.restart configuration
    let run := runTurns settings m turns
    ((∀ o ∈ run, o.Settles) ↔ ∀ o ∈ run, ¬ o.Drops) ∧
      (LeakFree settings m turns ↔ ∀ o ∈ run, ¬ o.Drops) := by
  intro m run
  have hbalanced : (∀ o ∈ run, Books o.events []) ↔ ∀ o ∈ run, ¬ o.Drops := by
    refine forall₂_congr (fun o ho => ?_)
    obtain ⟨n, hc⟩ := exists_conduct ho
    exact Outcome.balanced_iff hc
  refine ⟨?_, ?_⟩
  · rw [← hbalanced]
    refine forall₂_congr (fun o ho => ?_)
    obtain ⟨n, hc⟩ := exists_conduct ho
    exact Outcome.settles_iff hc
  · rw [← hbalanced]
    exact ⟨balanced_of_leakFree rfl, leakFree_of_balanced rfl⟩

/-- A loader in whose system there is one library, whose entry point fails. -/
def raising : Machine :=
  let bare := System.bare (some "/work")
  let library : Node := .file ⟨some [], .opens standardEntryPoint (some "Missing()")⟩
  (Machine.blank (bare.write "m/a.so" library)).restart
    ⟨some [.named "m"], Extension.standard, "/opt/app/bin", [], standardEntryPoint⟩

def raisingTurns : List Turn := [⟨nestingLimit, .require (.string "a"), .refl false⟩]

/-- The library whose entry point fails is opened, it is not closed, and nobody has it. -/
theorem raising_leaks : ¬ (∀ o ∈ runTurns {} raising raisingTurns, o.Settles) ∧
    ¬ LeakFree {} raising raisingTurns := by
  refine ⟨fun h => ?_, fun h => ?_⟩
  · have hunsettled : (runTurns {} raising raisingTurns).any (fun o =>
        (handlesIn .opened o.events).any (fun handle =>
          handle ∉ handlesIn .closed o.events ++ givenIn o.events)) := by decide +kernel
    obtain ⟨o, ho, hopened⟩ := List.any_eq_true.1 hunsettled
    obtain ⟨handle, hhandle, hnowhere⟩ := List.any_eq_true.1 hopened
    exact of_decide_eq_true hnowhere (h o ho hhandle)
  · have hopen : 1 ∈ (finalState {} raising raisingTurns).openSince raising := by decide +kernel
    have hheld : 1 ∉ (finalState {} raising raisingTurns).heldSince raising := by decide +kernel
    exact hheld ((h _ (final_mem_instants {} raising raisingTurns) rfl 1).1 hopen)

end ModuleLoader
