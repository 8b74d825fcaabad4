import Mathlib.Data.List.Induction
import ModuleLoader.Proofs.Turns

/-!
# What globals recall

A global has the value that was bound to it last, in whatever spelling, and is listed in the place
and in the spelling of its first binding. Binding one global leaves the others alone.

* `Bindings.setAll`, `Bindings.latest?` : bindings one after another, and the value that the last of
  them gave to a symbol (`get?_setAll`);
* `Bindings.Lists` : names that stand for the classes of equal symbols among some symbols
  (`lists_setAll`);
* `Bindings.elsewhere` : what a binding leaves alone (`elsewhere_set`);
* `globals_finalState` : a run binds what its events tell;
* `Machine.Recalls` : a state in which globals answer for a history of bindings
  (`recalls_finalState`);
* `globals_recall` : what was configured and bound is what globals tell.
-/

namespace ModuleLoader

open ModuleLoader.Action

namespace Bindings
variable {α : Type} {s : Symbol}

/-! ## Bindings one after another -/

def setAll (b : Bindings α) (history : List (Symbol × α)) : Bindings α :=
  history.foldl (fun bound entry => bound.set entry.1 entry.2) b

@[simp] theorem setAll_nil (b : Bindings α) : b.setAll [] = b := rfl

@[simp] theorem setAll_cons (b : Bindings α) (entry : Symbol × α) (history : List (Symbol × α)) :
    b.setAll (entry :: history) = (b.set entry.1 entry.2).setAll history := rfl

theorem setAll_append (b : Bindings α) (history later : List (Symbol × α)) :
    b.setAll (history ++ later) = (b.setAll history).setAll later :=
  List.foldl_append

/-- The value of the last binding of an equal symbol. -/
def latest? (history : List (Symbol × α)) (s : Symbol) : Option α :=
  (history.filter (fun entry => entry.1.same s)).getLast?.map Prod.snd

theorem latest?_concat (history : List (Symbol × α)) (entry : Symbol × α) (s : Symbol) :
    latest? (history ++ [entry]) s =
      if entry.1.same s then some entry.2 else latest? history s := by
  unfold latest?
  rw [List.filter_append]
  by_cases h : entry.1.same s
  · simp [h]
  · simp [h]

theorem latest?_eq_none_iff (history : List (Symbol × α)) (s : Symbol) :
    latest? history s = none ↔ ∀ entry ∈ history, ¬ entry.1.same s := by
  unfold latest?
  rw [Option.map_eq_none_iff, List.getLast?_eq_none_iff, List.filter_eq_nil_iff]

/-- A symbol has the value of its last binding. -/
theorem get?_setAll (history : List (Symbol × α)) (s : Symbol) :
    (empty.setAll history).get? s = latest? history s := by
  induction history using List.reverseRecOn with
  | nil => rfl
  | append_singleton history entry ih =>
    rw [setAll_append, setAll_cons, setAll_nil, get?_set, ih, latest?_concat]

/-! ## The names that are listed -/

/-- The name stands behind these symbols, and none of them is of its class. -/
def FirstBehind (symbols before : List Symbol) (name : Symbol) : Prop :=
  (∃ after, symbols = before ++ name :: after) ∧ ∀ s ∈ before, ¬ s.same name

theorem FirstBehind.concat {symbols before : List Symbol} {name : Symbol}
    (h : FirstBehind symbols before name) (s : Symbol) :
    FirstBehind (symbols ++ [s]) before name := by
  obtain ⟨⟨after, rfl⟩, hbefore⟩ := h
  exact ⟨⟨after ++ [s], by rw [List.append_assoc, List.cons_append]⟩, hbefore⟩

/-- The names stand for the symbols: each class of equal symbols has one name, which is the first
symbol of the class, and the names are in the order of these. -/
structure Lists (names symbols : List Symbol) : Prop where
  once : ∀ s ∈ symbols, names.countP (fun name => name.same s) = 1
  first : ∀ name ∈ names, ∃ before, FirstBehind symbols before name
  inOrder : names.Pairwise (fun earlier name =>
    ∃ before, FirstBehind symbols before name ∧ earlier ∈ before)

namespace Lists
variable {names symbols : List Symbol}

theorem nil : Lists [] [] := ⟨by simp, by simp, .nil⟩

theorem mem_symbols (h : Lists names symbols) {name : Symbol} (hname : name ∈ names) :
    name ∈ symbols := by
  obtain ⟨before, ⟨after, rfl⟩, -⟩ := h.first name hname
  exact List.mem_append_right before List.mem_cons_self

theorem exists_same (h : Lists names symbols) {t : Symbol} (ht : t ∈ symbols) :
    ∃ name ∈ names, name.same t := by
  have hpos : 0 < names.countP (fun name => name.same t) := by
    have honce := h.once t ht
    omega
  exact List.countP_pos_iff.1 hpos

theorem again (h : Lists names symbols) {name : Symbol} (hname : name ∈ names)
    (hs : name.same s) : Lists names (symbols ++ [s]) where
  once t ht := by
    rcases List.mem_append.1 ht with ht | ht
    · exact h.once t ht
    · obtain rfl := List.mem_singleton.1 ht
      have honce := h.once name (h.mem_symbols hname)
      have hkey : name.key = t.key := (Symbol.same_iff name t).1 hs
      simpa only [Symbol.same, hkey] using honce
  first other hother := by
    obtain ⟨before, hfirst⟩ := h.first other hother
    exact ⟨before, hfirst.concat s⟩
  inOrder := by
    refine h.inOrder.imp (fun hearlier => ?_)
    obtain ⟨before, hfirst, hmem⟩ := hearlier
    exact ⟨before, hfirst.concat s, hmem⟩

theorem new (h : Lists names symbols) (hs : ∀ name ∈ names, ¬ name.same s) :
    Lists (names ++ [s]) (symbols ++ [s]) := by
  have hnew : ∀ t ∈ symbols, ¬ t.same s := by
    intro t ht hts
    obtain ⟨name, hname, hsame⟩ := h.exists_same ht
    exact hs name hname (Symbol.same_trans hsame hts)
  have hlast : FirstBehind (symbols ++ [s]) symbols s := ⟨⟨[], rfl⟩, hnew⟩
  refine ⟨fun t ht => ?_, fun name hname => ?_, ?_⟩
  · rw [List.countP_append]
    rcases List.mem_append.1 ht with ht | ht
    · have hne : ¬ s.same t := fun hst => hnew t ht (Symbol.same_symm hst)
      rw [h.once t ht, List.countP_singleton, if_neg hne]
    · obtain rfl := List.mem_singleton.1 ht
      have hnone : names.countP (fun name => name.same t) = 0 := List.countP_eq_zero.2 hs
      rw [hnone, List.countP_singleton, if_pos t.same_refl]
  · rcases List.mem_append.1 hname with hname | hname
    · obtain ⟨before, hfirst⟩ := h.first name hname
      exact ⟨before, hfirst.concat s⟩
    · obtain rfl := List.mem_singleton.1 hname
      exact ⟨symbols, hlast⟩
  · refine List.pairwise_append.2 ⟨?_, List.pairwise_singleton _ _, ?_⟩
    · refine h.inOrder.imp (fun hearlier => ?_)
      obtain ⟨before, hfirst, hmem⟩ := hearlier
      exact ⟨before, hfirst.concat s, hmem⟩
    · intro name hname t ht
      obtain rfl := List.mem_singleton.1 ht
      exact ⟨symbols, hlast, h.mem_symbols hname⟩

end Lists

/-- The names that are kept stand for the symbols that were bound. -/
theorem lists_setAll (history : List (Symbol × α)) :
    Lists (empty.setAll history).names (history.map Prod.fst) := by
  induction history using List.reverseRecOn with
  | nil => exact .nil
  | append_singleton history entry ih =>
    rw [setAll_append, setAll_cons, setAll_nil, names_set, List.map_append, List.map_singleton]
    split
    · rename_i hany
      obtain ⟨name, hname, hsame⟩ := List.any_eq_true.1 hany
      exact ih.again hname hsame
    · rename_i hany
      exact ih.new (fun name hname hsame => hany (List.any_eq_true.2 ⟨name, hname, hsame⟩))

/-! ## What a binding leaves alone -/

/-- The entries of the symbols that are not equal to this one. -/
def elsewhere (b : Bindings α) (s : Symbol) : List (Symbol × α) :=
  b.entries.filter (fun entry => !entry.1.same s)

theorem elsewhere_set (b : Bindings α) (s : Symbol) (value : α) :
    (b.set s value).elsewhere s = b.elsewhere s := by
  obtain ⟨entries⟩ := b
  unfold elsewhere set
  dsimp only
  induction entries with
  | nil => simp [setIn]
  | cons entry rest ih =>
    obtain ⟨bound, old⟩ := entry
    by_cases h : bound.same s
    · simp [setIn, h]
    · simp [setIn, h, ih]

end Bindings

/-! ## Runs -/

def Event.binding? : Event → Option (Symbol × Value)
  | .bound s value => some (s, value)
  | _ => none

def bindingsIn (events : List Event) : List (Symbol × Value) := events.filterMap Event.binding?

theorem bindingsIn_append (events others : List Event) :
    bindingsIn (events ++ others) = bindingsIn events ++ bindingsIn others :=
  List.filterMap_append

theorem Machine.globals_replay (m : Machine) (events : List Event) :
    (m.replay events).globals = m.globals.setAll (bindingsIn events) := by
  induction events generalizing m with
  | nil => rfl
  | cons event events ih =>
    rw [replay_cons, ih]
    cases event <;> rfl

theorem globals_finalState (settings : Settings) (m : Machine) (turns : List Turn) :
    (finalState settings m turns).globals =
      m.globals.setAll (bindingsIn ((runTurns settings m turns).flatMap Outcome.events)) := by
  induction turns generalizing m with
  | nil => rfl
  | cons t rest ih =>
    obtain ⟨hafter, -⟩ := observe_conduct settings t m
    rw [finalState, ih, hafter.globals, Machine.globals_replay, runTurns_cons, List.flatMap_cons,
      bindingsIn_append, Bindings.setAll_append]

/-- Globals answer in this state for a history of bindings, and are left as they are. -/
structure Machine.Recalls (m : Machine) (history : List (Symbol × Value)) : Prop where
  get : ∀ (settings : Settings) (depth : Nat) (name default : Value) (s : Symbol),
    name.symbol? = some s → (perform settings depth (.getGlobal name default)).on m =
      (.ok (.value ((Bindings.latest? history s).getD default)), m)
  has : ∀ (settings : Settings) (depth : Nat) (name : Value) (s : Symbol),
    name.symbol? = some s → (perform settings depth (.hasGlobal name)).on m =
      (.ok (.truth (Bindings.latest? history s).isSome), m)
  lookUp : ∀ (name : String) (location : Script.Location), (lookUp name location).on m =
    (match Bindings.latest? history ⟨name⟩ with
      | some value => .ok value
      | none => .error (.fault (.evaluation (.undefinedVariable name) location)), m)
  list : ∃ names, Bindings.Lists names (history.map Prod.fst) ∧
    ∀ (settings : Settings) (depth : Nat), (perform settings depth .globals).on m =
      (.ok (.texts (names.map Symbol.name)), m)

theorem on_symbolOf {name : Value} {s : Symbol} (h : name.symbol? = some s) (m : Machine) :
    (symbolOf name).on m = (.ok s, m) := by
  cases name with
  | symbol t =>
    obtain rfl : t = s := Option.some.inj h
    rfl
  | string text =>
    obtain rfl : ⟨text⟩ = s := Option.some.inj h
    rfl
  | _ => cases h

theorem on_symbolOf_other {name : Value} (h : name.symbol? = none) (m : Machine) :
    (symbolOf name).on m = (.error (.fault (.notAName name)), m) := by
  cases name with
  | symbol s => cases h
  | string text => cases h
  | _ => rfl

/-- Globals that come of a history answer for it. -/
theorem Machine.recalls_of_globals {m : Machine} {history : List (Symbol × Value)}
    (h : m.globals = Bindings.empty.setAll history) : m.Recalls history where
  get settings depth name default s hs := by
    rw [perform, on_bind_ok (on_symbolOf hs m), on_get_bind, on_pure, h, Bindings.get?_setAll]
  has settings depth name s hs := by
    rw [perform, on_bind_ok (on_symbolOf hs m), on_get_bind, on_pure, h, Bindings.get?_setAll]
  lookUp name location := by
    rw [ModuleLoader.lookUp, on_get_bind, h, Bindings.get?_setAll]
    cases Bindings.latest? history ⟨name⟩ <;> rfl
  list := by
    refine ⟨m.globals.names, ?_, fun settings depth => rfl⟩
    rw [h]
    exact Bindings.lists_setAll history

/-- What is configured when a loader starts, as bindings. -/
def configuredGlobals (exeDir : Option String) (environment : List (String × String)) :
    List (Symbol × Value) :=
  (environmentGlobal, environmentValue environment) ::
    (exeDir.map (fun directory => (exeDirGlobal, .string directory))).toList

theorem initialGlobals_eq (exeDir : Option String) (environment : List (String × String)) :
    initialGlobals exeDir environment =
      Bindings.empty.setAll (configuredGlobals exeDir environment) := by
  cases exeDir <;> rfl

def Machine.withGlobals (m : Machine) (exeDir : Option String)
    (environment : List (String × String)) : Machine :=
  { m with globals := initialGlobals exeDir environment }

/-- After any run, globals answer for what was configured and for what was bound meanwhile. -/
theorem recalls_finalState (settings : Settings) (m : Machine) (exeDir : Option String)
    (environment : List (String × String)) (turns : List Turn) :
    let fresh := m.withGlobals exeDir environment
    (finalState settings fresh turns).Recalls (configuredGlobals exeDir environment ++
      bindingsIn ((runTurns settings fresh turns).flatMap Outcome.events)) := by
  refine Machine.recalls_of_globals ?_
  rw [globals_finalState, Bindings.setAll_append, ← initialGlobals_eq]
  rfl

/-! ## Bindings by the host -/

/-- A host binds the value to what it takes for a name. -/
def bindingTurn (depth : Nat) (call : Value × Value) : Turn :=
  ⟨depth, .bindGlobal call.1 call.2, rfl⟩

/-- The binding that a host asks for: strings and symbols are names. -/
def requested? (call : Value × Value) : Option (Symbol × Value) :=
  call.1.symbol?.map (fun s => (s, call.2))

/-- A call comes back if it gave a name. -/
def bindingResult (call : Value × Value) : Except Stop Answer :=
  match call.1.symbol? with
  | some _ => .ok .done
  | none => .error (.fault (.notAName call.1))

/-- The global is named by a call exactly if the calls ask for a binding of it. -/
theorem forall_requested {calls : List (Value × Value)} {P : Symbol → Prop} :
    (∀ entry ∈ calls.filterMap requested?, P entry.1) ↔
      ∀ call ∈ calls, ∀ t, call.1.symbol? = some t → P t := by
  constructor
  · intro h call hcall t ht
    have hrequested : requested? call = some (t, call.2) := by rw [requested?, ht]; rfl
    exact h (t, call.2) (List.mem_filterMap.2 ⟨call, hcall, hrequested⟩)
  · intro h entry hentry
    obtain ⟨call, hcall, hrequested⟩ := List.mem_filterMap.1 hentry
    obtain ⟨t, ht, rfl⟩ := Option.map_eq_some_iff.1 hrequested
    exact h call hcall t ht

def requestEvents (call : Value × Value) : List Event :=
  (requested? call).toList.map (fun entry => .bound entry.1 entry.2)

theorem bindingsIn_requestEvents (call : Value × Value) :
    bindingsIn (requestEvents call) = (requested? call).toList := by
  unfold requestEvents
  cases requested? call <;> rfl

theorem on_bindGlobal (settings : Settings) (depth : Nat) (m : Machine) (call : Value × Value) :
    (perform settings depth (.bindGlobal call.1 call.2)).on m =
      (bindingResult call, m.replay (requestEvents call)) := by
  obtain ⟨name, value⟩ := call
  unfold perform requestEvents requested? bindingResult
  dsimp only
  cases h : name.symbol? with
  | some s => rw [on_bind_ok (on_symbolOf h m)]; rfl
  | none => rw [on_bind_error (on_symbolOf_other h m)]; rfl

theorem events_binding (settings : Settings) (depth : Nat) (m : Machine) (call : Value × Value) :
    (observe (perform settings depth (.bindGlobal call.1 call.2)) m).1.events =
      requestEvents call := by
  change ((perform settings depth (.bindGlobal call.1 call.2)).on m).2.since m = _
  rw [on_bindGlobal]
  exact since_of_agree (Machine.Agree.refl _)

theorem runTurns_bindings (settings : Settings) (depth : Nat) (m : Machine)
    (calls : List (Value × Value)) :
    let outcomes := runTurns settings m (calls.map (bindingTurn depth))
    outcomes.map Outcome.result = calls.map bindingResult ∧
      bindingsIn (outcomes.flatMap Outcome.events) = calls.filterMap requested? := by
  induction calls generalizing m with
  | nil => exact ⟨rfl, rfl⟩
  | cons call rest ih =>
    dsimp only
    rw [List.map_cons, runTurns_cons]
    obtain ⟨hresults, hbindings⟩ :=
      ih (observe (perform settings depth (.bindGlobal call.1 call.2)) m).2
    constructor
    · have hresult := congrArg Prod.fst (on_bindGlobal settings depth m call)
      exact congrArg₂ List.cons hresult hresults
    · have hevents := events_binding settings depth m call
      rw [List.flatMap_cons, bindingsIn_append]
      refine (congrArg₂ (· ++ ·) ((congrArg bindingsIn hevents).trans
        (bindingsIn_requestEvents call)) hbindings).trans ?_
      rw [List.filterMap_cons]
      cases requested? call <;> rfl

theorem elsewhere_binding (settings : Settings) (depth : Nat) (m : Machine)
    {call : Value × Value} {t : Symbol} (ht : call.1.symbol? = some t) :
    let after := (observe (perform settings depth (.bindGlobal call.1 call.2)) m).2
    after.globals.elsewhere t = m.globals.elsewhere t ∧
      ∀ s, ¬ t.same s → after.globals.get? s = m.globals.get? s := by
  have hafter : (observe (perform settings depth (.bindGlobal call.1 call.2)) m).2.globals =
      m.globals.set t call.2 := by
    change ((perform settings depth (.bindGlobal call.1 call.2)).on m).2.globals = _
    rw [on_bindGlobal, requestEvents, requested?, ht]
    rfl
  dsimp only
  rw [hafter]
  refine ⟨Bindings.elsewhere_set _ t call.2, fun s hs => ?_⟩
  rw [Bindings.get?_set, if_neg hs]

/-- After calls that bind globals, strings and symbols that fold alike name the same global. It has
the value of the last call, else the configured one, and is missing if there is neither. The list
has one name for each global, in the spelling and the order of the first bindings. A call leaves the
other globals as they are. -/
theorem globals_recall (settings : Settings) (depth : Nat) (m : Machine) (exeDir : Option String)
    (environment : List (String × String)) (calls : List (Value × Value)) :
    let fresh := m.withGlobals exeDir environment
    let turns := calls.map (bindingTurn depth)
    let configured := configuredGlobals exeDir environment
    let history := configured ++ calls.filterMap requested?
    (runTurns settings fresh turns).map Outcome.result = calls.map bindingResult ∧
      (finalState settings fresh turns).Recalls history ∧
      (∀ s, Bindings.latest? history s = none ↔
        (∀ call ∈ calls, ∀ t, call.1.symbol? = some t → ¬ t.same s) ∧
          ∀ slot ∈ configured, ¬ slot.1.same s) ∧
      ∀ (before : Machine) (call : Value × Value) (t : Symbol), call.1.symbol? = some t →
        let after := (observe (perform settings depth (.bindGlobal call.1 call.2)) before).2
        after.globals.elsewhere t = before.globals.elsewhere t ∧
          ∀ s, ¬ t.same s → after.globals.get? s = before.globals.get? s := by
  dsimp only
  obtain ⟨hresults, hbindings⟩ :=
    runTurns_bindings settings depth (m.withGlobals exeDir environment) calls
  have hrecalls := recalls_finalState settings m exeDir environment (calls.map (bindingTurn depth))
  dsimp only at hrecalls
  rw [hbindings] at hrecalls
  refine ⟨hresults, hrecalls, fun s => ?_, fun before call t ht =>
    elsewhere_binding settings depth before ht⟩
  rw [Bindings.latest?_eq_none_iff, List.forall_mem_append, and_comm,
    forall_requested (P := fun t => ¬ t.same s)]

/-- Two globals, each bound twice in two spellings, at last to nil and to false. -/
def respellings : List (Value × Value) :=
  [(.string "Straße", .int 1), (.string "flag", .bool true), (.symbol ⟨"STRASSE"⟩, .nil),
    (.symbol ⟨"FLAG"⟩, .bool false)]

theorem globals_recall_respelled :
    let m := Machine.blank (System.bare none)
    let after := finalState {} (m.withGlobals none []) (respellings.map (bindingTurn 1))
    let next := (observe (perform {} 1 (.bindGlobal (.string "FLAG") (.int 2))) after).2
    (perform {} 1 (.getGlobal (.string "strasse") (.int 7))).on after = (.ok (.value .nil), after) ∧
      (perform {} 1 (.hasGlobal (.symbol ⟨"strasse"⟩))).on after = (.ok (.truth true), after) ∧
      (perform {} 1 (.getGlobal (.string "Flag") .nil)).on after =
        (.ok (.value (.bool false)), after) ∧
      (perform {} 1 (.hasGlobal (.string "_exedir_"))).on after = (.ok (.truth false), after) ∧
      (perform {} 1 .globals).on after = (.ok (.texts ["_ENV_", "Straße", "flag"]), after) ∧
      next.globals.get? ⟨"strasse"⟩ = after.globals.get? ⟨"strasse"⟩ := by
  dsimp only
  obtain ⟨-, hrecalls, -, hframe⟩ :=
    globals_recall {} 1 (Machine.blank (System.bare none)) none []
      respellings
  refine ⟨hrecalls.get {} 1 _ _ ⟨"strasse"⟩ rfl, hrecalls.has {} 1 _ ⟨"strasse"⟩ rfl,
    hrecalls.get {} 1 _ _ ⟨"Flag"⟩ rfl, hrecalls.has {} 1 _ ⟨"_exedir_"⟩ rfl, rfl, ?_⟩
  exact (hframe _ (.string "FLAG", .int 2) ⟨"FLAG"⟩ rfl).2 ⟨"strasse"⟩ (by decide)

end ModuleLoader
