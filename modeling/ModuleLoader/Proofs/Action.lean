import Mathlib.Tactic.Common
import ModuleLoader.Evaluation

/-!
# Running actions, and replaying events

* `Action.on` : the result of an action in a state, and the state after it (`on_bind`, `on_map`,
  `on_bind_eq_ok`);
* `Action.stop?` : why a result is none;
* `Machine.replay` : the state after events, and what no event touches (`system_replay`,
  `configuration_replay`, `builtins_replay`); `trace_replay` : the trace tells what was replayed.
-/

namespace ModuleLoader

/-! ## Running -/

theorem eq_ok_of_toOption {ε α : Type} {result : Except ε α} {a : α}
    (h : result.toOption = some a) : result = .ok a := by
  cases result with
  | error => cases h
  | ok b => exact congrArg Except.ok (Option.some.inj h)

namespace Action
variable {α β : Type}

/-- The result of an action in a state, and the state after it. -/
def on (a : Action α) (m : Machine) : Except Stop α × Machine := a.run.run m

/-- Why there is no value, if there is none. -/
def stop? : Except Stop α → Option Stop
  | .ok _ => none
  | .error stop => some stop

@[simp] theorem stop?_ok (x : α) : stop? (.ok x) = none := rfl

@[simp] theorem stop?_error (stop : Stop) : stop? (.error stop : Except Stop α) = some stop := rfl

@[simp] theorem on_pure (x : α) (m : Machine) : on (pure x) m = (.ok x, m) := rfl

@[simp] theorem on_get (m : Machine) : on get m = (.ok m, m) := rfl

@[simp] theorem on_modify (f : Machine → Machine) (m : Machine) :
    on (modify f) m = (.ok (), f m) := rfl

@[simp] theorem on_throw (stop : Stop) (m : Machine) :
    on (throw stop : Action α) m = (.error stop, m) := rfl

@[simp] theorem on_fail (fault : Fault) (m : Machine) :
    on (fail fault : Action α) m = (.error (.fault fault), m) := rfl

@[simp] theorem on_record (event : Event) (m : Machine) :
    on (record event) m = (.ok (), m.record event) := rfl

@[simp] theorem on_note (n : Note) (m : Machine) :
    on (note n) m = (.ok (), m.record (.noted n)) := rfl

/-- The second of two actions runs where the first came to, unless that one stopped. -/
theorem on_bind (a : Action α) (f : α → Action β) (m : Machine) :
    on (a >>= f) m = match on a m with
      | (.ok x, after) => on (f x) after
      | (.error stop, after) => (.error stop, after) := by
  simp only [on, ExceptT.run_bind, StateT.run_bind]
  rcases a.run.run m with ⟨_ | _, _⟩ <;> rfl

theorem on_bind_ok {a : Action α} {m after : Machine} {x : α} (h : on a m = (.ok x, after))
    (f : α → Action β) : on (a >>= f) m = on (f x) after := by
  rw [on_bind, h]

theorem on_bind_error {a : Action α} {m after : Machine} {stop : Stop}
    (h : on a m = (.error stop, after)) (f : α → Action β) :
    on (a >>= f) m = (.error stop, after) := by
  rw [on_bind, h]

/-- Two actions come to a result exactly if both of them do. -/
theorem on_bind_eq_ok {a : Action α} {f : α → Action β} {m after : Machine} {y : β} :
    on (a >>= f) m = (.ok y, after) ↔ ∃ x n, on a m = (.ok x, n) ∧ on (f x) n = (.ok y, after) := by
  rcases h : on a m with ⟨stop | x, n⟩
  · rw [on_bind_error h]
    exact iff_of_false (fun heq => by cases heq) (fun ⟨x, n, heq, _⟩ => by cases heq)
  · rw [on_bind_ok h]
    constructor
    · exact fun heq => ⟨x, n, rfl, heq⟩
    · rintro ⟨z, k, heq, hrest⟩
      cases heq
      exact hrest

theorem throw_bind (stop : Stop) (f : α → Action β) :
    ((throw stop : Action α) >>= f) = throw stop := rfl

@[simp] theorem on_get_bind (f : Machine → Action β) (m : Machine) :
    on (get >>= f) m = on (f m) m := rfl

@[simp] theorem on_record_bind (event : Event) (f : Unit → Action β) (m : Machine) :
    on (record event >>= f) m = on (f ()) (m.record event) := rfl

@[simp] theorem on_note_bind (n : Note) (f : Unit → Action β) (m : Machine) :
    on (note n >>= f) m = on (f ()) (m.record (.noted n)) := rfl

theorem on_map (f : α → β) (a : Action α) (m : Machine) :
    on (f <$> a) m = ((on a m).1.map f, (on a m).2) := by
  rw [map_eq_pure_bind, on_bind]
  rcases on a m with ⟨_ | _, _⟩ <;> rfl

theorem discard_eq_map (a : Action α) : discard a = (fun _ => ()) <$> a := rfl

theorem discard_bind (a : Action α) (f : Unit → Action β) :
    (discard a >>= f) = a >>= fun _ => f () := by
  rw [discard_eq_map, bind_map_left]

theorem on_discard_ok {a : Action α} {m after : Machine} :
    on (discard a) m = (.ok (), after) ↔ ∃ x, on a m = (.ok x, after) := by
  rw [discard_eq_map, on_map]
  rcases on a m with ⟨stop | x, n⟩
  · exact iff_of_false (fun heq => by cases heq) (fun ⟨x, heq⟩ => by cases heq)
  · constructor
    · intro heq
      cases heq
      exact ⟨x, rfl⟩
    · rintro ⟨y, heq⟩
      cases heq
      rfl

end Action

/-! ## Events -/

namespace Machine

def replay (m : Machine) (events : List Event) : Machine := events.foldl record m

@[simp] theorem replay_nil (m : Machine) : m.replay [] = m := rfl

@[simp] theorem replay_cons (m : Machine) (event : Event) (events : List Event) :
    m.replay (event :: events) = (m.record event).replay events := rfl

@[simp] theorem replay_append (m : Machine) (events others : List Event) :
    m.replay (events ++ others) = (m.replay events).replay others :=
  List.foldl_append

@[simp] theorem system_record (m : Machine) (event : Event) :
    (m.record event).system = m.system := by
  cases event <;> rfl

@[simp] theorem configuration_record (m : Machine) (event : Event) :
    (m.record event).configuration = m.configuration := by
  cases event <;> rfl

@[simp] theorem trace_record (m : Machine) (event : Event) :
    (m.record event).trace = event :: m.trace := by
  cases event <;> rfl

@[simp] theorem system_replay (m : Machine) (events : List Event) :
    (m.replay events).system = m.system := by
  induction events generalizing m with
  | nil => rfl
  | cons event events ih => rw [replay_cons, ih, system_record]

@[simp] theorem configuration_replay (m : Machine) (events : List Event) :
    (m.replay events).configuration = m.configuration := by
  induction events generalizing m with
  | nil => rfl
  | cons event events ih => rw [replay_cons, ih, configuration_record]

@[simp] theorem builtins_record (m : Machine) (event : Event) :
    (m.record event).builtins = m.builtins := by
  cases event <;> rfl

@[simp] theorem builtins_replay (m : Machine) (events : List Event) :
    (m.replay events).builtins = m.builtins := by
  induction events generalizing m with
  | nil => rfl
  | cons event events ih => rw [replay_cons, ih, builtins_record]

theorem trace_replay (m : Machine) (events : List Event) :
    (m.replay events).trace = events.reverse ++ m.trace := by
  induction events generalizing m with
  | nil => rfl
  | cons event events ih => rw [replay_cons, ih, trace_record]; simp

end Machine

end ModuleLoader
