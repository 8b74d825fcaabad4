import ModuleLoader.Text.CaseFold

/-!
# Symbols and what is bound to them

Module names and the names of globals are symbols. A symbol keeps the spelling it was created
with, and letter case does not tell two symbols apart.
Values are stored under symbols. Each symbol is bound once; binding an equal symbol again puts
the new value in the old place under the old spelling.

* `Symbol`, `Symbol.key` : a spelling, and its case folding, which decides equality;
* `Symbol.same` : the two symbols are equal;
* `Symbol.inspect` : the symbol as a literal of the script language shows it;
* `Bindings` : the bound symbols in the order of their first binding, with their values;
* `Bindings.get?`, `Bindings.set`, `Bindings.names` : look-up, binding and the spellings kept;
* `get?_set`, `names_set` : a binding shows under the equal symbols alone, and only the first one of
  a symbol adds a name.
-/

namespace ModuleLoader

/-- A name in the spelling it was created with. -/
structure Symbol where
  name : String
  deriving DecidableEq, Repr, Inhabited

namespace Symbol

/-- What decides whether two symbols are equal. -/
def key (s : Symbol) : List Char := Text.CaseFold.text s.name.toList

/-- The symbols are equal, whatever the case of their letters. -/
def same (s t : Symbol) : Bool := s.key == t.key

def inspect (s : Symbol) : String := "'" ++ s.name

theorem same_iff (s t : Symbol) : s.same t = true ↔ s.key = t.key := by simp [same]

@[simp] theorem same_refl (s : Symbol) : s.same s = true := by simp [same]

theorem same_comm (s t : Symbol) : s.same t = t.same s := by
  rw [Bool.eq_iff_iff, same_iff, same_iff]
  exact eq_comm

end Symbol

/-- Values under symbols, in the order in which the symbols were first bound. -/
structure Bindings (α : Type) where
  entries : List (Symbol × α)
  deriving Repr

namespace Bindings

variable {α : Type}

def empty : Bindings α := ⟨[]⟩

def get? (b : Bindings α) (name : Symbol) : Option α :=
  (b.entries.find? (fun entry => entry.1.same name)).map Prod.snd

def setIn (name : Symbol) (value : α) : List (Symbol × α) → List (Symbol × α)
  | [] => [(name, value)]
  | (bound, old) :: rest =>
    if bound.same name then (bound, value) :: rest else (bound, old) :: setIn name value rest

def set (b : Bindings α) (name : Symbol) (value : α) : Bindings α := ⟨setIn name value b.entries⟩

/-- The symbols in the order of their first binding, in the spelling of that binding. -/
def names (b : Bindings α) : List Symbol := b.entries.map Prod.fst

@[simp] theorem get?_empty (name : Symbol) : (empty : Bindings α).get? name = none := rfl

/-- The value that entries with a binding put in give for a symbol. -/
theorem find?_setIn (name other : Symbol) (value : α) (entries : List (Symbol × α)) :
    ((setIn name value entries).find? (fun entry => entry.1.same other)).map Prod.snd =
      if name.same other then some value
      else (entries.find? (fun entry => entry.1.same other)).map Prod.snd := by
  induction entries with
  | nil => by_cases h : name.same other <;> simp [setIn, h]
  | cons entry rest ih =>
    obtain ⟨bound, old⟩ := entry
    by_cases hb : bound.same name
    · have hk : bound.same other = name.same other := by
        rw [Symbol.same_iff] at hb
        simp [Symbol.same, hb]
      by_cases ho : name.same other <;> simp [setIn, hb, hk, ho]
    · by_cases hk : bound.same other
      · have ho : ¬ name.same other = true := by
          rw [Symbol.same_iff] at hk ⊢
          rw [Symbol.same_iff, hk] at hb
          exact fun h => hb h.symm
        simp [setIn, hb, hk, ho]
      · simp [setIn, hb, hk, ih]

/-- A binding shows under the symbols equal to its own and changes nothing under others. -/
theorem get?_set (b : Bindings α) (name other : Symbol) (value : α) :
    (b.set name value).get? other = if name.same other then some value else b.get? other :=
  find?_setIn name other value b.entries

/-- The first binding of a symbol adds its name at the end, a later one adds none. -/
theorem names_set (b : Bindings α) (name : Symbol) (value : α) :
    (b.set name value).names =
      if b.names.any (fun bound => bound.same name) then b.names else b.names ++ [name] := by
  obtain ⟨entries⟩ := b
  simp only [names, set]
  induction entries with
  | nil => rfl
  | cons entry rest ih =>
    obtain ⟨bound, old⟩ := entry
    by_cases hb : bound.same name
    · simp [setIn, hb]
    · rw [Bool.not_eq_true] at hb
      simp only [setIn, hb, Bool.false_eq_true, if_false, List.map_cons, ih, List.any_cons,
        Bool.false_or, List.cons_append]
      exact (apply_ite (bound :: ·) _ _ _)

end Bindings

end ModuleLoader
