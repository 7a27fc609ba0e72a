import Std.Data.TreeMap

/-!
Registries: things by name, of which the first under a name stays until it is erased.
-/

namespace Stencil

inductive Insertion where
  | inserted
  | existing
deriving DecidableEq, Repr

/-- Things by name. -/
structure Registry (α : Type) where
  entries : Std.TreeMap String α

namespace Registry

variable {α : Type}

def empty : Registry α := ⟨∅⟩

def get? (registry : Registry α) (name : String) : Option α :=
  registry.entries[name]?

def contains (registry : Registry α) (name : String) : Bool :=
  (registry.get? name).isSome

/-- Registers a thing if its name is free: what then is registered under the name, whether it
is the new thing, and the registry. -/
def insertIfNew (registry : Registry α) (name : String) (item : α) :
    α × Insertion × Registry α :=
  match registry.get? name with
  | some stored => (stored, .existing, registry)
  | none => (item, .inserted, ⟨registry.entries.insert name item⟩)

def erase (registry : Registry α) (name : String) : Registry α :=
  ⟨registry.entries.erase name⟩

def size (registry : Registry α) : Nat :=
  registry.entries.size

def names (registry : Registry α) : List String :=
  registry.entries.keys

@[simp] theorem get?_empty (name : String) : (empty : Registry α).get? name = none := by
  simp [empty, get?]

theorem get?_insertIfNew (registry : Registry α) (added : String) (item : α) (name : String) :
    (registry.insertIfNew added item).2.2.get? name =
      if added = name then some ((registry.get? name).getD item) else registry.get? name := by
  unfold insertIfNew
  split
  · rename_i stored found
    split
    · rename_i same
      subst same
      simp [found]
    · rfl
  · rename_i free
    by_cases same : added = name
    · subst same
      have vacant : registry.entries[added]? = none := free
      simp [get?, vacant]
    · simp [get?, same, Std.TreeMap.getElem?_insert, Std.LawfulEqCmp.compare_eq_iff_eq]

theorem get?_erase (registry : Registry α) (erased name : String) :
    (registry.erase erased).get? name =
      if erased = name then none else registry.get? name := by
  simp [erase, get?, Std.TreeMap.getElem?_erase, Std.LawfulEqCmp.compare_eq_iff_eq]

end Registry

end Stencil
