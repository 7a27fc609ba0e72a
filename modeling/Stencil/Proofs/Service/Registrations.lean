import Stencil.Proofs.Render.KnownHelpers
import Stencil.Service.Settings

/-!
Registered helpers. Of several helpers under one name the last counts, for the renderer as well
as for the block table that the parser goes by.
-/

namespace Stencil

/-- Where new entries replace old ones, the last entry under a name counts. -/
theorem get_foldl_eq_lookup
    {Table α : Type} (get : Table → String → Option α) {add : Table → String × α → Table}
    (get_add : ∀ table entry name,
      get (add table entry) name = if entry.1 = name then some entry.2 else get table name)
    (entries : List (String × α)) (table : Table) (name : String) :
    get (entries.foldl add table) name = (entries.reverse.lookup name).or (get table name) := by
  induction entries generalizing table with
  | nil => rfl
  | cons entry rest inductionHypothesis =>
      rw [List.foldl_cons, inductionHypothesis, get_add, List.reverse_cons, List.lookup_append,
        Option.or_assoc]
      obtain ⟨key, item⟩ := entry
      congr 1
      by_cases same : key = name
      · simp [same]
      · simp [List.lookup_cons, same, beq_eq_false_iff_ne.mpr (Ne.symm same)]

private theorem mem_of_lookup
    {α : Type} {entries : List (String × α)} {name : String} {item : α}
    (found : entries.lookup name = some item) : (name, item) ∈ entries := by
  obtain ⟨before, after, rfl, _⟩ := List.lookup_eq_some_iff.mp found
  exact List.mem_append_right before List.mem_cons_self

private theorem BlockTable.rule?_ofList (rules : List (String × ArgumentRule)) (name : String) :
    (ofList rules).rule? name = rules.reverse.lookup name := by
  rw [ofList, get_foldl_eq_lookup rule?, rule?_empty, Option.or_none]
  exact fun table entry name => rule?_insert table entry.1 entry.2 name

namespace HelperTable

theorem rule?_blockTable (table : HelperTable) (name : String) :
    table.blockTable.rule? name = (table.get? name).map Helper.argument := by
  have listed (rule : ArgumentRule) :
      (name, rule) ∈ table.helpers.toList.map (fun entry => (entry.1, entry.2.argument)) ↔
        ∃ helper, table.get? name = some helper ∧ helper.argument = rule := by
    simp [get?, Std.TreeMap.mem_toList_iff_getElem?_eq_some]
  rw [blockTable, BlockTable.rule?_ofList]
  generalize table.helpers.toList.map (fun entry => (entry.1, entry.2.argument)) = rules at listed ⊢
  cases rule : rules.reverse.lookup name with
  | none =>
      cases found : table.get? name with
      | none => rfl
      | some helper =>
          have member := (listed helper.argument).mpr ⟨helper, found, rfl⟩
          have differs := List.lookup_eq_none_iff.mp rule _ (List.mem_reverse.mpr member)
          exact absurd rfl (bne_iff_ne.mp differs)
  | some argument =>
      have member := List.mem_reverse.mp (mem_of_lookup rule)
      obtain ⟨helper, found, rfl⟩ := (listed argument).mp member
      rw [found, Option.map_some]

end HelperTable

def standardHelpers : List (String × Helper) :=
  [("if", .ifTrue), ("unless", .unlessTrue), ("each", .forEach), ("with", .within)]

/-- The helper that was last registered under a name, the standard ones first of all. -/
def registered? (registrations : List (String × Helper)) (name : String) : Option Helper :=
  (standardHelpers ++ registrations).reverse.lookup name

def registeredRule? (registrations : List (String × Helper)) (name : String) :
    Option ArgumentRule :=
  (registered? registrations name).map Helper.argument

def Settings.withHelpers (settings : Settings) (registrations : List (String × Helper)) :
    Settings :=
  registrations.foldl (fun settings entry => settings.withHelper entry.1 entry.2) settings

theorem HelperTable.get?_builtin (name : String) :
    builtin.get? name = standardHelpers.reverse.lookup name := by
  have standard : builtin =
      standardHelpers.foldl (fun table entry => table.register entry.1 entry.2) empty := rfl
  rw [standard, get_foldl_eq_lookup get?, get?_empty, Option.or_none]
  exact fun table entry name => get?_register table entry.1 entry.2 name

private theorem registered?_eq (registrations : List (String × Helper)) (name : String) :
    registered? registrations name =
      (registrations.reverse.lookup name).or (HelperTable.builtin.get? name) := by
  rw [registered?, List.reverse_append, List.lookup_append, HelperTable.get?_builtin]

theorem faithful_of_registered?
    {registrations : List (String × Helper)}
    (faithful : ∀ entry ∈ registrations, entry.2.Faithful) {name : String} {helper : Helper}
    (found : registered? registrations name = some helper) : helper.Faithful := by
  rw [registered?_eq] at found
  rcases Option.or_eq_some_iff.mp found with added | ⟨_, builtin⟩
  · exact faithful _ (List.mem_reverse.mp (mem_of_lookup added))
  · exact faithful_of_builtin builtin

namespace Settings

variable (settings : Settings) (registrations : List (String × Helper))

theorem exists_helpers_withHelpers :
    ∃ helpers, settings.withHelpers registrations = { settings with helpers } := by
  induction registrations generalizing settings with
  | nil => exact ⟨settings.helpers, rfl⟩
  | cons entry rest inductionHypothesis =>
      obtain ⟨helpers, same⟩ := inductionHypothesis (settings.withHelper entry.1 entry.2)
      exact ⟨helpers, same⟩

theorem get?_withHelpers (standard : settings.helpers = .builtin) (name : String) :
    (settings.withHelpers registrations).helpers.get? name = registered? registrations name := by
  rw [withHelpers,
    get_foldl_eq_lookup fun settings : Settings => settings.helpers.get?, standard,
    registered?_eq]
  exact fun settings entry name => HelperTable.get?_register settings.helpers entry.1 entry.2 name

end Settings

end Stencil
