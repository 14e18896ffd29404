import Mathlib.Data.List.Basic
import RegAsm.Proofs.Guarantees

/-! Label tables in use. A table can be kept in two structures: the names in the order of their definition, and a map
that finds the index of a name. Each addition changes both of them by hand, and whoever lists the definitions looks
every name up in the map and is lost if it is not there. It always is: after any additions, repeated and empty names
among them, and however often the table was cleared, the two structures hold the same names, and what they list is the
table of definitions. That table is told by the additions since it was cleared last, of which the first of each name
counts. -/

namespace RegAsm

/-! ### Labels in two structures -/

/-- Names in the order of their definition, and a map that finds their indices. -/
structure IndexedLabels where
  order : List String := []
  index : Std.HashMap String Nat := ∅

namespace IndexedLabels

/-- Defines a name and says whether it was accepted. -/
def add (labels : IndexedLabels) (name : String) (index : Nat) : Bool × IndexedLabels :=
  if name = "" ∨ name ∈ labels.index then (false, labels)
  else (true, { order := labels.order ++ [name], index := labels.index.insert name index })

/-- The definitions in order, if the map has all the names. -/
def entries? (labels : IndexedLabels) : Option (List (String × Nat)) :=
  labels.order.mapM fun name => labels.index[name]?.map fun index => (name, index)

/-- The first listed name of an index, if the definitions can be listed. -/
def labelAt? (labels : IndexedLabels) (index : Nat) : Option String := do
  let entries ← labels.entries?
  (entries.find? (·.2 == index)).map (·.1)

/-- The two structures hold the definitions of the table. -/
structure Represents (labels : IndexedLabels) (table : LabelTable) : Prop where
  order : labels.order = table.names
  index : ∀ name, labels.index[name]? = table.indexOf? name

variable {labels : IndexedLabels} {table : LabelTable}

theorem represents_empty : Represents {} ∅ where
  order := rfl
  index _ := Std.HashMap.getElem?_empty

theorem Represents.mem_index_iff (h : labels.Represents table) (name : String) :
    name ∈ labels.index ↔ name ∈ table.names := by
  rw [Std.HashMap.mem_iff_isSome_getElem?, h.index, Option.isSome_iff_ne_none, Ne, table.indexOf?_eq_none_iff,
    not_not]

theorem Represents.refuses_iff (h : labels.Represents table) (name : String) :
    name = "" ∨ name ∈ labels.index ↔ ¬ table.Accepts name := by
  rw [LabelTable.Accepts, h.mem_index_iff, not_and_or, not_ne_iff, not_not]

/-- The same names are accepted, and the two structures go on to hold the same definitions. -/
theorem Represents.add (h : labels.Represents table) (name : String) (index : Nat) :
    (labels.add name index).1 = decide (table.Accepts name) ∧
      (labels.add name index).2.Represents (table.insert name index) := by
  by_cases haccepts : table.Accepts name
  · rw [IndexedLabels.add, if_neg fun hrefuses => (h.refuses_iff name).mp hrefuses haccepts, decide_eq_true haccepts]
    refine ⟨rfl, ?_, fun other => ?_⟩
    · rw [LabelTable.names, LabelTable.entries_insert haccepts, List.map_append, h.order]
      rfl
    · rw [Std.HashMap.getElem?_insert, LabelTable.indexOf?_insert, h.index]
      by_cases hother : other = name
      · simp [hother, haccepts]
      · simp [hother, Ne.symm hother]
  · rw [IndexedLabels.add, if_pos ((h.refuses_iff name).mpr haccepts), decide_eq_false haccepts,
      LabelTable.insert_of_not_accepts haccepts]
    exact ⟨rfl, h⟩

theorem mapM_map_eq_some {α β : Type} {list : List α} {name : α → β} {find : β → Option α}
    (h : ∀ a ∈ list, find (name a) = some a) : (list.map name).mapM find = some list := by
  induction list with
  | nil => rfl
  | cons a rest ih =>
      rw [List.map_cons, List.mapM_cons, h a List.mem_cons_self, ih fun b hb => h b (List.mem_cons_of_mem a hb)]
      rfl

/-- No look-up fails when the definitions are listed. -/
theorem Represents.entries?_eq (h : labels.Represents table) : labels.entries? = some table.entries := by
  rw [entries?, h.order, LabelTable.names]
  apply mapM_map_eq_some
  intro e he
  rw [h.index, (table.indexOf?_eq_some_iff e.1 e.2).mpr he, Option.map_some]

theorem Represents.labelAt?_eq (h : labels.Represents table) (index : Nat) :
    labels.labelAt? index = table.labelAt? index := by
  rw [labelAt?, h.entries?_eq, LabelTable.labelAt?]
  rfl

end IndexedLabels

/-! ### Additions since the table was cleared -/

namespace LabelTable

/-- What can be done with a label table. -/
inductive Call where
  | add (name : String) (index : Nat)
  | reset

/-- An addition and its answer. -/
structure Addition where
  name : String
  index : Nat
  accepted : Bool

/-- The names that additions have defined, with their indices. -/
def definitions (additions : List Addition) : List (String × Nat) :=
  (additions.filter (·.accepted)).map fun addition => (addition.name, addition.index)

/-- The index in the first addition of a name. -/
def firstIndex? (additions : List Addition) (name : String) : Option Nat :=
  (additions.find? (·.name == name)).map (·.index)

theorem definitions_concat (additions : List Addition) (addition : Addition) :
    definitions (additions ++ [addition]) =
      definitions additions ++ if addition.accepted then [(addition.name, addition.index)] else [] := by
  rw [definitions, List.filter_append, List.map_append, definitions]
  cases haccepted : addition.accepted <;> simp [haccepted]

theorem firstIndex?_concat (additions : List Addition) (addition : Addition) (name : String) :
    firstIndex? (additions ++ [addition]) name =
      (firstIndex? additions name).or (if addition.name = name then some addition.index else none) := by
  rw [firstIndex?, List.find?_append, Option.map_or, firstIndex?]
  by_cases hname : addition.name = name <;> simp [hname]

/-- A label table in use, in both of its forms, and the additions since it was cleared last. -/
structure Use where
  table : LabelTable := ∅
  labels : IndexedLabels := {}
  additions : List Addition := []

namespace Use

def perform (use : Use) : Call → Use
  | .add name index =>
      { table := use.table.insert name index
        labels := (use.labels.add name index).2
        additions := use.additions ++ [⟨name, index, (use.labels.add name index).1⟩] }
  | .reset => {}

/-- A new table after calls one after another. -/
def after (calls : List Call) : Use := calls.foldl perform {}

/-- The table is in step with the two structures and with the additions. -/
structure InStep (use : Use) : Prop where
  represents : use.labels.Represents use.table
  entries : use.table.entries = definitions use.additions
  first : ∀ name, name ≠ "" → use.table.indexOf? name = firstIndex? use.additions name

variable {use : Use}

theorem inStep_empty : InStep {} where
  represents := IndexedLabels.represents_empty
  entries := rfl
  first _ _ := rfl

theorem InStep.entries_insert (h : use.InStep) (name : String) (index : Nat) :
    (use.table.insert name index).entries =
      definitions (use.additions ++ [⟨name, index, (use.labels.add name index).1⟩]) := by
  rw [definitions_concat, ← h.entries, (h.represents.add name index).1]
  by_cases haccepts : use.table.Accepts name
  · rw [LabelTable.entries_insert haccepts, decide_eq_true haccepts, if_pos rfl]
  · rw [insert_of_not_accepts haccepts, decide_eq_false haccepts, if_neg Bool.false_ne_true, List.append_nil]

theorem InStep.first_insert (h : use.InStep) (name : String) (index : Nat) (accepted : Bool) {other : String}
    (hother : other ≠ "") : (use.table.insert name index).indexOf? other =
      firstIndex? (use.additions ++ [⟨name, index, accepted⟩]) other := by
  rw [indexOf?_insert, firstIndex?_concat, ← h.first other hother]
  by_cases hname : name = other
  · subst hname
    by_cases haccepts : use.table.Accepts name
    · rw [(use.table.indexOf?_eq_none_iff name).mpr haccepts.2]
      simp [haccepts]
    · -- A name that is not empty is refused because it is defined, so an earlier addition comes first.
      have hdefined : use.table.indexOf? name ≠ none := by
        rw [Ne, use.table.indexOf?_eq_none_iff]
        intro habsent
        exact haccepts ⟨hother, habsent⟩
      obtain ⟨earlier, hearlier⟩ := Option.ne_none_iff_exists'.mp hdefined
      simp [haccepts, hearlier]
  · simp [hname, Ne.symm hname]

theorem InStep.perform (h : use.InStep) (call : Call) : (use.perform call).InStep := by
  cases call with
  | add name index =>
      exact {
        represents := (h.represents.add name index).2
        entries := h.entries_insert name index
        first := fun _ hother => h.first_insert name index _ hother }
  | reset => exact inStep_empty

theorem inStep_after (calls : List Call) : (after calls).InStep := by
  apply List.foldlRecOn calls _ inStep_empty
  intro use h call _
  exact h.perform call

end Use

/-- An addition changes the table exactly when it is accepted. -/
theorem insert_ne_iff (table : LabelTable) (name : String) (index : Nat) :
    table.insert name index ≠ table ↔ table.Accepts name := by
  by_cases haccepts : table.Accepts name
  · have hentries : (table.insert name index).entries ≠ table.entries := by
      rw [entries_insert haccepts]
      simp
    exact iff_of_true (fun hsame => hentries (congrArg entries hsame)) haccepts
  · exact iff_of_false (fun hne => hne (insert_of_not_accepts haccepts index)) haccepts

end LabelTable

theorem IndexedLabels.add_ne_iff (labels : IndexedLabels) (name : String) (index : Nat) :
    (labels.add name index).2 ≠ labels ↔ (labels.add name index).1 = true := by
  rw [add]
  split
  · simp
  · have horder : labels.order ++ [name] ≠ labels.order := by simp
    exact iff_of_true (fun hsame => horder (congrArg order hsame)) rfl

namespace LabelTable.Use

/-- Whatever was done with a new table, its two structures hold the same names, each of them once and none of them
empty, so that the definitions can be listed, and they are those of the table. They are the additions that were accepted
since the table was cleared last, in this order, and a name stands for the index in the first addition of it. An
addition is accepted exactly when it changes the table. The name of an index is the first that is listed with it. -/
theorem table_follows_calls (calls : List Call) {use : Use} (h : after calls = use) :
    (use.labels.order.Nodup ∧ "" ∉ use.labels.order ∧ ∀ name, name ∈ use.labels.order ↔ name ∈ use.labels.index) ∧
    use.labels.entries? = some use.table.entries ∧
    (∀ name, use.labels.index[name]? = use.table.indexOf? name) ∧
    (∀ name index, use.table.indexOf? name = some index ↔ (name, index) ∈ use.table.entries) ∧
    (∀ name, name ≠ "" → use.table.indexOf? name = firstIndex? use.additions name) ∧
    use.table.indexOf? "" = none ∧
    use.table.entries = definitions use.additions ∧
    (use.labels.order.length = (definitions use.additions).length ∧
      use.table.size = (definitions use.additions).length) ∧
    (∀ name index, ((use.labels.add name index).1 = true ↔ (use.labels.add name index).2 ≠ use.labels) ∧
      ((use.labels.add name index).1 = true ↔ use.table.insert name index ≠ use.table)) ∧
    ∀ index, use.labels.labelAt? index = use.table.labelAt? index ∧
      (∀ name, use.table.labelAt? index = some name ↔ ∃ earlier later,
        use.table.entries = earlier ++ (name, index) :: later ∧ ∀ e ∈ earlier, e.2 ≠ index) ∧
      (use.table.labelAt? index = none ↔ ∀ e ∈ use.table.entries, e.2 ≠ index) := by
  obtain rfl := h
  have hstep := inStep_after calls
  have hrepresents := hstep.represents
  have hsize : (after calls).table.size = (definitions (after calls).additions).length := by
    rw [size, hstep.entries]
  refine ⟨⟨?_, ?_, fun name => ?_⟩, hrepresents.entries?_eq, hrepresents.index, indexOf?_eq_some_iff _, hstep.first,
    ?_, hstep.entries, ⟨?_, hsize⟩, fun name index => ⟨?_, ?_⟩, fun index => ⟨hrepresents.labelAt?_eq index, ?_, ?_⟩⟩
  · rw [hrepresents.order]
    exact (after calls).table.nodup
  · rw [hrepresents.order]
    exact (after calls).table.named
  · rw [hrepresents.order, hrepresents.mem_index_iff]
  · rw [indexOf?_eq_none_iff]
    exact (after calls).table.named
  · rw [hrepresents.order, names, List.length_map, ← hsize, size]
  · exact ((after calls).labels.add_ne_iff name index).symm
  · rw [(hrepresents.add name index).1, insert_ne_iff, decide_eq_true_iff]
  · exact labelAt?_eq_some_iff _ index
  · exact labelAt?_eq_none_iff _ index

/-- Names that are added again, in front of a reset and behind it, an empty name, and two names for one index. -/
def severalCalls : List Call :=
  [.add "f" 0, .add "g" 1, .reset, .add "g" 7, .add "" 3, .add "f" 4, .add "g" 9, .add "h" 7]

/-- Of the names in front of the reset nothing is left, and behind it the first index counts. -/
theorem table_follows_calls_behind_reset : ∃ use, after severalCalls = use ∧
    use.labels.entries? = some [("g", 7), ("f", 4), ("h", 7)] ∧ use.labels.index["g"]? = some 7 ∧
    use.labels.index[""]? = none ∧ use.labels.order.length = 3 ∧ (use.labels.add "h" 0).1 = false ∧
    use.labels.labelAt? 7 = some "g" := by
  obtain ⟨-, hlisted, hindex, hdefined, -, hempty, -, ⟨hlength, hsize⟩, hadd, hlabel⟩ :=
    table_follows_calls severalCalls rfl
  have hentries : (after severalCalls).table.entries = [("g", 7), ("f", 4), ("h", 7)] := by decide +kernel
  refine ⟨_, rfl, ?_, ?_, ?_, ?_, ?_, ?_⟩
  · rw [hlisted, hentries]
  · rw [hindex, hdefined, hentries]
    decide
  · rw [hindex, hempty]
  · rw [hlength, ← hsize, size, hentries]
    rfl
  · rw [← Bool.not_eq_true, (hadd "h" 0).2]
    decide +kernel
  · rw [(hlabel 7).1, labelAt?, hentries]
    rfl

end LabelTable.Use

end RegAsm
