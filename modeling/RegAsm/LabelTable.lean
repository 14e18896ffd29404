/-! Label tables: names for places in a program, in the order in which they were defined. A name is defined
at most once and is never empty; several names may share one index. -/

namespace RegAsm

/-- The labels of a program with the index that each of them names. -/
structure LabelTable where
  /-- The definitions, earliest first. -/
  entries : List (String × Nat)
  nodup : (entries.map (·.1)).Nodup
  named : "" ∉ entries.map (·.1)
deriving DecidableEq, Repr

namespace LabelTable

def empty : LabelTable := ⟨[], .nil, List.not_mem_nil⟩

instance : EmptyCollection LabelTable := ⟨empty⟩

instance : Inhabited LabelTable := ⟨∅⟩

/-- The defined names, earliest first. -/
def names (table : LabelTable) : List String := table.entries.map (·.1)

def size (table : LabelTable) : Nat := table.entries.length

/-- The index that a name stands for. -/
def indexOf? (table : LabelTable) (name : String) : Option Nat :=
  (table.entries.find? (·.1 == name)).map (·.2)

/-- The name that was defined first for an index. -/
def labelAt? (table : LabelTable) (index : Nat) : Option String :=
  (table.entries.find? (·.2 == index)).map (·.1)

/-- A table takes a name that is neither empty nor defined already. -/
def Accepts (table : LabelTable) (name : String) : Prop :=
  name ≠ "" ∧ name ∉ table.names

instance (table : LabelTable) (name : String) : Decidable (table.Accepts name) :=
  inferInstanceAs (Decidable (_ ∧ _))

/-- Defines a name. A name that the table does not accept leaves it as it was. -/
def insert (table : LabelTable) (name : String) (index : Nat) : LabelTable :=
  if h : table.Accepts name then
    { entries := table.entries ++ [(name, index)]
      nodup := by
        rw [List.map_append, List.nodup_append]
        refine ⟨table.nodup, by simp, fun a ha b hb => ?_⟩
        rintro rfl
        simp only [List.map_cons, List.map_nil, List.mem_singleton] at hb
        exact h.2 (hb ▸ ha)
      named := by
        simp only [List.map_append, List.mem_append, not_or]
        exact ⟨table.named, by simpa using h.1.symm⟩ }
  else table

/-- The names of a table in parentheses. -/
def render (table : LabelTable) : String :=
  "(" ++ ", ".intercalate table.names ++ ")"

/-- A name stands for an index exactly when the table defines it so. -/
theorem indexOf?_eq_some_iff (table : LabelTable) (name : String) (index : Nat) :
    table.indexOf? name = some index ↔ (name, index) ∈ table.entries := by
  obtain ⟨entries, nodup, named⟩ := table
  simp only [indexOf?]
  clear named
  induction entries with
  | nil => simp
  | cons e rest ih =>
    obtain ⟨n, i⟩ := e
    rw [List.map_cons, List.nodup_cons] at nodup
    by_cases h : n = name
    · subst h
      have hrest : (n, index) ∉ rest := fun hmem => nodup.1 (List.mem_map_of_mem (f := (·.1)) hmem)
      simp [hrest, eq_comm]
    · rw [List.find?_cons_of_neg (by simpa using h), ih nodup.2, List.mem_cons]
      constructor
      · exact Or.inr
      · rintro (heq | hmem)
        · exact absurd (congrArg (·.1) heq).symm h
        · exact hmem

theorem indexOf?_eq_none_iff (table : LabelTable) (name : String) :
    table.indexOf? name = none ↔ name ∉ table.names := by
  simp only [indexOf?, names, Option.map_eq_none_iff, List.find?_eq_none, List.mem_map, not_exists, not_and,
    beq_iff_eq]

theorem entries_insert {table : LabelTable} {name : String} (h : table.Accepts name) (index : Nat) :
    (table.insert name index).entries = table.entries ++ [(name, index)] := by
  simp [insert, h]

theorem insert_of_not_accepts {table : LabelTable} {name : String} (h : ¬ table.Accepts name)
    (index : Nat) : table.insert name index = table := by
  simp [insert, h]

/-- After a definition the name stands for its index, unless it was refused, and nothing else changes. -/
theorem indexOf?_insert (table : LabelTable) (name other : String) (index : Nat) :
    (table.insert name index).indexOf? other =
      if other = name ∧ table.Accepts name then some index else table.indexOf? other := by
  by_cases h : table.Accepts name
  · rw [indexOf?, entries_insert h, List.find?_append, Option.map_or]
    by_cases ho : other = name
    · subst ho
      have hnone := (indexOf?_eq_none_iff table other).mpr h.2
      rw [indexOf?, Option.map_eq_none_iff] at hnone
      simp [h, hnone]
    · simp [indexOf?, ho, Ne.symm ho]
  · rw [insert_of_not_accepts h, if_neg fun hc => h hc.2]

end LabelTable

end RegAsm
