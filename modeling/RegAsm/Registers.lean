import RegAsm.Text.Decimal

/-! Register files. Every unsigned word addresses a register; a register that was never written reads as
zero and is not listed. The written registers are kept in ascending order, so two files with the same
written registers and values are equal. -/

namespace RegAsm

/-- The written registers with their values. -/
structure Registers where
  /-- The registers in ascending order. -/
  entries : List (UInt32 × Int32)
  ascending : entries.Pairwise (·.1 < ·.1)
deriving DecidableEq, Repr

namespace Registers

def empty : Registers := ⟨[], .nil⟩

instance : EmptyCollection Registers := ⟨empty⟩

instance : Inhabited Registers := ⟨∅⟩

/-- The value last written to a register, if it was written at all. -/
def get? (registers : Registers) (index : UInt32) : Option Int32 :=
  (registers.entries.find? (·.1 == index)).map (·.2)

def get (registers : Registers) (index : UInt32) : Int32 :=
  (registers.get? index).getD 0

/-- Writes into an ascending list of entries. -/
def setEntry (index : UInt32) (value : Int32) : List (UInt32 × Int32) → List (UInt32 × Int32)
  | [] => [(index, value)]
  | e :: rest =>
    if index < e.1 then (index, value) :: e :: rest
    else if index = e.1 then (index, value) :: rest
    else e :: setEntry index value rest

/-- A write adds no other register than the written one. -/
theorem mem_setEntry {index : UInt32} {value : Int32} {entries : List (UInt32 × Int32)}
    {e : UInt32 × Int32} (h : e ∈ setEntry index value entries) : e = (index, value) ∨ e ∈ entries := by
  induction entries with
  | nil => simpa [setEntry] using h
  | cons d rest ih =>
    rw [setEntry] at h
    split at h
    · simpa using h
    · split at h
      · rcases List.mem_cons.mp h with h | h
        · exact .inl h
        · exact .inr (List.mem_cons_of_mem _ h)
      · rcases List.mem_cons.mp h with h | h
        · exact .inr (h ▸ List.mem_cons_self)
        · exact (ih h).imp_right (List.mem_cons_of_mem _)

/-- A write keeps the order of the registers. -/
theorem pairwise_setEntry (index : UInt32) (value : Int32) {entries : List (UInt32 × Int32)}
    (h : entries.Pairwise (·.1 < ·.1)) : (setEntry index value entries).Pairwise (·.1 < ·.1) := by
  induction entries with
  | nil => simp [setEntry]
  | cons e rest ih =>
    obtain ⟨hhead, hrest⟩ := List.pairwise_cons.mp h
    rw [setEntry]
    split
    · next hlt =>
      refine List.pairwise_cons.mpr ⟨fun d hd => ?_, h⟩
      rcases List.mem_cons.mp hd with rfl | hd
      · exact hlt
      · exact UInt32.lt_trans hlt (hhead d hd)
    · split
      · next heq => exact List.pairwise_cons.mpr ⟨fun d hd => heq ▸ hhead d hd, hrest⟩
      · next hlt hne =>
        refine List.pairwise_cons.mpr ⟨fun d hd => ?_, ih hrest⟩
        rcases mem_setEntry hd with rfl | hd
        · exact UInt32.lt_of_le_of_ne (UInt32.not_lt.mp hlt) (Ne.symm hne)
        · exact hhead d hd

def set (registers : Registers) (index : UInt32) (value : Int32) : Registers :=
  ⟨setEntry index value registers.entries, pairwise_setEntry index value registers.ascending⟩

/-- Writes the pairs of a list from left to right, so that the last write to a register counts. -/
def ofList (writes : List (UInt32 × Int32)) : Registers :=
  writes.foldl (fun registers write => registers.set write.1 write.2) ∅

theorem find?_setEntry (index : UInt32) (value : Int32) (other : UInt32)
    {entries : List (UInt32 × Int32)} (h : entries.Pairwise (·.1 < ·.1)) :
    (setEntry index value entries).find? (·.1 == other) =
      if other = index then some (index, value) else entries.find? (·.1 == other) := by
  induction entries with
  | nil =>
    by_cases ho : other = index
    · simp [setEntry, ho]
    · simp [setEntry, ho, Ne.symm ho]
  | cons e rest ih =>
    obtain ⟨hhead, hrest⟩ := List.pairwise_cons.mp h
    rw [setEntry]
    split
    · by_cases ho : other = index
      · simp [ho]
      · simp [ho, Ne.symm ho]
    · split
      · next heq =>
        by_cases ho : other = index
        · simp [ho]
        · have he : e.1 ≠ other := fun hc => ho (hc ▸ heq.symm)
          simp [ho, Ne.symm ho, he]
      · next hne =>
        by_cases he : e.1 = other
        · have ho : other ≠ index := fun hc => hne (hc ▸ he).symm
          simp [he, ho]
        · rw [List.find?_cons_of_neg (by simpa using he), ih hrest,
            List.find?_cons_of_neg (by simpa using he)]

/-- A write is seen by the written register and by no other. -/
theorem get?_set (registers : Registers) (index other : UInt32) (value : Int32) :
    (registers.set index value).get? other = if other = index then some value else registers.get? other := by
  simp only [get?, set, find?_setEntry index value other registers.ascending]
  split <;> rfl

theorem get_set (registers : Registers) (index other : UInt32) (value : Int32) :
    (registers.set index value).get other = if other = index then value else registers.get other := by
  simp only [get, get?_set]
  split <;> rfl

/-- A register has a value exactly when it is listed with it. -/
theorem get?_eq_some_iff (registers : Registers) (index : UInt32) (value : Int32) :
    registers.get? index = some value ↔ (index, value) ∈ registers.entries := by
  obtain ⟨entries, ascending⟩ := registers
  simp only [get?]
  induction entries with
  | nil => simp
  | cons e rest ih =>
    obtain ⟨i, v⟩ := e
    obtain ⟨hhead, hrest⟩ := List.pairwise_cons.mp ascending
    by_cases h : i = index
    · subst h
      have hbehind : (i, value) ∉ rest := fun hmem => UInt32.lt_irrefl i (hhead _ hmem)
      simp [hbehind, eq_comm]
    · rw [List.find?_cons_of_neg (by simpa using h), ih hrest, List.mem_cons]
      constructor
      · exact Or.inr
      · rintro (heq | hmem)
        · exact absurd (congrArg (·.1) heq).symm h
        · exact hmem

/-- A register file is determined by what its registers hold, unwritten registers included. -/
theorem ext_get? {registers other : Registers} (h : ∀ index, registers.get? index = other.get? index) :
    registers = other := by
  have hmem : ∀ e, e ∈ registers.entries ↔ e ∈ other.entries := by
    intro e
    rw [← get?_eq_some_iff, ← get?_eq_some_iff, h]
  have hnodup : ∀ registers : Registers, registers.entries.Nodup := by
    intro registers
    refine registers.ascending.imp ?_
    rintro e _ hlt rfl
    exact UInt32.lt_irrefl e.1 hlt
  have hperm := (List.perm_ext_iff_of_nodup (hnodup registers) (hnodup other)).mpr hmem
  have hentries : registers.entries = other.entries :=
    hperm.eq_of_pairwise (fun _ _ _ _ hlt hgt => absurd hlt (UInt32.lt_asymm hgt)) registers.ascending other.ascending
  cases registers
  cases other
  cases hentries
  rfl

/-- The written registers with their values, in ascending order. -/
def render (registers : Registers) : String :=
  "Registers:" ++ String.join (registers.entries.map fun e =>
    " r" ++ Text.Decimal.writeUInt32 e.1 ++ "=" ++ Text.Decimal.writeInt32 e.2)

end Registers

end RegAsm
