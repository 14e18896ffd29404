import Mathlib.Data.List.Basic
import Mathlib.Data.List.Induction
import RegAsm.Proofs.Numerals
import RegAsm.Registers

/-! Register files in use. Whatever was written to a new file and however often it was cleared, a register holds the
last value that was written to it since then, and the listed registers are those that were written. Nothing else is
left of the history: files with the same last writes are equal. Their printed texts tell as much, since the entries are
words and each of them can be split at its equals sign. -/

namespace RegAsm.Registers

/-! ### Last writes -/

/-- What can be done to a register file. -/
inductive Call where
  | set (index : UInt32) (value : Int32)
  | reset

/-- The call does not touch what the register holds. -/
def Call.Spares (index : UInt32) : Call → Prop
  | .set other _ => other ≠ index
  | .reset => False

/-- The value was written to the register, and no call behind this one touches it. -/
def LastWrite (calls : List Call) (index : UInt32) (value : Int32) : Prop :=
  ∃ earlier later, calls = earlier ++ .set index value :: later ∧ ∀ call ∈ later, call.Spares index

def perform (registers : Registers) : Call → Registers
  | .set index value => registers.set index value
  | .reset => ∅

/-- A new register file after calls one after another. -/
def after (calls : List Call) : Registers := calls.foldl perform ∅

theorem get?_empty (index : UInt32) : (∅ : Registers).get? index = none := rfl

theorem not_lastWrite_nil (index : UInt32) (value : Int32) : ¬ LastWrite [] index value := by
  rintro ⟨earlier, later, hcalls, -⟩
  exact absurd hcalls (by simp)

theorem lastWrite_concat_iff {calls : List Call} {call : Call} {index : UInt32} {value : Int32} :
    LastWrite (calls ++ [call]) index value ↔
      call = .set index value ∨ call.Spares index ∧ LastWrite calls index value := by
  constructor
  · rintro ⟨earlier, later, hcalls, hlater⟩
    rcases List.eq_nil_or_concat' later with rfl | ⟨between, last, rfl⟩
    · obtain ⟨-, hlast⟩ := List.append_inj' hcalls rfl
      exact Or.inl (List.singleton_inj.mp hlast)
    · rw [← List.cons_append, ← List.append_assoc] at hcalls
      obtain ⟨hearlier, hlast⟩ := List.append_inj' hcalls rfl
      obtain rfl := List.singleton_inj.mp hlast
      refine Or.inr ⟨hlater call (by simp), earlier, between, hearlier, ?_⟩
      intro other hother
      exact hlater other (List.mem_append_left _ hother)
  · rintro (rfl | ⟨hspares, earlier, later, rfl, hlater⟩)
    · exact ⟨calls, [], rfl, by simp⟩
    · refine ⟨earlier, later ++ [call], by simp, ?_⟩
      intro other hother
      rcases List.mem_append.mp hother with hother | hother
      · exact hlater other hother
      · rw [List.mem_singleton.mp hother]
        exact hspares

/-- What one call does to a register. -/
theorem get?_perform_eq_some_iff (registers : Registers) (call : Call) (index : UInt32) (value : Int32) :
    (registers.perform call).get? index = some value ↔
      call = .set index value ∨ call.Spares index ∧ registers.get? index = some value := by
  cases call with
  | set other written =>
      rw [perform, get?_set]
      by_cases hindex : index = other
      · simp [hindex, Call.Spares, eq_comm]
      · simp [hindex, Ne.symm hindex, Call.Spares]
  | reset => simp [perform, get?_empty, Call.Spares]

theorem after_concat (calls : List Call) (call : Call) : after (calls ++ [call]) = (after calls).perform call := by
  rw [after, List.foldl_append, after]
  rfl

/-- What any number of calls does to a register. -/
theorem get?_after_eq_some_iff (calls : List Call) (index : UInt32) (value : Int32) :
    (after calls).get? index = some value ↔ LastWrite calls index value := by
  induction calls using List.reverseRecOn with
  | nil =>
      rw [after, List.foldl_nil, get?_empty]
      exact iff_of_false (by simp) (not_lastWrite_nil index value)
  | append_singleton calls call ih => rw [after_concat, get?_perform_eq_some_iff, ih, lastWrite_concat_iff]

/-- A register that was written reads as what it holds. -/
theorem get_eq_of_get? {registers : Registers} {index : UInt32} {value : Int32}
    (h : registers.get? index = some value) : registers.get index = value := by
  rw [get, h]
  rfl

theorem eq_iff_entries {registers other : Registers} :
    registers = other ↔ ∀ index value, (index, value) ∈ registers.entries ↔ (index, value) ∈ other.entries := by
  constructor
  · rintro rfl index value
    exact Iff.rfl
  · intro h
    apply ext_get?
    intro index
    apply Option.ext
    intro value
    rw [get?_eq_some_iff, get?_eq_some_iff, h]

/-! ### Printed registers -/

open Text (BlankFree)
open Text.Decimal (writeUInt32 writeInt32)

/-- The printed entry of a register. -/
def entryText (e : UInt32 × Int32) : String := "r" ++ writeUInt32 e.1 ++ "=" ++ writeInt32 e.2

theorem join_map_space (texts : List String) (first : String) :
    first ++ String.join (texts.map (" " ++ ·)) = " ".intercalate (first :: texts) := by
  induction texts generalizing first with
  | nil => simp
  | cons text texts ih =>
      rw [String.intercalate_cons_cons, ← ih text, List.map_cons, String.join_cons]
      simp only [String.append_assoc]

theorem render_eq_intercalate (registers : Registers) :
    registers.render = " ".intercalate ("Registers:" :: registers.entries.map entryText) := by
  have hentry : ∀ e : UInt32 × Int32,
      " r" ++ writeUInt32 e.1 ++ "=" ++ writeInt32 e.2 = " " ++ entryText e := by
    intro e
    rw [entryText, ← String.append_assoc, ← String.append_assoc, ← String.append_assoc]
    rfl
  rw [← join_map_space, render, List.map_map]
  simp only [hentry, Function.comp_def]

theorem blankFree_entryText (e : UInt32 × Int32) : BlankFree (entryText e) := by
  have hindex : BlankFree ("r" ++ writeUInt32 e.1) :=
    BlankFree.append (by decide) (Text.Decimal.blankFree_writeUInt32 e.1)
  exact (hindex.append (by decide)).append (Text.Decimal.blankFree_writeInt32 e.2)

/-- The digits in front of the equals sign are the index, and what stands behind it is the value. -/
theorem entryText_injective : Function.Injective entryText := by
  rintro ⟨index, value⟩ ⟨index', value'⟩ h
  have hsplit : ∀ (n : UInt32) (rest : List Char),
      ((writeUInt32 n).toList ++ '=' :: rest).takeWhile Char.isDigit = (writeUInt32 n).toList := by
    intro n rest
    rw [List.takeWhile_append_of_pos fun c hc => Text.Decimal.isDigit_of_mem_writeUInt32 hc]
    simp
  have hletters : ∀ e : UInt32 × Int32,
      (entryText e).toList = 'r' :: ((writeUInt32 e.1).toList ++ '=' :: (writeInt32 e.2).toList) := by
    intro e
    simp [entryText]
  have htexts := congrArg String.toList h
  rw [hletters, hletters] at htexts
  obtain ⟨-, htexts⟩ := List.cons.inj htexts
  have hindex : writeUInt32 index = writeUInt32 index' := by
    rw [← String.toList_inj, ← hsplit index (writeInt32 value).toList, htexts, hsplit]
  have hvalue : writeInt32 value = writeInt32 value' := by
    rw [hindex] at htexts
    obtain ⟨-, hvalues⟩ := List.cons.inj (List.append_cancel_left htexts)
    exact String.toList_inj.mp hvalues
  rw [Text.Decimal.writeUInt32_injective hindex, Text.Decimal.writeInt32_injective hvalue]

theorem words_render (registers : Registers) :
    Text.words registers.render = "Registers:" :: registers.entries.map entryText := by
  have hfree : ∀ piece ∈ "Registers:" :: registers.entries.map entryText, BlankFree piece := by
    intro piece hpiece
    rcases List.mem_cons.mp hpiece with rfl | hpiece
    · decide
    · obtain ⟨e, -, rfl⟩ := List.mem_map.mp hpiece
      exact blankFree_entryText e
  rw [render_eq_intercalate, Text.words_intercalate hfree, List.filter_eq_self]
  intro piece hpiece
  rcases List.mem_cons.mp hpiece with rfl | hpiece
  · decide
  · obtain ⟨e, -, rfl⟩ := List.mem_map.mp hpiece
    simp [entryText]

theorem render_injective {registers other : Registers} (h : registers.render = other.render) : registers = other := by
  have hwords : registers.entries.map entryText = other.entries.map entryText := by
    obtain ⟨-, hentries⟩ := List.cons.inj ((words_render registers).symm.trans (h ▸ words_render other))
    exact hentries
  rw [eq_iff_entries, List.map_injective_iff.mpr entryText_injective hwords]
  exact fun _ _ => Iff.rfl

/-! ### The whole file -/

/-- After any calls a register reads as the last value that was written to it since the file was cleared, and as zero if
there is none. The registers are listed in ascending order, those and only those that were written, with their last
values. Two files are equal exactly when the same registers have the same last values in both, in whatever order they
were written, and files that are printed alike are equal. -/
theorem after_keeps_last_writes (calls : List Call) :
    (∀ index value, LastWrite calls index value → (after calls).get index = value) ∧
    (∀ index, (∀ value, ¬ LastWrite calls index value) → (after calls).get index = 0) ∧
    (after calls).entries.Pairwise (·.1 < ·.1) ∧
    (∀ index value, (index, value) ∈ (after calls).entries ↔ LastWrite calls index value) ∧
    (∀ others, after calls = after others ↔
      ∀ index value, LastWrite calls index value ↔ LastWrite others index value) ∧
    ∀ others, (after calls).render = (after others).render → after calls = after others := by
  have hentries : ∀ calls index value, (index, value) ∈ (after calls).entries ↔ LastWrite calls index value := by
    intro calls index value
    rw [← get?_eq_some_iff, get?_after_eq_some_iff]
  refine ⟨fun index value h => ?_, fun index h => ?_, (after calls).ascending, hentries calls, fun others => ?_,
    fun others => render_injective⟩
  · exact get_eq_of_get? ((get?_after_eq_some_iff calls index value).mpr h)
  · have hnone : (after calls).get? index = none := by
      rw [Option.eq_none_iff_forall_ne_some]
      intro value hvalue
      exact h value ((get?_after_eq_some_iff calls index value).mp hvalue)
    rw [get, hnone]
    rfl
  · rw [eq_iff_entries]
    simp only [hentries]

/-- Writes in front of a reset, a register that is written twice, the largest index, and a written zero. -/
def severalCalls : List Call :=
  [.set 7 1, .reset, .set 4294967295 (-5), .set 2 9, .set 3 0, .set 2 (-2147483648)]

/-- Nothing is left of what was written in front of the reset. The same last writes in another order make up the same
file; without the written zero it is another one. -/
theorem after_keeps_last_writes_of_zero :
    LastWrite severalCalls 2 (-2147483648) ∧ (after severalCalls).get 2 = -2147483648 ∧
    (∀ value, ¬ LastWrite severalCalls 7 value) ∧ (after severalCalls).get 7 = 0 ∧
    after severalCalls = after [.set 3 0, .set 2 (-2147483648), .set 4294967295 (-5)] ∧
    (after severalCalls).render ≠ (after [.set 2 (-2147483648), .set 4294967295 (-5)]).render := by
  obtain ⟨hget, hzero, -, hlisted, hequal, hprinted⟩ := after_keeps_last_writes severalCalls
  have hentries : (after severalCalls).entries = [(2, -2147483648), (3, 0), (4294967295, -5)] := by decide +kernel
  have hlast : LastWrite severalCalls 2 (-2147483648) := by
    rw [← hlisted, hentries]
    exact List.mem_cons_self
  have hnone : ∀ value, ¬ LastWrite severalCalls 7 value := by
    intro value
    rw [← hlisted, hentries]
    simp
  refine ⟨hlast, hget _ _ hlast, hnone, hzero _ hnone, (hequal _).mpr fun index value => ?_, fun h => ?_⟩
  · rw [← hlisted, ← (after_keeps_last_writes [.set 3 0, .set 2 (-2147483648), .set 4294967295 (-5)]).2.2.2.1, hentries]
    rfl
  · exact absurd (hprinted _ h) (by decide +kernel)

end RegAsm.Registers
