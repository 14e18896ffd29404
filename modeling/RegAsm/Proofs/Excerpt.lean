import Mathlib.Data.List.DropRight
import RegAsm.Proofs.Reassembly
import RegAsm.Diagnostic

/-! Diagnostics of repeated labels. The number in the error was counted by the pass over the lines of a source; the
excerpt takes the lines of the source anew and looks up that number. Both count the same lines, so the excerpt is always
there, and it shows the line that begins with the repeated label. -/

namespace RegAsm

theorem Error.error_message_duplicateLabel (label : String) (line : Nat) :
    "error: " ++ (Error.duplicateLabel label line).message =
      "error: line " ++ Nat.repr line ++ ": duplicate label: " ++ label := by
  change "error: " ++ ("line " ++ Nat.repr line ++ ": duplicate label: " ++ label) = _
  simp only [← String.append_assoc, String.reduceAppend]

namespace Diagnostic

/-- What is shown of a line: all of it but the carriage returns at its end. -/
def ShownAs (line shown : String) : Prop :=
  (∃ returns, line.toList = shown.toList ++ List.replicate returns '\r') ∧ shown.toList.getLast? ≠ some '\r'

theorem toList_dropReturns (line : String) : (dropReturns line).toList = line.toList.rdropWhile (· == '\r') := by
  rw [dropReturns, String.toList_ofList, List.rdropWhile]

theorem shownAs_dropReturns (line : String) : ShownAs line (dropReturns line) := by
  unfold ShownAs
  rw [toList_dropReturns]
  refine ⟨⟨(line.toList.rtakeWhile (· == '\r')).length, ?_⟩, fun hlast => ?_⟩
  · have hreturns : line.toList.rtakeWhile (· == '\r') =
        List.replicate (line.toList.rtakeWhile (· == '\r')).length '\r' := by
      rw [List.eq_replicate_iff]
      refine ⟨rfl, fun c hc => ?_⟩
      simpa using List.mem_rtakeWhile_imp hc
    rw [← hreturns]
    exact List.rdropWhile_append_rtakeWhile.symm
  · have hne : line.toList.rdropWhile (· == '\r') ≠ [] := by
      intro hnil
      rw [hnil] at hlast
      cases hlast
    rw [List.getLast?_eq_some_getLast hne, Option.some.injEq] at hlast
    apply List.rdropWhile_last_not (· == '\r') line.toList hne
    rw [hlast]
    rfl

theorem ShownAs.eq_dropReturns {line shown : String} (h : ShownAs line shown) : shown = dropReturns line := by
  obtain ⟨⟨returns, hline⟩, hlast⟩ := h
  rw [← String.toList_inj, toList_dropReturns, hline]
  clear hline
  induction returns with
  | zero =>
      rw [List.replicate_zero, List.append_nil, eq_comm, List.rdropWhile_eq_self_iff]
      intro hne hreturn
      apply hlast
      rw [List.getLast?_eq_some_getLast hne, eq_of_beq hreturn]
  | succ returns ih =>
      rw [List.replicate_succ', ← List.append_assoc, List.rdropWhile_concat_pos _ _ _ rfl]
      exact ih

/-- Blanks fill up what a text lacks of its width. -/
theorem padLeft_eq (width : Nat) (text : String) :
    padLeft width text = String.ofList (List.replicate (width - text.length) ' ') ++ text := by
  rw [padLeft, List.leftpad, String.ofList_append, String.ofList_toList, String.length_toList]

/-- An error that points to a line of the source is reported in five lines. -/
theorem render_of_line {source line : String} {number : Nat} {error : Error} (herror : error.line? = some number)
    (hline : (Text.lines source)[number - 1]? = some line) (name : String) :
    render name source error = String.join ([
      "error: " ++ error.message,
      " --> " ++ name ++ ":" ++ Nat.repr number,
      "  |",
      String.ofList (List.replicate (4 - (Nat.repr number).length) ' ') ++ Nat.repr number ++ " | " ++ dropReturns line,
      "  |"].map (· ++ "\n")) := by
  have hexcerpt : excerpt source number =
      "  |\n" ++ padLeft 4 (Nat.repr number) ++ " | " ++ dropReturns line ++ "\n  |\n" := by
    rw [excerpt, hline]
  rw [render, herror]
  dsimp only
  rw [hexcerpt, padLeft_eq]
  -- The line feeds that end the first and the last line of the excerpt are set apart from them.
  rw [show "  |\n" = "  |" ++ "\n" from rfl, show "\n  |\n" = "\n" ++ ("  |" ++ "\n") from rfl]
  simp only [List.map_cons, List.map_nil, String.join_cons, String.join_nil, String.append_assoc, String.append_empty]

end Diagnostic

open Diagnostic (ShownAs)

theorem Workbench.ofSource_of_assemble {bench : Workbench} {read : FileReader} {label : String} {line : Nat}
    (h : (bench.assemble read).2 = some (.duplicateLabel label line)) :
    ∃ source, bench.origin.load read = .ok source ∧
      Assembly.ofSource source = .error (.duplicateLabel label line) := by
  rw [Workbench.assemble_eq] at h
  have hends := Origin.ends read bench.origin
  generalize bench.origin.pass read = pass at h hends
  cases hends with
  | assembled load result => cases h
  | repeated degradations load result =>
      cases h
      exact ⟨_, load, result⟩
  | unreadable file content => cases h

/-- An assembly that fails on a repeated label has found it at the beginning of a line of its source, and the diagnostic
consists of the error, the place and that line, with its number filled up to four characters and without carriage
returns at its end. -/
theorem Workbench.diagnostic_shows_line {bench : Workbench} {read : FileReader} {label : String} {line : Nat}
    (h : (bench.assemble read).2 = some (.duplicateLabel label line)) :
    ∃ source text shown, bench.origin.load read = .ok source ∧
      1 ≤ line ∧ line ≤ (Text.lines source).length ∧ (Text.lines source)[line - 1]? = some text ∧
      (Text.words text).head? = some label ∧ ShownAs text shown ∧
      ∀ name, Diagnostic.render name source (.duplicateLabel label line) =
        String.join ([
          "error: line " ++ Nat.repr line ++ ": duplicate label: " ++ label,
          " --> " ++ name ++ ":" ++ Nat.repr line,
          "  |",
          String.ofList (List.replicate (4 - (Nat.repr line).length) ' ') ++ Nat.repr line ++ " | " ++ shown,
          "  |"].map (· ++ "\n")) := by
  obtain ⟨source, hload, hfails⟩ := Workbench.ofSource_of_assemble h
  obtain ⟨i, label', -, hfirst, -, herror, -⟩ := Assembly.first_clash_of_ofSource_eq_error hfails
  obtain ⟨rfl, rfl⟩ := Error.duplicateLabel.inj herror
  obtain ⟨text, htext, hhead⟩ := Option.bind_eq_some_iff.mp hfirst.head?_words
  obtain ⟨hlt, -⟩ := List.getElem?_eq_some_iff.mp htext
  refine ⟨source, text, Diagnostic.dropReturns text, hload, by omega, by omega, htext, hhead,
    Diagnostic.shownAs_dropReturns text, fun name => ?_⟩
  rw [← Error.error_message_duplicateLabel]
  exact Diagnostic.render_of_line rfl htext name

/-- The label is repeated in front of an unknown opcode, on a line that ends in two carriage returns and a line feed. -/
theorem Workbench.diagnostic_shows_line_of_returns :
    (Workbench.assemble { origin := .file "p" } fun _ => .ok "a\r\n\n a mov\r\r\n").2 =
      some (.duplicateLabel "a" 3) ∧
    (Text.lines "a\r\n\n a mov\r\r\n")[2]? = some " a mov\r" ∧ ShownAs " a mov\r" " a mov" ∧
    Diagnostic.render "p" "a\r\n\n a mov\r\r\n" (.duplicateLabel "a" 3) =
      "error: line 3: duplicate label: a\n --> p:3\n  |\n   3 |  a mov\n  |\n" := by
  have hfails : (Workbench.assemble { origin := .file "p" } fun _ => .ok "a\r\n\n a mov\r\r\n").2 =
      some (.duplicateLabel "a" 3) := by decide +kernel
  have hthird : (Text.lines "a\r\n\n a mov\r\r\n")[2]? = some " a mov\r" := by decide +kernel
  obtain ⟨source, text, shown, hload, -, -, htext, -, hshown, hrender⟩ := Workbench.diagnostic_shows_line hfails
  obtain rfl := Except.ok.inj hload
  obtain rfl := Option.some.inj (hthird.symm.trans htext)
  obtain rfl : shown = " a mov" := hshown.eq_dropReturns.trans (by decide +kernel)
  refine ⟨hfails, hthird, hshown, ?_⟩
  rw [hrender]
  decide +kernel

end RegAsm
