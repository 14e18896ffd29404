import RegAsm.Proofs.DuplicateLabel

/-! A workbench that is used again and again. Between two assemblies labels and instructions may be added by hand
and files may change; none of this is seen by the next assembly, which comes to what a new workbench would come to
with the files as they are then. An assembly ends in one of three ways, and both of those that fail leave neither a
label nor an instruction behind. -/

namespace RegAsm

open Source (Degradation)

/-! ### The ends of an assembly -/

/-- The source is assembled, or stopped at a repeated label, or it is a file that cannot be read. -/
inductive Origin.Ends (read : FileReader) (origin : Origin) : Pass → Prop where
  | assembled {source : String} {assembly : Assembly} (load : origin.load read = .ok source)
      (result : Assembly.ofSource source = .ok assembly) :
      Ends read origin { assembly, error? := none }
  | repeated {source label : String} {line : Nat} (degradations : List Degradation)
      (load : origin.load read = .ok source)
      (result : Assembly.ofSource source = .error (.duplicateLabel label line)) :
      Ends read origin (.stopped degradations (.duplicateLabel label line))
  | unreadable {path : String} {cause : ReadError} (file : origin = .file path)
      (content : read path = .error cause) :
      Ends read origin (.stopped [] (.unreadable path cause))

theorem Origin.load_eq_error_iff {origin : Origin} {read : FileReader} {error : Error} :
    origin.load read = .error error ↔
      ∃ path cause, origin = .file path ∧ read path = .error cause ∧ error = .unreadable path cause := by
  cases origin with
  | text source => simp [Origin.load]
  | file path =>
      cases hread : read path with
      | ok source => simp [Origin.load_file_of_ok hread, hread]
      | error cause => simp [Origin.load_file_of_error hread, hread, eq_comm]

theorem Origin.pass_congr {origin : Origin} {read read' : FileReader} (h : origin.load read = origin.load read') :
    origin.pass read = origin.pass read' := by
  cases hload : origin.load read with
  | error error => rw [Origin.pass_of_load_error hload, Origin.pass_of_load_error (h ▸ hload)]
  | ok source => rw [Origin.pass_of_load hload, Origin.pass_of_load (h ▸ hload)]

theorem Origin.ends (read : FileReader) (origin : Origin) : origin.Ends read (origin.pass read) := by
  cases hload : origin.load read with
  | error error =>
      obtain ⟨path, cause, hfile, hcontent, rfl⟩ := Origin.load_eq_error_iff.mp hload
      rw [Origin.pass_of_load_error hload]
      exact .unreadable hfile hcontent
  | ok source =>
      rw [Origin.pass_of_load hload]
      rcases Assembly.pass_cases source with ⟨result, hpass, -⟩ | ⟨i, label, result, -, -, hpass⟩
      · rw [hpass]
        apply Ends.assembled hload
        rw [Assembly.ofSource, hpass]
        rfl
      · rw [hpass]
        apply Ends.repeated _ hload
        rw [Assembly.ofSource, hpass]
        rfl

/-- Of all that is on a workbench an assembly uses the content of its source alone. -/
theorem Workbench.assemble_eq (bench : Workbench) (read : FileReader) : bench.assemble read =
    ({ origin := bench.origin, assembly := (bench.origin.pass read).assembly }, (bench.origin.pass read).error?) := by
  cases hload : bench.origin.load read with
  | error error => rw [Workbench.assemble_of_load_error hload, Origin.pass_of_load_error hload]
  | ok source => rw [Workbench.assemble_of_load hload, Origin.pass_of_load hload]

/-! ### Acts on a workbench -/

/-- A workbench and the files as they are at the time. -/
structure Session where
  bench : Workbench
  read : FileReader

namespace Session

inductive Act where
  | assemble
  | addLabel (name : String) (index : Nat)
  | push (i : Instruction)
  /-- From now on files read differently. -/
  | change (read : FileReader)

def perform (session : Session) : Act → Session
  | .assemble => { session with bench := (session.bench.assemble session.read).1 }
  | .addLabel name index => { session with bench := session.bench.addLabel name index }
  | .push i => { session with bench := session.bench.push i }
  | .change read => { session with read }

/-- The session after acts one after another. -/
def after (session : Session) (acts : List Act) : Session := acts.foldl perform session

/-- What an assembly comes to now: the workbench behind it, and the error if it fails. -/
def assembled (session : Session) : Workbench × Option Error := session.bench.assemble session.read

theorem origin_perform (session : Session) (act : Act) :
    (session.perform act).bench.origin = session.bench.origin := by
  cases act with
  | assemble => rw [perform, Workbench.assemble_eq]
  | addLabel | push | change => rfl

theorem origin_after (session : Session) (acts : List Act) :
    (session.after acts).bench.origin = session.bench.origin := by
  induction acts generalizing session with
  | nil => rfl
  | cons act acts ih =>
      calc
        ((session.perform act).after acts).bench.origin = (session.perform act).bench.origin := ih _
        _ = session.bench.origin := session.origin_perform act

theorem assembled_eq (session : Session) : session.assembled =
    ({ origin := session.bench.origin, assembly := (session.bench.origin.pass session.read).assembly },
      (session.bench.origin.pass session.read).error?) :=
  session.bench.assemble_eq session.read

theorem assembled_of_load {session other : Session} (horigin : other.bench.origin = session.bench.origin)
    (hload : session.bench.origin.load other.read = session.bench.origin.load session.read) :
    other.assembled = session.assembled := by
  rw [assembled_eq, assembled_eq, horigin, Origin.pass_congr hload]

/-- Whatever was done in a session, an assembly comes to what it comes to on a new workbench, with the content
that the source has by then: once more the same if that content does not change, whatever is done in between, and
for a file the same as for its text. One that fails leaves neither label nor instruction, and no degradation either
if it could not read its file. -/
theorem assembles_afresh {session later : Session} {acts : List Act} (h : session.after acts = later) :
    later.assembled = Workbench.assemble { origin := session.bench.origin } later.read ∧
    (∀ more last, (later.perform .assemble).after more = last →
      session.bench.origin.load last.read = session.bench.origin.load later.read →
      last.assembled = later.assembled) ∧
    (∀ source, session.bench.origin.load later.read = .ok source →
      (∀ read, later.assembled.1.assembly = (Workbench.assemble { origin := .text source } read).1.assembly ∧
        later.assembled.2 = (Workbench.assemble { origin := .text source } read).2) ∧
      Pass.result ⟨later.assembled.1.assembly, later.assembled.2⟩ = Assembly.ofSource source) ∧
    ∀ error, later.assembled.2 = some error →
      later.assembled.1.assembly.labels = ∅ ∧ later.assembled.1.assembly.program = #[] ∧
      ((∃ label line, error = .duplicateLabel label line) ∨
        ∃ path cause, session.bench.origin = .file path ∧ later.read path = .error cause ∧
          error = .unreadable path cause ∧ later.assembled.1.assembly.degradations = []) := by
  have horigin : later.bench.origin = session.bench.origin := by
    rw [← h, origin_after]
  rw [← horigin]
  refine ⟨?_, ?_, ?_, ?_⟩
  · rw [assembled_eq, Workbench.assemble_eq]
  · rintro more last rfl hload
    apply assembled_of_load _ hload
    rw [origin_after, origin_perform]
  · intro source hload
    rw [assembled_eq, Origin.pass_of_load hload]
    exact ⟨fun read => ⟨rfl, rfl⟩, rfl⟩
  · intro error herror
    rw [assembled_eq] at herror ⊢
    -- Of the three ends of the assembly two are failures, and both leave a stopped pass.
    generalize hpass : later.bench.origin.pass later.read = pass at herror ⊢
    have hends := Origin.ends later.read later.bench.origin
    rw [hpass] at hends
    cases hends with
    | assembled load result => cases herror
    | repeated degradations load result =>
        cases herror
        exact ⟨rfl, rfl, Or.inl ⟨_, _, rfl⟩⟩
    | unreadable file content =>
        cases herror
        exact ⟨rfl, rfl, Or.inr ⟨_, _, file, content, rfl, rfl⟩⟩

/-- A failed assembly, a label and an instruction by hand and a new file leave traces on the workbench, among them
the label that the file defines; the next assembly does not see them, and one without a file clears them. -/
theorem assembles_afresh_after_failure : ∃ later,
    after ⟨{ origin := .file "p" }, fun _ => .ok "a\nx mov\na"⟩
      [.assemble, .addLabel "a" 3, .push ⟨none, .out 1⟩, .change fun _ => .ok "a out 1"] = later ∧
    later.bench.assembly.labels.indexOf? "a" = some 3 ∧
    later.bench.assembly.degradations = [.unknownOpcode 2 "mov"] ∧
    later.assembled = Workbench.assemble { origin := .file "p" } (fun _ => .ok "a out 1") ∧
    later.assembled.1.assembly.labels.indexOf? "a" = some 0 ∧
    (after later [.change fun _ => .error .notFound]).assembled.1.assembly.degradations = [] := by
  have htraces : (after ⟨{ origin := .file "p" }, fun _ => .ok "a\nx mov\na"⟩
      [.assemble, .addLabel "a" 3, .push ⟨none, .out 1⟩,
        .change fun _ => .ok "a out 1"]).bench.assembly.labels.indexOf? "a" = some 3 ∧
      (Assembly.pass "a\nx mov\na").assembly.degradations = [.unknownOpcode 2 "mov"] := by decide +kernel
  have hfresh : (Assembly.pass "a out 1").assembly.labels.indexOf? "a" = some 0 := by decide +kernel
  obtain ⟨hassembled, -, hcontent, -⟩ := assembles_afresh (Eq.refl
    (after ⟨{ origin := .file "p" }, fun _ => .ok "a\nx mov\na"⟩
      [.assemble, .addLabel "a" 3, .push ⟨none, .out 1⟩, .change fun _ => .ok "a out 1"]))
  refine ⟨_, rfl, htraces.1, htraces.2, hassembled, ?_, ?_⟩
  · rw [((hcontent "a out 1" rfl).1 fun _ => .ok "").1]
    exact hfresh
  · obtain ⟨-, -, -, hfailed⟩ := assembles_afresh (Eq.refl
      (after ⟨{ origin := .file "p" }, fun _ => .ok "a out 1"⟩ [.change fun _ => .error .notFound]))
    obtain ⟨-, -, ⟨label, line, hlabel⟩ | ⟨path, cause, -, -, -, hnone⟩⟩ :=
      hfailed (.unreadable "p" .notFound) rfl
    · cases hlabel
    · exact hnone

end Session

end RegAsm
