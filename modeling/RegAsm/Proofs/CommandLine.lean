import Mathlib.Data.List.Induction
import Mathlib.Data.List.Perm.Basic
import RegAsm.Command.Request

/-! What a command line asks for, by rules about its arguments. The arguments make up units from the left, for a
directory flag takes the next argument along. The first unit that settles the matter decides: a help flag, a flag that
nobody knows, a directory flag with nothing behind it, or a second path. If there is none, what the units say is gathered
in whatever order they stand, but for directories, of which the last one counts. -/

namespace RegAsm.Command

open Log (Level)

/-! ### Units -/

def helpFlags : List String := ["-h", "--help"]

def directoryFlags : List String := ["-d", "--dir"]

def traceFlags : List String := ["-t", "--trace"]

def quietFlags : List String := ["-q", "--quiet"]

def knownFlags : List String := helpFlags ++ directoryFlags ++ traceFlags ++ quietFlags

theorem mem_directoryFlags {arg : String} : arg ∈ directoryFlags ↔ arg = "-d" ∨ arg = "--dir" := by
  simp [directoryFlags]

theorem not_mem_knownFlags {arg : String} : arg ∉ knownFlags ↔
    arg ∉ helpFlags ∧ arg ∉ directoryFlags ∧ arg ∉ traceFlags ∧ arg ∉ quietFlags := by
  simp [knownFlags]

/-- The argument begins with a hyphen and is longer than one byte. -/
def HasFlagForm (arg : String) : Prop := arg.toList.head? = some '-' ∧ 1 < arg.utf8ByteSize

instance (arg : String) : Decidable (HasFlagForm arg) := inferInstanceAs (Decidable (_ ∧ _))

theorem hasFlagForm_of_known : ∀ flag ∈ knownFlags, HasFlagForm flag := by decide

/-- A unit of the command line as it is written. -/
inductive Written where
  | single (arg : String)
  /-- A directory flag with the argument behind it. -/
  | directory (flag path : String)
deriving DecidableEq

namespace Written

/-- The path that a unit is. -/
def path? : Written → Option String
  | .single arg => if HasFlagForm arg then none else some arg
  | .directory .. => none

/-- The directory that a unit names. -/
def directory? : Written → Option String
  | .directory _ path => some path
  | .single _ => none

/-- Whether a unit is one of the flags. -/
def isOneOf (flags : List String) : Written → Bool
  | .single arg => arg ∈ flags
  | .directory .. => false

/-- What a unit is read as. -/
def argument : Written → Argument
  | .directory _ path => .directory path
  | .single arg =>
      if arg ∈ helpFlags then .help
      else if arg ∈ directoryFlags then .lackingDirectory arg
      else if arg ∈ traceFlags then .trace
      else if arg ∈ quietFlags then .quiet
      else if HasFlagForm arg then .unknown arg
      else .path arg

end Written

/-- The units of a command line. -/
def unitsOf : List String → List Written
  | [] => []
  | [arg] => [.single arg]
  | arg :: next :: rest =>
      if arg ∈ directoryFlags then .directory arg next :: unitsOf rest else .single arg :: unitsOf (next :: rest)

theorem isFlag_iff (arg : String) : isFlag arg = true ↔ HasFlagForm arg := by
  obtain ⟨text, rfl⟩ : ∃ text, arg = String.ofList text := ⟨arg.toList, String.ofList_toList.symm⟩
  rw [isFlag, HasFlagForm, String.toList_ofList]
  match text with
  | [] => simp
  | [c] =>
      -- A hyphen is a single byte.
      have hsize : c = '-' → ¬ 1 < (String.ofList [c]).utf8ByteSize := by
        rintro rfl
        decide
      simpa using hsize
  | c :: d :: rest =>
      have hsize : 1 < (String.ofList (c :: d :: rest)).utf8ByteSize := by
        have hc := c.utf8Size_pos
        have hd := d.utf8Size_pos
        rw [String.ofList_cons, String.ofList_cons, String.utf8ByteSize_append, String.utf8ByteSize_append,
          String.utf8ByteSize_singleton, String.utf8ByteSize_singleton]
        omega
      by_cases hc : c = '-'
      · subst hc
        exact iff_of_true rfl ⟨rfl, hsize⟩
      · simp [hc]

theorem split_cons {arg : String} (h : arg ∉ directoryFlags) (rest : List String) :
    Argument.split (arg :: rest) = (Written.single arg).argument :: Argument.split rest := by
  have hflag : ¬ (arg = "-d" ∨ arg = "--dir") := mem_directoryFlags.not.mp h
  rw [Argument.split.eq_def, Written.argument]
  simp only [if_neg hflag, if_neg h, helpFlags, traceFlags, quietFlags, List.mem_cons, List.not_mem_nil, or_false,
    isFlag_iff]
  split_ifs <;> rfl

theorem split_eq_map_argument (args : List String) : Argument.split args = (unitsOf args).map Written.argument := by
  fun_induction unitsOf args with
  | case1 => rfl
  | case2 arg =>
      by_cases hdirectory : arg ∈ directoryFlags
      · rcases mem_directoryFlags.mp hdirectory with rfl | rfl <;> rfl
      · exact split_cons hdirectory []
  | case3 arg next rest hdirectory ih =>
      rw [List.map_cons, ← ih]
      rcases mem_directoryFlags.mp hdirectory with rfl | rfl <;> rfl
  | case4 arg next rest hdirectory ih =>
      rw [List.map_cons, ← ih]
      exact split_cons hdirectory (next :: rest)

/-! ### What the units say -/

def pathsOf (units : List Written) : List String := units.filterMap Written.path?

def directoriesOf (units : List Written) : List String := units.filterMap Written.directory?

/-- What a unit settles by itself, wherever it stands. -/
inductive Settles : Written → Except String Request → Prop where
  | help {flag : String} (known : flag ∈ helpFlags) : Settles (.single flag) (.ok .help)
  | unknown {flag : String} (form : HasFlagForm flag) (unknown : flag ∉ knownFlags) :
      Settles (.single flag) (.error ("unexpected argument: " ++ flag))
  | lacking {flag : String} (known : flag ∈ directoryFlags) :
      Settles (.single flag) (.error (flag ++ " requires an argument"))

/-- None of the units settles the matter, and there is no second path. -/
def Undecided (units : List Written) : Prop :=
  (∀ unit ∈ units, ∀ answer, ¬ Settles unit answer) ∧ (pathsOf units).length ≤ 1

/-- The names of the levels. -/
def levelNames : List (String × Level) :=
  [("debug", .debug), ("trace", .debug), ("info", .info), ("warn", .warn), ("warning", .warn), ("error", .error)]

/-- The level without a trace flag. -/
inductive Default (env : String → Option String) : Level → Prop where
  | unset (unset : env "SML_LOG" = none) : Default env .info
  | named {text : String} {level : Level} (set : env "SML_LOG" = some text)
      (named : (text.map Char.toLower, level) ∈ levelNames) : Default env level

/-- What the environment and the units ask for, or the words in which they are refused. -/
inductive Asks (env : String → Option String) (units : List Written) : Except String Request → Prop where
  | badLevel {text : String} (set : env "SML_LOG" = some text)
      (unnamed : ∀ level, (text.map Char.toLower, level) ∉ levelNames) :
      Asks env units (.error ("unknown log level '" ++ text.map Char.toLower ++ "'"))
  | settled {level : Level} {before after : List Written} {unit : Written} {answer : Except String Request}
      (default : Default env level) (place : units = before ++ unit :: after) (undecided : Undecided before)
      (settles : Settles unit answer) : Asks env units answer
  | secondPath {level : Level} {before after : List Written} {unit : Written} {path : String}
      (default : Default env level) (place : units = before ++ unit :: after) (undecided : Undecided before)
      (isPath : unit.path? = some path) (second : pathsOf before ≠ []) :
      Asks env units (.error ("unexpected argument: " ++ path))
  | lackingProgram {level : Level} (default : Default env level) (undecided : Undecided units)
      (paths : pathsOf units = []) : Asks env units (.error "missing program file")
  | run {level : Level} {source : String} (default : Default env level) (undecided : Undecided units)
      (paths : pathsOf units = [source]) :
      Asks env units (.ok (.run {
        source
        directory? := (directoriesOf units).getLast?.or (env "SML_DIR")
        quiet := units.any (Written.isOneOf quietFlags)
        level := if units.any (Written.isOneOf traceFlags) then .debug else level }))

/-! ### Gathering -/

/-- What the units say, on top of the environment. -/
def gathered (env : String → Option String) (level : Level) (units : List Written) : Draft where
  source? := (pathsOf units).head?
  directory? := (directoriesOf units).getLast?.or (env "SML_DIR")
  quiet := units.any (Written.isOneOf quietFlags)
  level := if units.any (Written.isOneOf traceFlags) then .debug else level

section

variable {env : String → Option String} {level : Level} {units : List Written} {unit : Written}

theorem filterMap_concat {α : Type} (part? : Written → Option α) :
    (units ++ [unit]).filterMap part? = units.filterMap part? ++ (part? unit).toList := by
  rw [List.filterMap_append, List.filterMap_cons, List.filterMap_nil]
  cases part? unit <;> rfl

theorem pathsOf_concat : pathsOf (units ++ [unit]) = pathsOf units ++ unit.path?.toList :=
  filterMap_concat Written.path?

theorem directoriesOf_concat : directoriesOf (units ++ [unit]) = directoriesOf units ++ unit.directory?.toList :=
  filterMap_concat Written.directory?

theorem undecided_concat : Undecided (units ++ [unit]) ↔
    Undecided units ∧ (∀ answer, ¬ Settles unit answer) ∧ (unit.path? = none ∨ pathsOf units = []) := by
  have hpaths : (pathsOf (units ++ [unit])).length ≤ 1 ↔
      (pathsOf units).length ≤ 1 ∧ (unit.path? = none ∨ pathsOf units = []) := by
    rw [pathsOf_concat, List.length_append, ← List.length_eq_zero_iff]
    cases unit.path? with
    | none => simp
    | some path =>
        simp only [Option.toList_some, List.length_singleton, reduceCtorEq, false_or]
        omega
  rw [Undecided, hpaths, Undecided]
  simp only [List.mem_append, List.mem_singleton, or_imp, forall_and, forall_eq]
  exact and_and_and_comm

theorem gathered_concat : gathered env level (units ++ [unit]) = {
    source? := (gathered env level units).source?.or unit.path?
    directory? := unit.directory?.or (gathered env level units).directory?
    quiet := (gathered env level units).quiet || unit.isOneOf quietFlags
    level := if unit.isOneOf traceFlags then .debug else (gathered env level units).level } := by
  simp only [gathered, pathsOf_concat, directoriesOf_concat, List.any_append, List.any_cons, List.any_nil,
    Bool.or_false, Draft.mk.injEq, true_and]
  refine ⟨?_, ?_, ?_⟩
  · cases pathsOf units <;> cases unit.path? <;> rfl
  · cases unit.directory? <;> simp
  · cases units.any (Written.isOneOf traceFlags) <;> cases unit.isOneOf traceFlags <;> rfl

/-- An argument that is none of the flags is taken for an unknown flag or for a path, by its form. -/
theorem argument_of_not_known {arg : String} (h : arg ∉ knownFlags) :
    (Written.single arg).argument = if HasFlagForm arg then .unknown arg else .path arg := by
  obtain ⟨hhelp, hdirectory, htrace, hquiet⟩ := not_mem_knownFlags.mp h
  rw [Written.argument, if_neg hhelp, if_neg hdirectory, if_neg htrace, if_neg hquiet]

/-- A unit that settles the matter ends the reading, whatever was gathered before. -/
theorem read_of_settles {answer : Except String Request} (h : Settles unit answer) (draft : Draft)
    (rest : List Argument) : (Draft.read draft (unit.argument :: rest)).mapError Rejection.message = answer := by
  cases h with
  | @help flag known =>
      rw [Written.argument, if_pos known]
      rfl
  | @unknown flag form unknown =>
      rw [argument_of_not_known unknown, if_pos form]
      rfl
  | @lacking flag known =>
      have hhelp : flag ∉ helpFlags := (by decide : ∀ flag ∈ directoryFlags, flag ∉ helpFlags) flag known
      rw [Written.argument, if_neg hhelp, if_pos known]
      rfl

theorem argument_of_path? {path : String} (h : unit.path? = some path) : unit.argument = .path path := by
  cases unit with
  | directory flag directory => cases h
  | single arg =>
      rw [Written.path?] at h
      split_ifs at h with hform
      obtain rfl := Option.some.inj h
      have hunknown : arg ∉ knownFlags := fun hknown => hform (hasFlagForm_of_known arg hknown)
      rw [argument_of_not_known hunknown, if_neg hform]

theorem read_of_secondPath {path : String} (h : unit.path? = some path) (hsecond : pathsOf units ≠ [])
    (rest : List Argument) :
    (Draft.read (gathered env level units) (unit.argument :: rest)).mapError Rejection.message =
      .error ("unexpected argument: " ++ path) := by
  obtain ⟨first, others, hpaths⟩ := List.exists_cons_of_ne_nil hsecond
  have hsource : (gathered env level units).source? = some first := by
    rw [gathered, hpaths]
    rfl
  rw [argument_of_path? h, Draft.read, hsource]
  rfl

theorem trace_flag : ∀ flag ∈ traceFlags, (Written.single flag).argument = .trace ∧ flag ∉ quietFlags := by
  decide

theorem quiet_flag : ∀ flag ∈ quietFlags, (Written.single flag).argument = .quiet ∧ flag ∉ traceFlags := by
  decide

/-- A unit that does not decide goes into the draft. -/
theorem read_of_undecided (h : Undecided (units ++ [unit])) (rest : List Argument) :
    Draft.read (gathered env level units) (unit.argument :: rest) =
      Draft.read (gathered env level (units ++ [unit])) rest := by
  obtain ⟨-, hsettles, hpath⟩ := undecided_concat.mp h
  rw [gathered_concat]
  cases unit with
  | directory flag path => simp [Written.argument, Draft.read, Written.path?, Written.directory?, Written.isOneOf]
  | single arg =>
      by_cases hknown : arg ∈ knownFlags
      · have hform := hasFlagForm_of_known arg hknown
        simp only [knownFlags, List.mem_append] at hknown
        rcases hknown with ((hhelp | hdirectory) | htrace) | hquiet
        · exact absurd (.help hhelp) (hsettles _)
        · exact absurd (.lacking hdirectory) (hsettles _)
        · obtain ⟨hargument, hquiet⟩ := trace_flag arg htrace
          simp [hargument, Draft.read, Written.path?, Written.directory?, Written.isOneOf, hform, htrace, hquiet]
        · obtain ⟨hargument, htrace⟩ := quiet_flag arg hquiet
          simp [hargument, Draft.read, Written.path?, Written.directory?, Written.isOneOf, hform, htrace, hquiet]
      · have hform : ¬ HasFlagForm arg := fun hform => hsettles _ (.unknown hform hknown)
        have hsome : (Written.single arg).path? = some arg := if_neg hform
        have hnone : pathsOf units = [] := hpath.resolve_left (by rw [hsome]; exact Option.some_ne_none arg)
        have hsource : (gathered env level units).source? = none := by
          rw [gathered, hnone]
          rfl
        obtain ⟨-, -, htrace, hquiet⟩ := not_mem_knownFlags.mp hknown
        simp [argument_of_path? hsome, Draft.read, hsource, hsome, Written.directory?, Written.isOneOf, htrace, hquiet]

theorem read_append {rest : List Written} (h : Undecided units) :
    Draft.read (gathered env level []) ((units ++ rest).map Written.argument) =
      Draft.read (gathered env level units) (rest.map Written.argument) := by
  induction units using List.reverseRecOn generalizing rest with
  | nil => rfl
  | append_singleton units unit ih =>
      rw [List.append_assoc, ih (undecided_concat.mp h).1, List.singleton_append, List.map_cons, read_of_undecided h]

theorem undecided_or_decided (units : List Written) : Undecided units ∨
    ∃ before unit after, units = before ++ unit :: after ∧ Undecided before ∧
      ((∃ answer, Settles unit answer) ∨ (∃ path, unit.path? = some path) ∧ pathsOf before ≠ []) := by
  induction units using List.reverseRecOn with
  | nil => exact Or.inl ⟨fun unit hunit => absurd hunit List.not_mem_nil, Nat.zero_le 1⟩
  | append_singleton units unit ih =>
      rcases ih with hundecided | ⟨before, first, after, rfl, hbefore, hdecides⟩
      · by_cases hsettles : ∃ answer, Settles unit answer
        · exact Or.inr ⟨units, unit, [], rfl, hundecided, Or.inl hsettles⟩
        by_cases hsecond : (∃ path, unit.path? = some path) ∧ pathsOf units ≠ []
        · exact Or.inr ⟨units, unit, [], rfl, hundecided, Or.inr hsecond⟩
        · refine Or.inl (undecided_concat.mpr ⟨hundecided, not_exists.mp hsettles, ?_⟩)
          rw [not_and_or, not_not, not_exists, ← Option.eq_none_iff_forall_ne_some] at hsecond
          exact hsecond
      · exact Or.inr ⟨before, first, after ++ [unit], by simp, hbefore, hdecides⟩

end

/-! ### Levels of the environment -/

theorem parse_eq_ok_iff {text : String} {level : Level} :
    Level.parse text = .ok level ↔ (text.map Char.toLower, level) ∈ levelNames := by
  simp only [Level.parse, levelNames, List.mem_cons, Prod.mk.injEq, List.not_mem_nil, or_false]
  generalize text.map Char.toLower = lower
  split_ifs with hdebug hinfo hwarn herror
  · rcases hdebug with rfl | rfl <;> simp [eq_comm]
  · subst hinfo
    simp [eq_comm]
  · rcases hwarn with rfl | rfl <;> simp [eq_comm]
  · subst herror
    simp [eq_comm]
  · simp only [not_or] at hdebug hwarn
    simp [hdebug, hinfo, hwarn, herror]

theorem parse_of_unnamed {text : String} (h : ∀ level, (text.map Char.toLower, level) ∉ levelNames) :
    Level.parse text = .error ⟨text.map Char.toLower⟩ := by
  cases hparse : Level.parse text with
  | ok level => exact absurd (parse_eq_ok_iff.mp hparse) (h level)
  | error cause =>
      simp only [Level.parse] at hparse
      split_ifs at hparse
      exact hparse.symm

variable {env : String → Option String} {level : Level} {args : List String}

theorem Default.defaultLevel_eq (h : Default env level) : defaultLevel env = .ok level := by
  cases h with
  | unset unset => rw [defaultLevel, unset]
  | named set named =>
      rw [defaultLevel, set]
      exact parse_eq_ok_iff.mpr named

/-- The environment names a level, unless it names one that does not exist. -/
theorem default_cases (env : String → Option String) : (∃ level, Default env level) ∨
    ∃ text, env "SML_LOG" = some text ∧ ∀ level, (text.map Char.toLower, level) ∉ levelNames := by
  cases henv : env "SML_LOG" with
  | none => exact Or.inl ⟨.info, .unset henv⟩
  | some text =>
      by_cases hnamed : ∃ level, (text.map Char.toLower, level) ∈ levelNames
      · obtain ⟨level, hnamed⟩ := hnamed
        exact Or.inl ⟨level, .named henv hnamed⟩
      · exact Or.inr ⟨text, rfl, not_exists.mp hnamed⟩

/-! ### Whole command lines -/

theorem read_of_default (h : Default env level) (args : List String) :
    Request.read env args = Draft.read (gathered env level []) ((unitsOf args).map Written.argument) := by
  rw [Request.read, h.defaultLevel_eq, split_eq_map_argument]
  rfl

theorem read_of_unnamed {text : String} (henv : env "SML_LOG" = some text)
    (h : ∀ level, (text.map Char.toLower, level) ∉ levelNames) (args : List String) :
    Request.read env args = .error (.unknownLevel ⟨text.map Char.toLower⟩) := by
  have hlevel : defaultLevel env = .error ⟨text.map Char.toLower⟩ := by
    rw [defaultLevel, henv]
    exact parse_of_unnamed h
  rw [Request.read, hlevel]

/-- Where no unit decides, the request is what was gathered. -/
theorem read_of_default_of_undecided (h : Default env level) (hundecided : Undecided (unitsOf args)) :
    Request.read env args = Draft.read (gathered env level (unitsOf args)) [] := by
  rw [read_of_default h, ← List.append_nil (unitsOf args), read_append hundecided, List.append_nil]
  rfl

theorem Asks.read_eq {answer : Except String Request} (h : Asks env (unitsOf args) answer) :
    (Request.read env args).mapError Rejection.message = answer := by
  cases h with
  | badLevel set unnamed =>
      rw [read_of_unnamed set unnamed]
      rfl
  | settled default place undecided settles =>
      rw [read_of_default default, place, read_append undecided, List.map_cons]
      exact read_of_settles settles _ _
  | secondPath default place undecided isPath second =>
      rw [read_of_default default, place, read_append undecided, List.map_cons]
      exact read_of_secondPath isPath second _
  | lackingProgram default undecided paths =>
      rw [read_of_default_of_undecided default undecided, Draft.read, gathered, paths]
      rfl
  | run default undecided paths =>
      rw [read_of_default_of_undecided default undecided, Draft.read, gathered, paths]
      rfl

theorem exists_asks (env : String → Option String) (units : List Written) : ∃ answer, Asks env units answer := by
  rcases default_cases env with ⟨level, hdefault⟩ | ⟨text, henv, hunnamed⟩
  · rcases undecided_or_decided units with hundecided | ⟨before, unit, after, hplace, hbefore, hdecides⟩
    · cases hpaths : pathsOf units with
      | nil => exact ⟨_, .lackingProgram hdefault hundecided hpaths⟩
      | cons source others =>
          have hlength := hundecided.2
          rw [hpaths, List.length_cons] at hlength
          obtain rfl : others = [] := List.length_eq_zero_iff.mp (by omega)
          exact ⟨_, .run hdefault hundecided hpaths⟩
    · rcases hdecides with ⟨answer, hsettles⟩ | ⟨⟨path, hpath⟩, hsecond⟩
      · exact ⟨answer, .settled hdefault hplace hbefore hsettles⟩
      · exact ⟨_, .secondPath hdefault hplace hbefore hpath hsecond⟩
  · exact ⟨_, .badLevel henv hunnamed⟩

theorem gathered_perm (env : String → Option String) (level : Level) {units other : List Written}
    (h : Undecided units) (hperm : other.Perm units)
    (hlast : (directoriesOf other).getLast? = (directoriesOf units).getLast?) :
    Undecided other ∧ gathered env level other = gathered env level units := by
  -- At most one path has only one order.
  have hpaths : pathsOf other = pathsOf units := by
    have hpathsPerm : (pathsOf other).Perm (pathsOf units) := hperm.filterMap Written.path?
    have hlength := h.2
    match hunits : pathsOf units with
    | [] =>
        rw [hunits] at hpathsPerm
        exact hpathsPerm.eq_nil
    | [path] =>
        rw [hunits] at hpathsPerm
        exact hpathsPerm.eq_singleton
    | _ :: _ :: _ =>
        rw [hunits, List.length_cons, List.length_cons] at hlength
        omega
  refine ⟨⟨?_, ?_⟩, ?_⟩
  · intro unit hunit
    exact h.1 unit (hperm.mem_iff.mp hunit)
  · rw [hpaths]
    exact h.2
  · rw [gathered, gathered, hpaths, hlast, hperm.any_eq, hperm.any_eq]

/-- A command line asks for what the rules say, and is refused in their words. If no unit of it decides, its units can be
put in any other order that has the same directory last. -/
theorem read_follows_units (env : String → Option String) (args : List String) :
    (∀ answer, (Request.read env args).mapError Rejection.message = answer ↔ Asks env (unitsOf args) answer) ∧
    ∀ other, Undecided (unitsOf args) → (unitsOf other).Perm (unitsOf args) →
      (directoriesOf (unitsOf other)).getLast? = (directoriesOf (unitsOf args)).getLast? →
      Request.read env other = Request.read env args := by
  refine ⟨fun answer => ⟨fun hread => ?_, Asks.read_eq⟩, fun other hundecided hperm hlast => ?_⟩
  · obtain ⟨asked, hasks⟩ := exists_asks env (unitsOf args)
    rw [← hread, hasks.read_eq]
    exact hasks
  · rcases default_cases env with ⟨level, hdefault⟩ | ⟨text, henv, hunnamed⟩
    · obtain ⟨hother, hsame⟩ := gathered_perm env level hundecided hperm hlast
      rw [read_of_default_of_undecided hdefault hother, read_of_default_of_undecided hdefault hundecided, hsame]
    · rw [read_of_unnamed henv hunnamed, read_of_unnamed henv hunnamed]

/-- An environment that asks for a level and a directory. -/
def warnedEnv : String → Option String
  | "SML_LOG" => some "WaRn"
  | "SML_DIR" => some "base"
  | _ => none

/-- A directory that looks like a flag, a hyphen as the path, and the empty text as a second path in front of a plea
for help; and a command line without the latter two, in another order. -/
theorem read_follows_units_of_swallowed_flag :
    Asks warnedEnv (unitsOf ["-d", "-h", "-", "-q", "", "--help"]) (.error "unexpected argument: ") ∧
    Asks warnedEnv (unitsOf ["-d", "-h", "-", "-q"]) (.ok (.run {
      source := "-", directory? := some "-h", quiet := true, level := .warn })) ∧
    Request.read warnedEnv ["-q", "-", "-d", "-h"] = Request.read warnedEnv ["-d", "-h", "-", "-q"] := by
  have hrun : (Request.read warnedEnv ["-d", "-h", "-", "-q"]).mapError Rejection.message = .ok (.run {
      source := "-", directory? := some "-h", quiet := true, level := .warn }) := by decide +kernel
  have hasks := ((read_follows_units warnedEnv ["-d", "-h", "-", "-q"]).1 _).mp hrun
  have hundecided : Undecided (unitsOf ["-d", "-h", "-", "-q"]) := by
    cases hasks with
    | settled default place undecided settles => cases settles
    | run default undecided paths => exact undecided
  refine ⟨((read_follows_units warnedEnv _).1 _).mp (by decide +kernel), hasks, ?_⟩
  exact (read_follows_units warnedEnv ["-d", "-h", "-", "-q"]).2 _ hundecided (by decide) (by decide)

end RegAsm.Command
