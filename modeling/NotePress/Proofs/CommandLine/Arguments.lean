import NotePress.CommandLine

/-!
# The command lines that are understood

A command line is understood when it names one source, with settings files before
and after it, each behind the option for it, which takes the next argument
whatever that looks like. Of any other command line the first argument that is not
understood is complained of, and only where there is none is a source missed
(`ofList_exact`).
-/

namespace NotePress
namespace CommandLine

/-! ## What arguments name -/

/-- The arguments that name settings files. -/
def settingsArguments (paths : List String) : List String :=
  paths.flatMap fun path => [settingsOption, path]

theorem settingsArguments_append (first second : List String) :
    settingsArguments (first ++ second) =
      settingsArguments first ++ settingsArguments second :=
  List.flatMap_append

/-- Arguments of which each is understood where it stands, with the source, if
there is one yet, and the settings files that they name. -/
inductive Names : List String → Option String → List String → Prop
  | unsourced (paths : List String) :
      Names (settingsArguments paths) none paths
  | sourced (before after : List String) :
      isOption source = false →
      Names (settingsArguments before ++ source :: settingsArguments after)
        (some source) (before ++ after)

/-- What is wrong with an argument, given the source that those before it name and
the arguments after it. -/
inductive Fault : Option String → String → List String → ArgumentError → Prop
  | missingPath : Fault source settingsOption [] .missingPath
  | unknownOption :
      isOption argument = true →
      argument ≠ settingsOption →
      Fault source argument others (.unknownOption argument)
  | unexpected :
      isOption argument = false →
      Fault (some source) argument others (.unexpected argument)

/-- Something is wrong with an argument, and nothing with those before it. -/
inductive FirstFault : List String → ArgumentError → Prop
  | intro :
      Names front source paths →
      Fault source argument others error →
      FirstFault (front ++ argument :: others) error

theorem isOption_settingsOption : isOption settingsOption = true := by
  decide

/-- What is not written like an option is not the option for settings. -/
theorem ne_settingsOption (notOption : isOption argument = false) :
    argument ≠ settingsOption := by
  rintro rfl
  rw [isOption_settingsOption] at notOption
  cases notOption

namespace Names

/-- One more settings file is named. -/
theorem andSettings
    (names : Names front source paths)
    (path : String) :
    Names (front ++ [settingsOption, path]) source (paths ++ [path]) := by
  have added (before : List String) :
      settingsArguments before ++ [settingsOption, path] =
        settingsArguments (before ++ [path]) := by
    rw [settingsArguments_append]
    rfl
  cases names with
  | unsourced paths =>
      rw [added]
      exact .unsourced _
  | sourced before after notOption =>
      rw [List.append_assoc, List.cons_append, added, List.append_assoc]
      exact .sourced before _ notOption

/-- The source is named. -/
theorem andSource
    (names : Names front none paths)
    (notOption : isOption source = false) :
    Names (front ++ [source]) (some source) paths := by
  cases names with
  | unsourced =>
      have named := Names.sourced paths [] notOption
      rwa [List.append_nil] at named

end Names

/-- Behind arguments that are understood, all others are, or there is a first
fault. -/
theorem Names.names_or_firstFault
    (names : Names front source paths)
    (others : List String) :
    (∃ source paths, Names (front ++ others) source paths) ∨
      ∃ error, FirstFault (front ++ others) error := by
  match others with
  | [] =>
      rw [List.append_nil]
      exact .inl ⟨source, paths, names⟩
  | argument :: others =>
      by_cases isSettings : argument = settingsOption
      · subst isSettings
        match others with
        | [] => exact .inr ⟨_, .intro names .missingPath⟩
        | path :: others =>
            have next := (names.andSettings path).names_or_firstFault others
            rwa [List.append_assoc] at next
      by_cases option : isOption argument = true
      · exact .inr ⟨_, .intro names (.unknownOption option isSettings)⟩
      have notOption : isOption argument = false := by simpa using option
      match source with
      | none =>
          have next := (names.andSource notOption).names_or_firstFault others
          rwa [List.append_assoc] at next
      | some source => exact .inr ⟨_, .intro names (.unexpected notOption)⟩
termination_by others.length

/-- Every command line is understood as a whole or has a first fault. -/
theorem names_or_firstFault (arguments : List String) :
    (∃ source paths, Names arguments source paths) ∨
      ∃ error, FirstFault arguments error :=
  (Names.unsourced []).names_or_firstFault arguments

/-! ## What is read off them -/

/-- Of settings files in a row, the last one is kept. -/
theorem readAfter_settingsArguments
    (source settings : Option Path)
    (paths others : List String) :
    Arguments.readAfter source settings (settingsArguments paths ++ others) =
      Arguments.readAfter source ((paths.getLast?.map Path.mk).or settings)
        others := by
  induction paths generalizing settings with
  | nil => rfl
  | cons path paths inductionHypothesis =>
      have step : Arguments.readAfter source settings
          (settingsArguments (path :: paths) ++ others) =
            Arguments.readAfter source (some ⟨path⟩)
              (settingsArguments paths ++ others) := by
        rw [settingsArguments, List.flatMap_cons, List.append_assoc,
          ← settingsArguments]
        exact if_pos rfl
      rw [step, inductionHypothesis, List.getLast?_cons]
      cases paths.getLast? <;> rfl

/-- An argument that is no option is the source, unless there is one. -/
theorem readAfter_of_not_option
    (notOption : isOption argument = false)
    (source settings : Option Path)
    (others : List String) :
    Arguments.readAfter source settings (argument :: others) =
      match source with
      | some _ => .error (.unexpected argument)
      | none => Arguments.readAfter (some ⟨argument⟩) settings others := by
  rw [Arguments.readAfter.eq_def]
  cases source <;> simp [ne_settingsOption notOption, notOption]

/-- Arguments that are understood leave what they name for those after them. -/
theorem Names.readAfter
    (names : Names front source paths)
    (others : List String) :
    Arguments.readAfter none none (front ++ others) =
      Arguments.readAfter (source.map Path.mk) (paths.getLast?.map Path.mk)
        others := by
  cases names with
  | unsourced =>
      rw [readAfter_settingsArguments, Option.or_none, Option.map_none]
  | sourced before after notOption =>
      rw [List.append_assoc, readAfter_settingsArguments, List.cons_append,
        readAfter_of_not_option notOption]
      simp only
      rw [readAfter_settingsArguments, Option.or_none, List.getLast?_append]
      cases after.getLast? <;> rfl

/-- An argument with a fault stops the reading with its error. -/
theorem Fault.readAfter
    (fault : Fault source argument others error)
    (settings : Option Path) :
    Arguments.readAfter (source.map Path.mk) settings (argument :: others) =
      .error error := by
  cases fault with
  | missingPath => rfl
  | unknownOption option other =>
      unfold Arguments.readAfter
      rw [if_neg other, if_pos option]
  | unexpected notOption => rw [readAfter_of_not_option notOption]; rfl

/-- The first fault is what is complained of. -/
theorem FirstFault.ofList (fault : FirstFault arguments error) :
    Arguments.ofList arguments = .error error := by
  cases fault with
  | intro names fault =>
      rw [Arguments.ofList, names.readAfter, fault.readAfter]

/-- Arguments that are understood ask for their source, with the last settings file. -/
theorem Names.ofList
    (names : Names arguments source paths) :
    Arguments.ofList arguments =
      match source with
      | some source => .ok ⟨⟨source⟩, paths.getLast?.map Path.mk⟩
      | none => .error .missingSource := by
  have read := names.readAfter []
  rw [List.append_nil, ← Arguments.ofList] at read
  rw [read]
  cases source <;> rfl

/-- Arguments are understood exactly when they are one source among settings files. -/
theorem ofList_eq_ok_iff
    (arguments : List String)
    (asked : Arguments) :
    Arguments.ofList arguments = .ok asked ↔
      ∃ before source after,
        arguments =
          settingsArguments before ++ source :: settingsArguments after ∧
        isOption source = false ∧
        asked = ⟨⟨source⟩, (before ++ after).getLast?.map Path.mk⟩ := by
  constructor
  · intro read
    rcases names_or_firstFault arguments with
      ⟨source, paths, names⟩ | ⟨error, fault⟩
    · rw [names.ofList] at read
      cases names with
      | unsourced => cases read
      | sourced before after notOption =>
          exact ⟨before, _, after, rfl, notOption, (Except.ok.inj read).symm⟩
    · rw [fault.ofList] at read
      cases read
  · rintro ⟨before, source, after, rfl, notOption, rfl⟩
    exact (Names.sourced before after notOption).ofList

/-- Arguments are refused for their first fault, or for a source that is missing. -/
theorem ofList_eq_error_iff
    (arguments : List String)
    (error : ArgumentError) :
    Arguments.ofList arguments = .error error ↔
      FirstFault arguments error ∨
      error = .missingSource ∧
        ∃ paths, arguments = settingsArguments paths := by
  constructor
  · intro read
    rcases names_or_firstFault arguments with
      ⟨source, paths, names⟩ | ⟨other, fault⟩
    · rw [names.ofList] at read
      cases names with
      | unsourced =>
          exact .inr ⟨(Except.error.inj read).symm, paths, rfl⟩
      | sourced before after notOption => cases read
    · rw [fault.ofList] at read
      cases read
      exact .inl fault
  · rintro (fault | ⟨rfl, paths, rfl⟩)
    · exact fault.ofList
    · exact (Names.unsourced paths).ofList

/-- What follows the name of the program is understood exactly when it is one
source, which is not written like an option, among settings files behind their
option; it asks for this source with the last of the settings files. Otherwise the
first argument with a fault is told, whatever comes after it, or the source is
missed when there are settings files only. -/
theorem ofList_exact (commandLine : List String) :
    (∀ asked, Arguments.ofList commandLine.tail = .ok asked ↔
      ∃ before source after,
        commandLine.tail =
          settingsArguments before ++ source :: settingsArguments after ∧
        isOption source = false ∧
        asked = ⟨⟨source⟩, (before ++ after).getLast?.map Path.mk⟩) ∧
    ∀ error, Arguments.ofList commandLine.tail = .error error ↔
      FirstFault commandLine.tail error ∨
      error = .missingSource ∧
        ∃ paths, commandLine.tail = settingsArguments paths :=
  ⟨ofList_eq_ok_iff commandLine.tail, ofList_eq_error_iff commandLine.tail⟩

/-- The option takes the next argument, even if that is written like it. -/
example :
    Arguments.ofList ["--config", "--config", "a", "--config", "b"] =
      .ok ⟨⟨"a"⟩, some ⟨"b"⟩⟩ :=
  rfl

end CommandLine
end NotePress
