import MiniLisp.Proofs.Session.Safety

/-! # When a console starts

Of the settings only two can keep a console from starting: a history file below a home that is not
known, and a history length that is a number but larger than can be kept. Every other value is taken
as it is or counts as its default, and the console holds its conversation to the end, whatever it
finds where its history is kept.
-/

namespace MiniLisp

/-! ## Homes -/

namespace Path

variable (homes : Homes) (path : Path)

/-- A relative path from a home that is not known or that is itself to be replaced. -/
def Homeless : Prop :=
  path.root = "" ∧ ∃ user below, path.parts = ("~" ++ user) :: below ∧
    ∀ directory, homes.of? user = some directory → ∃ more, directory = "~" ++ more

theorem toList_eq_tilde_iff {text : String} {cs : List Char} :
    text.toList = '~' :: cs ↔ text = "~" ++ String.ofList cs := by
  rw [← String.toList_inj]
  simp

theorem isPrefixOf_tilde_iff {text : String} :
    "~".toList.isPrefixOf text.toList = true ↔ ∃ more, text = "~" ++ more := by
  rw [List.isPrefixOf_iff_prefix]
  constructor
  · rintro ⟨cs, whole⟩
    exact ⟨_, toList_eq_tilde_iff.mp whole.symm⟩
  · rintro ⟨more, rfl⟩
    exact ⟨more.toList, by simp⟩

variable {homes path}

theorem expandHome?_of_tilde {user : String} {below : List String} (relative : path.root = "")
    (parts : path.parts = ("~" ++ user) :: below) :
    path.expandHome? homes = (homes.of? user).bind fun directory =>
      if "~".toList.isPrefixOf directory.toList then none
      else some ⟨(ofHome directory).root, (ofHome directory).parts ++ below⟩ := by
  have empty : path.root.isEmpty = true := by simp [relative]
  have chars : ("~" ++ user).toList = '~' :: user.toList := by simp
  unfold expandHome?
  rw [empty, parts]
  dsimp only
  rw [chars]
  simp only [String.ofList_toList]
  cases homes.of? user <;> rfl

/-- A path that does not start from a home is left as it is. -/
theorem expandHome?_of_no_tilde
    (h : path.root = "" → ∀ user below, path.parts ≠ ("~" ++ user) :: below) :
    path.expandHome? homes = some path := by
  unfold expandHome?
  split
  case h_1 root first below relative parts =>
    split
    case h_1 user chars =>
      have named := toList_eq_tilde_iff.mp chars
      exact absurd (named ▸ parts) (h (by simpa using relative) _ below)
    case h_2 => rfl
  case h_2 => rfl

theorem expandHome?_eq_none_iff :
    path.expandHome? homes = none ↔ path.Homeless homes := by
  by_cases h : path.root = "" ∧ ∃ user below, path.parts = ("~" ++ user) :: below
  · obtain ⟨relative, user, below, parts⟩ := h
    have homeless : path.Homeless homes ↔ ∀ directory,
        homes.of? user = some directory → ∃ more, directory = "~" ++ more := by
      constructor
      · rintro ⟨_, user', below', parts', unknown⟩
        have same : "~" ++ user = "~" ++ user' := (List.cons.inj (parts.symm.trans parts')).1
        rw [show user = user' by simpa using same]
        exact unknown
      · exact fun unknown => ⟨relative, user, below, parts, unknown⟩
    rw [homeless, expandHome?_of_tilde relative parts]
    cases homes.of? user with
    | none => simp
    | some directory => simp [← isPrefixOf_tilde_iff]
  · have kept : path.expandHome? homes = some path := expandHome?_of_no_tilde
      fun relative user below parts => h ⟨relative, user, below, parts⟩
    have homed : ¬ path.Homeless homes :=
      fun ⟨relative, user, below, parts, _⟩ => h ⟨relative, user, below, parts⟩
    rw [kept]
    simp [homed]

end Path

/-! ## Settings -/

namespace Settings

variable (env : Environment) (default : String) (homes : Homes)

def askedLength? : Option Int := Text.integer? ((env "QUILL_HISTORY_LENGTH").getD "")

def AsksTooMuch : Prop := ∃ n, askedLength? env = some n ∧ 2147483647 < n

/-- The environment names a history file below a home that is not known. -/
def NamesUnknownHome : Prop :=
  ∃ raw, env "QUILL_HISTORY_FILE" = some raw ∧ Text.strip raw ≠ "" ∧
    (Path.ofString (Text.strip raw)).Homeless (homesIn env homes)

/-- What the settings are, by the variables that are set: each is taken from the environment, or is
its default if it is not set or makes no sense. -/
structure Setup.Follows (setup : Setup) : Prop where
  noFile : env "QUILL_HISTORY_FILE" = none → setup.historyFile = some default
  blankFile : ∀ raw, env "QUILL_HISTORY_FILE" = some raw → Text.strip raw = "" →
    setup.historyFile = none
  namedFile : ∀ raw, env "QUILL_HISTORY_FILE" = some raw → Text.strip raw ≠ "" →
    ∃ path, (Path.ofString (Text.strip raw)).expandHome? (homesIn env homes) = some path ∧
      setup.historyFile = some path.text
  length : ∀ n, askedLength? env = some n → 0 < n → (setup.historyLength : Int) = n
  noLength : (∀ n, askedLength? env = some n → n ≤ 0) → setup.historyLength = 1000
  prompt : setup.prompt = (env "QUILL_PROMPT").getD ">> "
  level : ∀ raw level, env "QUILL_LOG_LEVEL" = some raw →
    (Text.upper (Text.strip raw), level) ∈ levelNames → setup.logLevel = level
  noLevel : (∀ raw, env "QUILL_LOG_LEVEL" = some raw →
    ∀ level, (Text.upper (Text.strip raw), level) ∉ levelNames) → setup.logLevel = 30

variable {env homes}

theorem historyFile_of_named {raw : String} (set : env "QUILL_HISTORY_FILE" = some raw)
    (named : Text.strip raw ≠ "") :
    (∃ path, (Path.ofString (Text.strip raw)).expandHome? (homesIn env homes) = some path ∧
        historyFile env default homes = .ok (some path.text)) ∨
      (Path.ofString (Text.strip raw)).Homeless (homesIn env homes) ∧
        historyFile env default homes = .error ⟨⟩ := by
  have filled : ¬ (Text.strip raw).isEmpty = true := by simpa using named
  unfold historyFile
  rw [set]
  dsimp only
  rw [if_neg filled]
  cases expanded : (Path.ofString (Text.strip raw)).expandHome? (homesIn env homes) with
  | none => exact .inr ⟨Path.expandHome?_eq_none_iff.mp expanded, rfl⟩
  | some path => exact .inl ⟨path, rfl, rfl⟩

theorem historyFile_of_blank {raw : String} (set : env "QUILL_HISTORY_FILE" = some raw)
    (blank : Text.strip raw = "") : historyFile env default homes = .ok none := by
  unfold historyFile
  rw [set]
  dsimp only
  rw [blank]
  rfl

theorem historyFile_of_unset (unset : env "QUILL_HISTORY_FILE" = none) :
    historyFile env default homes = .ok (some default) := by
  rw [historyFile, unset]

/-- The history file is refused exactly for want of a home. -/
theorem historyFile_eq_error_iff :
    historyFile env default homes = .error ⟨⟩ ↔ NamesUnknownHome env homes := by
  cases set : env "QUILL_HISTORY_FILE" with
  | none => simp [historyFile_of_unset default set, NamesUnknownHome, set]
  | some raw =>
      by_cases blank : Text.strip raw = ""
      · simp [historyFile_of_blank default set blank, NamesUnknownHome, set, blank]
      · have unknown : NamesUnknownHome env homes ↔
            (Path.ofString (Text.strip raw)).Homeless (homesIn env homes) := by
          simp [NamesUnknownHome, set, blank]
        rw [unknown]
        rcases historyFile_of_named default set blank with
          ⟨path, expanded, file⟩ | ⟨homeless, file⟩
        · rw [file, ← Path.expandHome?_eq_none_iff, expanded]
          simp
        · exact iff_of_true file homeless

theorem historyLength_of_positive {n : Int} (asked : askedLength? env = some n) (positive : 0 < n) :
    (historyLength env : Int) = n := by
  obtain ⟨m, rfl⟩ : ∃ m : Nat, n = Int.ofNat (m + 1) := ⟨n.toNat - 1, by simp; omega⟩
  unfold askedLength? at asked
  rw [historyLength, asked]
  rfl

theorem historyLength_of_no_positive (h : ∀ n, askedLength? env = some n → n ≤ 0) :
    historyLength env = 1000 := by
  unfold historyLength
  split
  case h_1 n asked => exact absurd (h _ asked) (by simp)
  case h_2 => rfl

/-- Only a number can be too long a history; what is no positive number is the default. -/
theorem historyLength_le_iff : historyLength env ≤ maxHistoryLength ↔ ¬ AsksTooMuch env := by
  by_cases h : ∃ n, askedLength? env = some n ∧ 0 < n
  · obtain ⟨n, asked, positive⟩ := h
    have length := historyLength_of_positive asked positive
    have tooMuch : AsksTooMuch env ↔ 2147483647 < n := by simp [AsksTooMuch, asked]
    have most : maxHistoryLength = 2147483647 := rfl
    rw [tooMuch]
    omega
  · have unusable : ∀ n, askedLength? env = some n → n ≤ 0 := by
      intro n asked
      by_contra positive
      exact h ⟨n, asked, by omega⟩
    rw [historyLength_of_no_positive unusable]
    refine iff_of_true (by decide) ?_
    rintro ⟨n, asked, larger⟩
    have := unusable n asked
    omega

theorem logLevel_of_known {raw : String} {level : Nat} (set : env "QUILL_LOG_LEVEL" = some raw)
    (known : (Text.upper (Text.strip raw), level) ∈ levelNames) : logLevel env = level := by
  have distinct : ∀ entry ∈ levelNames, levelNames.lookup entry.1 = some entry.2 := by decide
  rw [logLevel, set]
  dsimp only
  rw [distinct _ known]
  rfl

theorem logLevel_of_unknown (h : ∀ raw, env "QUILL_LOG_LEVEL" = some raw →
    ∀ level, (Text.upper (Text.strip raw), level) ∉ levelNames) : logLevel env = 30 := by
  cases set : env "QUILL_LOG_LEVEL" with
  | none => rw [logLevel, set]; rfl
  | some raw =>
      have unknown : levelNames.lookup (Text.upper (Text.strip raw)) = none := by
        refine List.lookup_eq_none_iff.mpr fun entry member => ?_
        have other : Text.upper (Text.strip raw) ≠ entry.1 :=
          fun same => h raw set entry.2 (same ▸ member)
        simpa using other
      rw [logLevel, set]
      dsimp only
      rw [unknown]
      rfl

/-! ## All settings together -/

variable (env homes) in
/-- There are two reasons for a console not to start; otherwise it has all its settings. -/
theorem setup_cases :
    (NamesUnknownHome env homes ∧ setup env default homes = .error .unknownHome) ∨
    (¬ NamesUnknownHome env homes ∧ AsksTooMuch env ∧
      setup env default homes = .error .historyTooLong) ∨
    (¬ NamesUnknownHome env homes ∧ ¬ AsksTooMuch env ∧
      ∃ s, setup env default homes = .ok s ∧
        historyFile env default homes = .ok s.historyFile ∧
        s.historyLength = historyLength env ∧ s.prompt = prompt env ∧ s.logLevel = logLevel env) := by
  unfold setup
  cases file : historyFile env default homes with
  | error fault => exact .inl ⟨(historyFile_eq_error_iff default).mp file, rfl⟩
  | ok file' =>
      have homed : ¬ NamesUnknownHome env homes := by
        rw [← historyFile_eq_error_iff default, file]
        simp
      dsimp only
      by_cases fits : historyLength env ≤ maxHistoryLength
      · rw [dif_pos fits]
        exact .inr (.inr ⟨homed, historyLength_le_iff.mp fits, _, rfl, rfl, rfl, rfl, rfl⟩)
      · rw [dif_neg fits]
        rw [historyLength_le_iff, not_not] at fits
        exact .inr (.inl ⟨homed, fits, rfl⟩)

theorem setup_eq_unknownHome_iff :
    setup env default homes = .error .unknownHome ↔ NamesUnknownHome env homes := by
  rcases setup_cases env default homes with
    ⟨named, refused⟩ | ⟨homed, _, refused⟩ | ⟨homed, _, s, starts, _⟩
  · exact iff_of_true refused named
  · exact iff_of_false (by simp [refused]) homed
  · exact iff_of_false (by simp [starts]) homed

theorem setup_eq_historyTooLong_iff :
    setup env default homes = .error .historyTooLong ↔
      ¬ NamesUnknownHome env homes ∧ AsksTooMuch env := by
  rcases setup_cases env default homes with
    ⟨named, refused⟩ | ⟨homed, tooMuch, refused⟩ | ⟨_, fits, s, starts, _⟩
  · exact iff_of_false (by simp [refused]) fun h => h.1 named
  · exact iff_of_true refused ⟨homed, tooMuch⟩
  · exact iff_of_false (by simp [starts]) fun h => fits h.2

theorem Setup.follows {s : Setup} (starts : setup env default homes = .ok s) :
    s.Follows env default homes := by
  rcases setup_cases env default homes with
    ⟨_, refused⟩ | ⟨_, _, refused⟩ | ⟨_, _, s', starts', file, length, prompt, level⟩
  · rw [refused] at starts
    cases starts
  · rw [refused] at starts
    cases starts
  · rw [starts'] at starts
    cases starts
    constructor
    case noFile =>
      intro unset
      rw [historyFile_of_unset default unset] at file
      exact (Except.ok.inj file).symm
    case blankFile =>
      intro raw set blank
      rw [historyFile_of_blank default set blank] at file
      exact (Except.ok.inj file).symm
    case namedFile =>
      intro raw set named
      rcases historyFile_of_named default set named with ⟨path, expanded, found⟩ | ⟨_, refused⟩
      · rw [found] at file
        exact ⟨path, expanded, (Except.ok.inj file).symm⟩
      · rw [refused] at file
        cases file
    case length =>
      intro n asked positive
      rw [length, historyLength_of_positive asked positive]
    case noLength =>
      intro unusable
      rw [length, historyLength_of_no_positive unusable]
    case prompt => exact prompt
    case level =>
      intro raw level' set known
      rw [level, logLevel_of_known set known]
    case noLevel =>
      intro unknown
      rw [level, logLevel_of_unknown unknown]

end Settings

/-! ## The console -/

/-- Settings keep a console from starting in two cases and in no other, and then nothing is written,
logged or saved. Otherwise every setting follows the environment or is its default, and the
conversation is held to its end. -/
theorem Console.starts_unless_unusable (env : Environment) (default : String)
    (homes : Homes) (history : History) (input : String) (ending : Ending) :
    (Settings.setup env default homes = .error .unknownHome ↔
      Settings.NamesUnknownHome env homes) ∧
    (Settings.setup env default homes = .error .historyTooLong ↔
      ¬ Settings.NamesUnknownHome env homes ∧ Settings.AsksTooMuch env) ∧
    (∀ refusal, Settings.setup env default homes = .error refusal →
      run env default history input ending homes = ⟨"", [], history, .error refusal⟩) ∧
    ∀ setup, Settings.setup env default homes = .ok setup →
      setup.Follows env default homes ∧
      (run env default history input ending homes).historyLength = .ok setup.historyLength ∧
      ∃ opening dialogue, (opening = "" ∨ opening = missingHistory) ∧
        dialogue = Dialogue.hold { verbose := verboseAt setup.logLevel }
          ((splitLines input).map Text.strip) ∧
        dialogue.brokenBy = none ∧
        (run env default history input ending homes).screen =
          opening ++ dialogue.screen setup.prompt ending := by
  refine ⟨Settings.setup_eq_unknownHome_iff default, Settings.setup_eq_historyTooLong_iff default,
    fun refusal refused => ?_, fun setup starts => ⟨Settings.Setup.follows default starts, ?_⟩⟩
  · rw [run, refused]
  · unfold run
    rw [starts]
    exact ⟨rfl, _, _, (ite_eq_or_eq _ _ _).symm, rfl, (Dialogue.hold_outcome _ _ .builtin).1, rfl⟩

/-- With one more entry than can be kept, or a file below the home of a user that is not known, a
console does not start, as it does without these settings. -/
theorem Console.refuses_long_history_and_unknown_user :
    Settings.setup (fun name => if name = "QUILL_HISTORY_LENGTH" then some "2147483648" else none)
        "/home/quill/.quill_history" = .error .historyTooLong ∧
      Settings.setup
        (fun name => if name = "QUILL_HISTORY_FILE" then some "~nobody_here/history" else none)
        "/home/quill/.quill_history" = .error .unknownHome ∧
      (Settings.setup (fun _ => none) "/home/quill/.quill_history").isOk = true :=
  ⟨by rfl, by rfl, by rfl⟩

end MiniLisp
