import Mathlib.Data.List.DropRight
import Mathlib.Data.List.TakeDrop
import SolutionLibrary.Library.Loop
import SolutionLibrary.Library.Streams
import SolutionLibrary.Transcoder.Pipeline

open solution_library.loop
open solution_library.store
open solution_library.streams

namespace solution_library.transcoder

def CFG_PARAM_CONFIG : Bytes :=
  ascii "config"

def CFG_PARAM_AUDIO_SOURCE : Bytes :=
  ascii "audio-source"

def ws : Bytes :=
  ascii " \t\n\r\x0c\x0b"

def newline : Byte := ⟨10, by decide⟩

def sharp : Byte := ⟨35, by decide⟩

def equals : Byte := ⟨61, by decide⟩

def rtrim (s : Bytes) : Bytes :=
  s.rdropWhile (· ∈ ws)

def ltrim (s : Bytes) : Bytes :=
  s.dropWhile (· ∈ ws)

/-- Right, then left. -/
def trim (s : Bytes) : Bytes :=
  ltrim (rtrim s)

/-- The options with a value, and whether it is there. -/
def add_option (options : Config) (option_name option_value : Bytes) : Config × Bool :=
  (options.put (trim option_name) (trim option_value), decide (trim option_value ≠ []))

def parse_config_option (options : Config) (config_option_line : Bytes) : Config × Bool :=
  match ltrim config_option_line with
  | [] => (options, false)
  | first :: others =>
    if first = sharp then (options, false)
    else
      match getline equals ⟨first :: others, false⟩ with
      | none => (options, false)
      | some (config_option_name, is_option) =>
        match getline newline is_option with
        | none => (options, false)
        | some (config_option_value, _) => add_option options config_option_name config_option_value

/-- The loop over the lines of the file, whose results are not looked at. -/
def parse_lines (options : Config) (lines : List Bytes) : Config :=
  lines.foldl (fun options line => (parse_config_option options line).1) options

/-- A `char *` ends at its first zero byte. -/
def c_str (s : Bytes) : Bytes :=
  s.takeWhile (·.val ≠ 0)

/-- The file that an option names. The option is inserted when it is missing. -/
def config_file (options : Config) : Bytes :=
  c_str ((options.get CFG_PARAM_CONFIG).getD [])

def parse_config (files : Bytes → Option Bytes) (options : Config) : Config × Bool :=
  match files (config_file options) with
  | none => (subscript options CFG_PARAM_CONFIG, false)
  | some text => (parse_lines (subscript options CFG_PARAM_CONFIG) (getlines newline text), true)

/-- The loop over the command line, which ends at the first option that is not accepted. -/
def parse_arguments (arguments : List Bytes) : Config × Bool :=
  forEach (fun options argument =>
    let (options, parsed) := parse_config_option options argument
    (options, !parsed)) Store.empty arguments

/-- The pipeline that a run starts, and its exit code. -/
structure Execution where
  pipeline : Option Bytes
  exit_code : ℤ
  deriving DecidableEq

/-- A run, with the arguments after the name of the program. An error in an argument is not looked at before the pipeline
has been started. -/
def main (files : Bytes → Option Bytes) (arguments : List Bytes) : Execution :=
  if arguments.length < 2 then ⟨none, -1⟩
  else
    let (options, error) := parse_arguments arguments
    if options.entries.length < 2 then ⟨none, -1⟩
    else
      match parse_config files options with
      | (_, false) => ⟨none, -1⟩
      | (options, true) =>
        ⟨some (make_pipeline_string options ((options.get CFG_PARAM_AUDIO_SOURCE).getD [])), if error then -1 else 0⟩

/-- The option that a line sets: what stands before its first equals sign, and after it up to a line feed. A comment sets
none, and neither does a line that ends with its equals sign. -/
def assigned (line : Bytes) : Option (Bytes × Bytes) :=
  if (ltrim line).head? = some sharp then none
  else
    match (ltrim line).span (· ≠ equals) with
    | (name, _ :: c :: value) => some (trim name, trim ((c :: value).takeWhile (· ≠ newline)))
    | _ => none

/-- The value of the last line that sets an option. -/
def lastAssigned (lines : List Bytes) (name : Bytes) : Option Bytes :=
  ((lines.filterMap assigned).reverse.find? (·.1 = name)).map Prod.snd

/-- A line is accepted if it sets an option to a value that is not empty. -/
def accepted (line : Bytes) : Bool :=
  match assigned line with
  | none => false
  | some (_, value) => value ≠ []

/-- The arguments that are read: the first one that is not accepted is the last. -/
def readArguments : List Bytes → List Bytes
  | [] => []
  | argument :: arguments => argument :: if accepted argument then readArguments arguments else []

section options

variable {options : Config} {line name : Bytes} {lines : List Bytes}

theorem getline_newline {value : Bytes} (h : value ≠ []) :
    ∃ stream, getline newline ⟨value, false⟩ = some (value.takeWhile (· ≠ newline), stream) := by
  obtain hnone | ⟨before, rest, rfl, hbefore⟩ := exists_delim newline value
  · have htake : value.takeWhile (· ≠ newline) = value :=
      List.takeWhile_eq_self_iff.mpr fun c hc => decide_eq_true fun heq => hnone (heq ▸ hc)
    exact ⟨_, by rw [getline_of_not_mem hnone h, htake]⟩
  · have hall : ∀ c ∈ before, (decide (c ≠ newline)) = true := fun c hc => decide_eq_true fun heq => hbefore (heq ▸ hc)
    have htake : (before ++ newline :: rest).takeWhile (· ≠ newline) = before := by
      rw [List.takeWhile_append_of_pos hall, List.takeWhile_cons_of_neg (by simp), List.append_nil]
    exact ⟨_, by rw [getline_append hbefore, htake]⟩

/-- A line with an equals sign is split at the first one. -/
theorem assigned_append {before after : Bytes} (hline : ltrim line = before ++ equals :: after) (h : equals ∉ before) :
    assigned line = if before.head? = some sharp ∨ after = [] then none
      else some (trim before, trim (after.takeWhile (· ≠ newline))) := by
  have hall : ∀ c ∈ before, (decide (c ≠ equals)) = true := fun c hc => decide_eq_true fun heq => h (heq ▸ hc)
  have hspan : (before ++ equals :: after).span (· ≠ equals) = (before, equals :: after) := by
    rw [List.span_eq_takeWhile_dropWhile, List.takeWhile_append_of_pos hall, List.dropWhile_append_of_pos hall,
      List.takeWhile_cons_of_neg (by simp), List.dropWhile_cons_of_neg (by simp), List.append_nil]
  have hhead : (before ++ equals :: after).head? = some sharp ↔ before.head? = some sharp := by
    cases before with
    | nil => exact ⟨fun heq => absurd (Option.some.inj heq) (by decide), fun heq => by cases heq⟩
    | cons c before => exact Iff.rfl
  rw [assigned, hline, hspan]
  simp only [hhead]
  cases after with
  | nil => simp
  | cons c after =>
    by_cases hsharp : before.head? = some sharp
    · simp [hsharp]
    · simp [hsharp]

theorem assigned_of_not_mem (h : equals ∉ ltrim line) : assigned line = none := by
  have hall : ∀ c ∈ ltrim line, (decide (c ≠ equals)) = true := fun c hc => decide_eq_true fun heq => h (heq ▸ hc)
  rw [assigned, List.span_eq_takeWhile_dropWhile, List.dropWhile_eq_nil_iff.mpr hall]
  split_ifs
  · rfl
  · rfl

/-- What `parse_config_option` does with any line. -/
theorem parse_config_option_eq (options : Config) (line : Bytes) :
    parse_config_option options line =
      match assigned line with
      | none => (options, false)
      | some (name, value) => (options.put name value, decide (value ≠ [])) := by
  rw [parse_config_option]
  obtain hnone | ⟨before, after, hsplit, hbefore⟩ := exists_delim equals (ltrim line)
  · rw [assigned_of_not_mem hnone]
    cases hline : ltrim line with
    | nil => rfl
    | cons first others =>
      rw [hline] at hnone
      dsimp only
      split_ifs with hsharp
      · rfl
      · rw [getline_of_not_mem hnone (List.cons_ne_nil _ _)]
        dsimp only
        rw [getline_of_eof]
  · rw [assigned_append hsplit hbefore, hsplit]
    obtain ⟨first, others, hcons⟩ :=
      List.exists_cons_of_ne_nil (List.append_ne_nil_of_right_ne_nil before (List.cons_ne_nil equals after))
    have hget := getline_append hbefore after
    rw [hcons] at hget ⊢
    dsimp only
    have hfirst : first = sharp ↔ before.head? = some sharp := by
      cases before with
      | nil =>
        obtain ⟨rfl, -⟩ := List.cons.inj hcons
        exact ⟨fun heq => absurd heq (by decide), fun heq => by cases heq⟩
      | cons c before =>
        obtain ⟨rfl, -⟩ := List.cons.inj hcons
        exact ⟨fun heq => by rw [heq]; rfl, fun heq => Option.some.inj heq⟩
    by_cases hsharp : first = sharp
    · rw [if_pos hsharp, if_pos (.inl (hfirst.mp hsharp))]
    · rw [if_neg hsharp, hget]
      dsimp only
      by_cases hnil : after = []
      · rw [hnil, getline_nil, if_pos (.inr rfl)]
      · obtain ⟨stream, hvalue⟩ := getline_newline hnil
        rw [hvalue, if_neg (not_or.mpr ⟨mt hfirst.mpr hsharp, hnil⟩)]
        rfl

theorem parse_config_option_accepted (options : Config) (line : Bytes) :
    (parse_config_option options line).2 = accepted line := by
  rw [parse_config_option_eq, accepted]
  cases assigned line with
  | none => rfl
  | some entry => rfl

theorem lastAssigned_cons (line : Bytes) (lines : List Bytes) (name : Bytes) :
    lastAssigned (line :: lines) name = (lastAssigned lines name).or (lastAssigned [line] name) := by
  rw [lastAssigned, lastAssigned, lastAssigned, ← List.singleton_append, List.filterMap_append, List.reverse_append,
    List.find?_append]
  cases (lines.filterMap assigned).reverse.find? (·.1 = name) with
  | none => rfl
  | some entry => rfl

theorem get_parse_config_option (options : Config) (line name : Bytes) :
    (parse_config_option options line).1.get name = (lastAssigned [line] name).or (options.get name) := by
  rw [parse_config_option_eq, lastAssigned]
  cases hline : assigned line with
  | none => simp [hline]
  | some entry =>
    by_cases hname : entry.1 = name
    · subst hname
      simp [hline]
    · simp [hline, hname, Store.get_put_of_ne _ _ (Ne.symm hname)]

/-- The last line that sets an option wins. -/
theorem get_parse_lines (options : Config) (lines : List Bytes) (name : Bytes) :
    (parse_lines options lines).get name = (lastAssigned lines name).or (options.get name) := by
  induction lines generalizing options with
  | nil => rfl
  | cons line lines ih =>
    have hstep : parse_lines options (line :: lines) = parse_lines (parse_config_option options line).1 lines := rfl
    rw [hstep, ih, get_parse_config_option, lastAssigned_cons line lines, Option.or_assoc]

/-- The arguments are read up to the first one that is not accepted. -/
theorem parse_arguments_eq (arguments : List Bytes) :
    parse_arguments arguments = (parse_lines Store.empty (readArguments arguments), !arguments.all accepted) := by
  have hloop (options : Config) : forEach (fun options argument =>
      let (options, parsed) := parse_config_option options argument
      (options, !parsed)) options arguments = (parse_lines options (readArguments arguments), !arguments.all accepted) := by
    induction arguments generalizing options with
    | nil => rfl
    | cons argument arguments ih =>
      have haccepted := parse_config_option_accepted options argument
      cases hargument : accepted argument with
      | true =>
        rw [hargument] at haccepted
        rw [forEach_cons (by simp [haccepted]), ih, readArguments, hargument, if_pos rfl, List.all_cons, hargument,
          Bool.true_and]
        rfl
      | false =>
        rw [hargument] at haccepted
        rw [forEach_cons_of_raised (by simp [haccepted]), readArguments, hargument, List.all_cons, hargument]
        dsimp only
        rw [haccepted]
        rfl
  exact hloop Store.empty

theorem two_le_length_iff (options : Config) : 2 ≤ options.entries.length ↔
    ∃ name other, name ≠ other ∧ (options.get name).isSome ∧ (options.get other).isSome := by
  have hmem (name : Bytes) : (options.get name).isSome ↔ name ∈ options.keys := by
    rw [Store.mem_keys_iff, Option.isSome_iff_exists]
  have hlength : options.keys.length = options.entries.length := List.length_map _
  have hnodup := options.nodup_keys
  simp only [hmem, ← hlength]
  generalize options.keys = keys at hnodup ⊢
  match keys with
  | [] =>
    refine ⟨fun hle => absurd hle (by simp), ?_⟩
    rintro ⟨name, other, -, hname, -⟩
    exact absurd hname List.not_mem_nil
  | [key] =>
    refine ⟨fun hle => absurd hle (by simp), ?_⟩
    rintro ⟨name, other, hne, hname, hother⟩
    exact absurd ((List.mem_singleton.mp hname).trans (List.mem_singleton.mp hother).symm) hne
  | first :: second :: rest =>
    have hne : first ≠ second := fun heq => (List.nodup_cons.mp hnodup).1 (heq ▸ List.mem_cons_self)
    refine ⟨fun _ => ?_, fun _ => by simp⟩
    exact ⟨first, second, hne, List.mem_cons_self, List.mem_cons_of_mem _ List.mem_cons_self⟩

theorem get_subscript (options : Config) (key name : Bytes) :
    (subscript options key).get name = (options.get name).or (if name = key then some [] else none) := by
  rw [subscript]
  by_cases hname : name = key
  · subst hname
    cases hget : options.get name with
    | none => simp
    | some value => simp [hget]
  · split_ifs with hsome
    · simp
    · rw [Store.get_put_of_ne _ _ hname]
      simp

/-- The options of a run: those of the file, over those of the arguments that are read. -/
def configured (arguments : List Bytes) (text : Bytes) : Config :=
  parse_lines (subscript (parse_lines Store.empty (readArguments arguments)) CFG_PARAM_CONFIG) (getlines newline text)

theorem get_arguments (arguments : List Bytes) (name : Bytes) :
    (parse_lines Store.empty (readArguments arguments)).get name = lastAssigned (readArguments arguments) name := by
  rw [get_parse_lines, Store.get_empty, Option.or_none]

theorem get_configured (arguments : List Bytes) (text name : Bytes) : (configured arguments text).get name =
    ((lastAssigned (getlines newline text) name).or (lastAssigned (readArguments arguments) name)).or
      (if name = CFG_PARAM_CONFIG then some [] else none) := by
  rw [configured, get_parse_lines, get_subscript, get_arguments, Option.or_assoc]

/-- The config file of a run. -/
def configPath (arguments : List Bytes) : Bytes :=
  c_str ((lastAssigned (readArguments arguments) CFG_PARAM_CONFIG).getD [])

theorem main_eq (files : Bytes → Option Bytes) (arguments : List Bytes) :
    main files arguments =
      if arguments.length < 2 ∨ (parse_lines Store.empty (readArguments arguments)).entries.length < 2 then ⟨none, -1⟩
      else
        match files (configPath arguments) with
        | none => ⟨none, -1⟩
        | some text => ⟨some (make_pipeline_string (configured arguments text)
            (((configured arguments text).get CFG_PARAM_AUDIO_SOURCE).getD [])),
            if arguments.all accepted then 0 else -1⟩ := by
  have hpath : config_file (parse_lines Store.empty (readArguments arguments)) = configPath arguments := by
    rw [config_file, get_arguments]
    rfl
  rw [main, parse_arguments_eq]
  by_cases hlength : arguments.length < 2
  · rw [if_pos hlength, if_pos (.inl hlength)]
  · rw [if_neg hlength]
    dsimp only
    by_cases htwo : (parse_lines Store.empty (readArguments arguments)).entries.length < 2
    · rw [if_pos htwo, if_pos (.inr htwo)]
    · rw [if_neg htwo, if_neg (not_or.mpr ⟨hlength, htwo⟩), parse_config, hpath]
      cases files (configPath arguments) with
      | none => rfl
      | some text =>
        cases arguments.all accepted with
        | true => rfl
        | false => rfl

end options

end solution_library.transcoder
