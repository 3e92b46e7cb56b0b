import Mathlib.Tactic.MkIffOfInductiveProp
import SolutionLibrary.Transcoder.Options

open solution_library.provenance
open solution_library.store
open solution_library.streams
open solution_library.substitution

namespace solution_library.transcoder

/-- An option as a line of the config file or an argument. -/
def optionLine (entry : Bytes × Bytes) : Bytes :=
  entry.1 ++ equals :: entry.2

/-- The config file with a line for each option. -/
def render (config : Config) : Bytes :=
  config.entries.flatMap fun entry => optionLine entry ++ [newline]

/-- An option whose line is read as it was written. -/
@[mk_iff] structure CleanOption (entry : Bytes × Bytes) : Prop where
  name_trimmed : trim entry.1 = entry.1
  equals_not_mem : equals ∉ entry.1
  newline_not_mem_name : newline ∉ entry.1
  uncommented : entry.1.head? ≠ some sharp
  value_trimmed : trim entry.2 = entry.2
  newline_not_mem_value : newline ∉ entry.2
  value_ne_nil : entry.2 ≠ []

/-- The value that the last of some options has under a name. -/
def lastOf (given : List (Bytes × Bytes)) (name : Bytes) : Option Bytes :=
  (given.reverse.find? (·.1 = name)).map Prod.snd

section trim

variable {s : Bytes} {c : Byte}

theorem ltrim_ltrim (s : Bytes) : ltrim (ltrim s) = ltrim s :=
  List.dropWhile_idempotent _ s

theorem ltrim_of_trimmed (h : trim s = s) : ltrim s = s := by
  rw [← h, trim, ltrim_ltrim]

theorem mem_of_mem_trim (h : c ∈ trim s) : c ∈ s :=
  (List.rdropWhile_prefix _ _).mem ((List.dropWhile_suffix _).mem h)

/-- What is left at the right end is no blank. -/
theorem rtrim_of_suffix {t : Bytes} (hsuffix : t <:+ rtrim s) : rtrim t = t := by
  refine List.rdropWhile_eq_self_iff.mpr fun hne => ?_
  obtain ⟨front, hfront⟩ := hsuffix
  have hnil : rtrim s ≠ [] := hfront ▸ List.append_ne_nil_of_right_ne_nil front hne
  have hlast : t.getLast hne = (rtrim s).getLast hnil := by
    simp only [← hfront, List.getLast_append_of_ne_nil _ hne]
  rw [hlast]
  exact List.rdropWhile_last_not (fun c => decide (c ∈ ws)) s hnil

theorem trim_trim (s : Bytes) : trim (trim s) = trim s := by
  have hright : rtrim (trim s) = trim s := rtrim_of_suffix (List.dropWhile_suffix _)
  conv_lhs => rw [trim, hright]
  rw [trim, ltrim_ltrim]

end trim

section lines

variable {config options : Config} {entry : Bytes × Bytes} {entries : List (Bytes × Bytes)} {line : Bytes}

/-- Blanks in front of an equals sign. -/
theorem ltrim_optionLine (h : trim entry.1 = entry.1) : ltrim (optionLine entry) = optionLine entry := by
  have hname := ltrim_of_trimmed h
  rw [ltrim, List.dropWhile_eq_self_iff] at hname ⊢
  intro hlength
  cases hnil : entry.1 with
  | nil =>
    have hequals : ¬decide (equals ∈ ws) = true := by decide
    simp only [optionLine, hnil]
    exact hequals
  | cons c name =>
    rw [hnil] at hname
    simp only [optionLine, hnil]
    exact hname (by simp)

theorem assigned_optionLine (h : CleanOption entry) : assigned (optionLine entry) = some entry := by
  have hvalue : entry.2.takeWhile (· ≠ newline) = entry.2 :=
    List.takeWhile_eq_self_iff.mpr fun c hc => decide_eq_true fun heq => h.newline_not_mem_value (heq ▸ hc)
  rw [assigned_append (ltrim_optionLine h.name_trimmed) h.equals_not_mem,
    if_neg (not_or.mpr ⟨h.uncommented, h.value_ne_nil⟩), hvalue, h.name_trimmed, h.value_trimmed]

theorem filterMap_assigned (h : ∀ entry ∈ entries, CleanOption entry) :
    (entries.map optionLine).filterMap assigned = entries := by
  rw [List.filterMap_map]
  refine (List.filterMap_congr fun entry hentry => ?_).trans List.filterMap_some
  exact assigned_optionLine (h entry hentry)

/-- What a line without line feeds sets, that a line could be written for. -/
theorem readable_of_assigned (h : assigned line = some entry) (hline : newline ∉ line) :
    trim entry.1 = entry.1 ∧ equals ∉ entry.1 ∧ newline ∉ entry.1 ∧ trim entry.2 = entry.2 ∧ newline ∉ entry.2 := by
  obtain hnone | ⟨before, after, hsplit, hbefore⟩ := exists_delim equals (ltrim line)
  · rw [assigned_of_not_mem hnone] at h
    cases h
  · rw [assigned_append hsplit hbefore] at h
    split_ifs at h
    cases h
    have hmem : newline ∉ before ++ equals :: after := fun hmem =>
      hline ((List.dropWhile_suffix _).mem (hsplit ▸ hmem))
    rw [List.mem_append, not_or] at hmem
    refine ⟨trim_trim before, mt mem_of_mem_trim hbefore, mt mem_of_mem_trim hmem.1, trim_trim _, fun hvalue => ?_⟩
    have htake := (List.takeWhile_prefix _).mem (mem_of_mem_trim hvalue)
    exact hmem.2 (List.mem_cons_of_mem _ htake)

/-- A readable option whose line sets its name is clean. -/
theorem clean_of_assigned {value : Bytes} (h : assigned (optionLine entry) = some (entry.1, value))
    (hname : trim entry.1 = entry.1) (hequals : equals ∉ entry.1) :
    entry.1.head? ≠ some sharp ∧ entry.2 ≠ [] := by
  rw [assigned_append (ltrim_optionLine hname) hequals] at h
  split_ifs at h with hnone
  exact not_or.mp hnone

theorem name_of_assigned {name value : Bytes} (h : assigned (optionLine entry) = some (name, value))
    (hname : trim entry.1 = entry.1) (hequals : equals ∉ entry.1) : name = entry.1 := by
  rw [assigned_append (ltrim_optionLine hname) hequals] at h
  split_ifs at h
  rw [← hname]
  exact (congrArg Prod.fst (Option.some.inj h)).symm

theorem getlines_render (h : ∀ entry ∈ entries, newline ∉ optionLine entry) :
    getlines newline (entries.flatMap fun entry => optionLine entry ++ [newline]) = entries.map optionLine := by
  induction entries with
  | nil => rfl
  | cons entry entries ih =>
    obtain ⟨hentry, hentries⟩ := List.forall_mem_cons.mp h
    rw [List.flatMap_cons, List.append_assoc, List.singleton_append, getlines_append hentry, ih hentries, List.map_cons]

theorem newline_not_mem_optionLine (hname : newline ∉ entry.1) (hvalue : newline ∉ entry.2) :
    newline ∉ optionLine entry := by
  rw [optionLine, List.mem_append, List.mem_cons, not_or, not_or]
  exact ⟨hname, by decide, hvalue⟩

/-- The last option of a name is the only one. -/
theorem lastOf_entries (config : Config) (name : Bytes) : lastOf config.entries name = config.get name := by
  have hfound {found : Bytes × Bytes} (h : config.entries.reverse.find? (·.1 = name) = some found) :
      found ∈ config.entries ∧ found.1 = name :=
    ⟨List.mem_reverse.mp (List.mem_of_find?_eq_some h), by simpa using List.find?_some h⟩
  ext value
  rw [lastOf, Option.map_eq_some_iff, Store.get_eq_some_iff]
  constructor
  · rintro ⟨found, hfind, rfl⟩
    obtain ⟨hmem, rfl⟩ := hfound hfind
    exact hmem
  · intro hmem
    have hsome : (config.entries.reverse.find? (·.1 = name)).isSome :=
      List.find?_isSome.mpr ⟨_, List.mem_reverse.mpr hmem, decide_eq_true rfl⟩
    obtain ⟨found, hfind⟩ := Option.isSome_iff_exists.mp hsome
    obtain ⟨hfound_mem, hname⟩ := hfound hfind
    have hsame := List.inj_on_of_nodup_map config.nodup_keys hfound_mem hmem hname
    exact ⟨found, hfind, congrArg Prod.snd hsame⟩

theorem lastAssigned_optionLines (h : ∀ entry ∈ entries, CleanOption entry) (name : Bytes) :
    lastAssigned (entries.map optionLine) name = lastOf entries name := by
  rw [lastAssigned, filterMap_assigned h]
  rfl

theorem lastAssigned_render (h : ∀ entry ∈ config.entries, CleanOption entry) (name : Bytes) :
    lastAssigned (getlines newline (render config)) name = config.get name := by
  have hlines : getlines newline (render config) = config.entries.map optionLine :=
    getlines_render fun entry hentry =>
      newline_not_mem_optionLine (h entry hentry).newline_not_mem_name (h entry hentry).newline_not_mem_value
  rw [hlines, lastAssigned_optionLines h, lastOf_entries]

theorem accepted_optionLine (h : CleanOption entry) : accepted (optionLine entry) = true := by
  rw [accepted, assigned_optionLine h]
  exact decide_eq_true h.value_ne_nil

theorem readArguments_of_accepted {arguments : List Bytes} (h : ∀ argument ∈ arguments, accepted argument = true) :
    readArguments arguments = arguments := by
  induction arguments with
  | nil => rfl
  | cons argument arguments ih =>
    obtain ⟨hargument, harguments⟩ := List.forall_mem_cons.mp h
    rw [readArguments, if_pos hargument, ih harguments]

theorem isSome_lastOf {given : List (Bytes × Bytes)} (h : entry ∈ given) : (lastOf given entry.1).isSome := by
  rw [lastOf, Option.isSome_map]
  exact List.find?_isSome.mpr ⟨entry, List.mem_reverse.mpr h, decide_eq_true rfl⟩

end lines

/-- The config file with a line for each option is read as the same options, exactly if each of them is clean. -/
theorem parse_render_iff (config : Config) :
    parse_lines Store.empty (getlines newline (render config)) = config ↔ ∀ entry ∈ config.entries, CleanOption entry := by
  have hget (name : Bytes) : (parse_lines Store.empty (getlines newline (render config))).get name =
      lastAssigned (getlines newline (render config)) name := by
    rw [get_parse_lines, Store.get_empty, Option.or_none]
  constructor
  · intro hconfig
    have hread : ∀ entry ∈ config.entries, ∃ line ∈ getlines newline (render config), assigned line = some entry := by
      intro entry hentry
      have hvalue := Store.get_eq_some_iff.mpr hentry
      rw [← hconfig, hget, lastAssigned, Option.map_eq_some_iff] at hvalue
      obtain ⟨found, hfound, hsnd⟩ := hvalue
      have hfst : found.1 = entry.1 := by simpa using List.find?_some hfound
      obtain ⟨line, hline, hassigned⟩ := List.mem_filterMap.mp (List.mem_reverse.mp (List.mem_of_find?_eq_some hfound))
      exact ⟨line, hline, hassigned.trans (congrArg some (Prod.ext hfst hsnd))⟩
    have hreadable : ∀ entry ∈ config.entries, trim entry.1 = entry.1 ∧ equals ∉ entry.1 ∧ newline ∉ entry.1 ∧
        trim entry.2 = entry.2 ∧ newline ∉ entry.2 := by
      intro entry hentry
      obtain ⟨line, hline, hassigned⟩ := hread entry hentry
      exact readable_of_assigned hassigned (not_mem_of_mem_getlines hline)
    have hlines : getlines newline (render config) = config.entries.map optionLine :=
      getlines_render fun entry hentry =>
        newline_not_mem_optionLine (hreadable entry hentry).2.2.1 (hreadable entry hentry).2.2.2.2
    intro entry hentry
    obtain ⟨hname, hequals, hnewline, hvalue, hnewline_value⟩ := hreadable entry hentry
    obtain ⟨line, hline, hassigned⟩ := hread entry hentry
    rw [hlines] at hline
    obtain ⟨other, hother, rfl⟩ := List.mem_map.mp hline
    -- the line that sets the option is the one that was written for it
    obtain ⟨hother_name, hother_equals, -⟩ := hreadable other hother
    have hsame : entry.1 = other.1 := name_of_assigned hassigned hother_name hother_equals
    obtain rfl := List.inj_on_of_nodup_map config.nodup_keys hentry hother hsame
    obtain ⟨huncommented, hne⟩ := clean_of_assigned hassigned hname hequals
    exact ⟨hname, hequals, hnewline, huncommented, hvalue, hnewline_value, hne⟩
  · intro hclean
    exact Store.ext_get fun name => (hget name).trans (lastAssigned_render hclean name)

/-- A config file with a bucket and a template. -/
def exampleConfig : Config :=
  (Store.empty.put (ascii "bucket") (ascii "speechkit-adoption-pack")).put CFG_PIPELINE_TEMPLATE
    (ascii "filesrc location=\x7bsource_uri\x7d ! s3sink bucket=\x7bbucket\x7d")

def exampleArguments : List (Bytes × Bytes) :=
  [(CFG_PARAM_CONFIG, ascii "config.txt"), (CFG_PARAM_AUDIO_SOURCE, ascii "file:///a.wav")]

end solution_library.transcoder
