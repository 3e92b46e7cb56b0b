import Mathlib.Algebra.Ring.Int.Defs
import Mathlib.Algebra.Ring.Nat
import Mathlib.Data.List.Perm.Basic
import Mathlib.Order.Fin.Basic
import SolutionLibrary.Library.Provenance
import SolutionLibrary.Library.Store

open solution_library.invariant
open solution_library.provenance
open solution_library.store
open solution_library.substitution

namespace solution_library.transcoder

abbrev Byte := Fin 256

/-- A `std::string`. -/
abbrev Bytes := List Byte

def ascii (text : String) : Bytes :=
  text.toList.map fun c => Fin.ofNat 256 c.toNat

def CFG_PARAM_SOURCE_URI : Bytes :=
  ascii "source_uri"

def CFG_PIPELINE_TEMPLATE : Bytes :=
  ascii "str_pipeline_template"

/-- The `std::map` of the configuration, in the order of its keys. -/
abbrev Config := Store Bytes Bytes

/-- `operator[]` inserts an empty value when the key is missing. -/
def subscript (config : Config) (key : Bytes) : Config :=
  if (config.get key).isSome then config else config.put key []

/-- The configuration that the loop goes over. -/
def discovery_config (config : Config) (audio_source_uri : Bytes) : Config :=
  subscript (config.put CFG_PARAM_SOURCE_URI audio_source_uri) CFG_PIPELINE_TEMPLATE

def pipeline_template (config : Config) (audio_source_uri : Bytes) : Bytes :=
  ((discovery_config config audio_source_uri).get CFG_PIPELINE_TEMPLATE).getD []

def pattern (key : Bytes) : Bytes :=
  ascii "\x7b" ++ key ++ ascii "\x7d"

/-- What a number is as an `int`. -/
def int (n : ℤ) : ℤ :=
  n.bmod (2 ^ 32)

/-- What a number is as a `size_t`. -/
def size_t (n : ℤ) : ℕ :=
  (n % 2 ^ 64).toNat

/-- The body of the loop. What is added to the index afterwards is never read. -/
def substitute (pipeline_string : Bytes) (map_token : Bytes × Bytes) : Bytes :=
  match find (pattern map_token.1) pipeline_string with
  | none => pipeline_string
  | some index =>
    let replace_len := int (pattern map_token.1).length
    pipeline_string.take index ++ map_token.2 ++ pipeline_string.drop (index + size_t replace_len)

def make_pipeline_string (config : Config) (audio_source_uri : Bytes) : Bytes :=
  (discovery_config config audio_source_uri).entries.foldl substitute (pipeline_template config audio_source_uri)

theorem pattern_ne_nil (key : Bytes) : pattern key ≠ [] :=
  List.append_ne_nil_of_right_ne_nil _ (by decide)

/-- An entry of the configuration, as a rule. -/
def rule (map_token : Bytes × Bytes) : Rule Byte where
  pattern := pattern map_token.1
  value := map_token.2
  count := size_t (int (pattern map_token.1).length)
  ne_nil := pattern_ne_nil map_token.1

/-- The placeholders of the configured keys, with their values. -/
def rules (config : Config) (audio_source_uri : Bytes) : List (Rule Byte) :=
  (discovery_config config audio_source_uri).entries.map rule

/-- The result is the template with all placeholders replaced at once. In any order of the keys, it is the same, and the
turn of a key takes out all its placeholders of the template and nothing else. -/
structure Instantiates (config : Config) (audio_source_uri : Bytes) : Prop where
  simultaneous : make_pipeline_string config audio_source_uri =
    replaceAll (rules config audio_source_uri) (pipeline_template config audio_source_uri)
  unordered : ∀ order : List (Bytes × Bytes), order.Perm (discovery_config config audio_source_uri).entries →
    order.foldl substitute (pipeline_template config audio_source_uri) = make_pipeline_string config audio_source_uri
  own : ∀ order : List (Bytes × Bytes), order.Perm (discovery_config config audio_source_uri).entries →
    Along (replaceFirst Prod.fst inserted) (Own (pipeline_template config audio_source_uri))
      (number 0 (pipeline_template config audio_source_uri)) (order.map rule)

section substitute

variable {pipeline_string : Bytes} {map_token : Bytes × Bytes} {order entries : List (Bytes × Bytes)}

theorem size_t_int {n : ℕ} (h : n < 2 ^ 31) : size_t (int n) = n := by
  rw [int, Int.bmod_eq_of_le (by omega) (by omega), size_t]
  omega

/-- A placeholder that is not huge is taken out in whole. -/
theorem count_rule (h : (pattern map_token.1).length < 2 ^ 31) :
    (rule map_token).count = (rule map_token).pattern.length := by
  simp only [rule]
  exact size_t_int h

theorem substitute_eq (pipeline_string : Bytes) (map_token : Bytes × Bytes) :
    substitute pipeline_string map_token = replaceFirst id id pipeline_string (rule map_token) := by
  rw [substitute, replaceFirst, List.map_id, rule]
  cases find (pattern map_token.1) pipeline_string with
  | none => rfl
  | some index => simp only [List.map_id]

theorem foldl_substitute (order : List (Bytes × Bytes)) (pipeline_string : Bytes) :
    order.foldl substitute pipeline_string = (order.map rule).foldl (replaceFirst id id) pipeline_string := by
  rw [List.foldl_map]
  congr 1
  funext pipeline_string map_token
  exact substitute_eq pipeline_string map_token

/-- The run over the marked template is the loop of the code. -/
theorem map_fst_foldl (order : List (Bytes × Bytes)) (template : Bytes) :
    ((order.map rule).foldl (replaceFirst Prod.fst inserted) (number 0 template)).map Prod.fst =
      order.foldl substitute template := by
  rw [map_foldl_replaceFirst (fun _ => rfl), map_fst_number, foldl_substitute]

theorem pattern_injective : pattern.Injective := fun _ _ h =>
  List.append_cancel_left (List.append_cancel_right h)

theorem nodup_rules (config : Config) (audio_source_uri : Bytes) : (rules config audio_source_uri).Nodup := by
  apply List.Nodup.of_map Rule.pattern
  have hpatterns : (rules config audio_source_uri).map Rule.pattern =
      (discovery_config config audio_source_uri).keys.map pattern := by
    rw [rules, List.map_map, Store.keys, List.map_map]
    rfl
  rw [hpatterns]
  exact (Store.nodup_keys _).map pattern_injective

theorem exists_order {order : List (Rule Byte)} (h : order.Perm (entries.map rule)) :
    ∃ tokens : List (Bytes × Bytes), tokens.Perm entries ∧ tokens.map rule = order := by
  have hentries : List.Forall₂ (fun r map_token => r = rule map_token) (entries.map rule) entries := by
    rw [List.forall₂_map_left_iff]
    exact List.forall₂_same.mpr fun _ _ => rfl
  obtain ⟨tokens, htokens, hperm⟩ := List.perm_comp_forall₂ h hentries
  rw [← List.forall₂_map_right_iff, List.forall₂_eq_eq_eq] at htokens
  exact ⟨tokens, hperm, htokens.symm⟩

end substitute

/-- The template is instantiated exactly when the placeholders can be substituted. -/
theorem instantiates_iff_substitutable (config : Config) (audio_source_uri : Bytes) :
    Instantiates config audio_source_uri ↔
      Substitutable (rules config audio_source_uri) (pipeline_template config audio_source_uri) := by
  have hnodup := nodup_rules config audio_source_uri
  rw [← along_iff_substitutable hnodup]
  constructor
  · intro h order hperm
    obtain ⟨tokens, htokens, rfl⟩ := exists_order hperm
    exact h.own tokens htokens
  · intro hown
    have hsubstitutable := (along_iff_substitutable hnodup).mp hown
    have hresult : ∀ order : List (Bytes × Bytes), order.Perm (discovery_config config audio_source_uri).entries →
        order.foldl substitute (pipeline_template config audio_source_uri) =
          replaceAll (rules config audio_source_uri) (pipeline_template config audio_source_uri) := by
      intro order hperm
      rw [foldl_substitute, hsubstitutable.foldl_replaceFirst hnodup (hperm.map rule)]
    have hmap := hresult _ (List.Perm.refl _)
    exact ⟨hmap, fun order hperm => (hresult order hperm).trans hmap.symm,
      fun order hperm => hown _ (hperm.map rule)⟩

/-- The second occurrence of a placeholder is left over. -/
theorem repeated_placeholder_left : ¬ ∀ config audio_source_uri, Instantiates config audio_source_uri := by
  intro h
  let template := pattern (ascii "bucket") ++ ascii "/" ++ pattern (ascii "bucket")
  let config := (Store.empty.put CFG_PIPELINE_TEMPLATE template).put (ascii "bucket") (ascii "b")
  have hsimultaneous := (h config []).simultaneous
  revert hsimultaneous
  decide +kernel

end solution_library.transcoder
