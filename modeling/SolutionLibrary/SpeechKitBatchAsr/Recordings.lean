import SolutionLibrary.Library.Paths

open solution_library.paths
open solution_library.text

namespace solution_library.speechkit_batch_asr

theorem eq_dot_of_toLower {c : Char} (h : c.toLower = '.') : c = '.' := by
  unfold Char.toLower at h
  split at h
  · next hupper =>
    -- a capital letter becomes a letter
    have hlow : 'A'.val.toNat ≤ c.val.toNat := hupper.1
    have hhigh : c.val.toNat ≤ 'Z'.val.toNat := hupper.2
    have hval : (c.val + ('a'.val - 'A'.val)).toNat = '.'.val.toNat := congrArg (·.val.toNat) h
    rw [UInt32.toNat_add] at hval
    have hA : 'A'.val.toNat = 65 := by decide
    have hZ : 'Z'.val.toNat = 90 := by decide
    have hdot : '.'.val.toNat = 46 := by decide
    have hshift : ('a'.val - 'A'.val).toNat = 32 := by decide
    omega
  · exact h

/-- The keys that `ProcessBucket` takes. -/
def isRecording (key : Text) : Bool :=
  [".wav".toList, ".ogg".toList].any (·.isSuffixOf (key.map Char.toLower))

theorem exists_extension (h : isRecording key) :
    ∃ name extension, key = name ++ '.' :: extension ∧ IsExtension extension := by
  have hsuffix : ∃ letters : Text, '.' :: letters <:+ key.map Char.toLower ∧
      ∀ c : Char, c.toLower ∈ letters → c ≠ '.' ∧ c ≠ '/' := by
    have hletter {letters : Text} (hdot : '.' ∉ letters) (hsep : '/' ∉ letters) (c : Char) (hc : c.toLower ∈ letters) :
        c ≠ '.' ∧ c ≠ '/' := by
      constructor
      · rintro rfl
        exact hdot hc
      · rintro rfl
        exact hsep hc
    simp only [isRecording, List.any_cons, List.any_nil, Bool.or_false, Bool.or_eq_true,
      List.isSuffixOf_iff_suffix] at h
    obtain h | h := h
    · exact ⟨['w', 'a', 'v'], h, hletter (by decide) (by decide)⟩
    · exact ⟨['o', 'g', 'g'], h, hletter (by decide) (by decide)⟩
  obtain ⟨letters, ⟨front, hfront⟩, hletters⟩ := hsuffix
  obtain ⟨name, rest, rfl, _, hrest⟩ := List.map_eq_append_iff.mp hfront.symm
  obtain ⟨c, extension, rfl, hc, hextension⟩ := List.map_eq_cons_iff.mp hrest
  refine ⟨name, extension, by rw [eq_dot_of_toLower hc], ?_, ?_⟩
  · exact fun hdot => (hletters '.' (hextension ▸ List.mem_map_of_mem hdot)).1 rfl
  · exact fun hsep => (hletters '/' (hextension ▸ List.mem_map_of_mem hsep)).2 rfl

end solution_library.speechkit_batch_asr
