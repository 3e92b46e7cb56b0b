import Mathlib.Data.List.Forall2

namespace solution_library.traversal

variable {ε α γ : Type*} {R : α → γ → Prop}

theorem exists_of_mem_left {l : List α} {results : List γ} (h : List.Forall₂ R l results) {a : α}
    (ha : a ∈ l) : ∃ result ∈ results, R a result := by
  induction h with
  | nil => simp at ha
  | cons hhead _ ih =>
    obtain rfl | hmem := List.mem_cons.mp ha
    · exact ⟨_, List.mem_cons_self, hhead⟩
    · obtain ⟨result, hresult, hrel⟩ := ih hmem
      exact ⟨result, List.mem_cons_of_mem _ hresult, hrel⟩

theorem exists_of_mem_right {l : List α} {results : List γ} (h : List.Forall₂ R l results) {result : γ}
    (hresult : result ∈ results) : ∃ a ∈ l, R a result :=
  exists_of_mem_left (R := fun result a => R a result) h.flip hresult

/-- Related lists are related position by position. -/
theorem getElem?_of_left {l : List α} {results : List γ} (h : List.Forall₂ R l results) {i : ℕ} {a : α}
    (ha : l[i]? = some a) : ∃ result, results[i]? = some result ∧ R a result := by
  induction h generalizing i with
  | nil => simp at ha
  | cons hhead _ ih =>
    cases i with
    | zero =>
      cases ha
      exact ⟨_, rfl, hhead⟩
    | succ i => exact ih ha

/-- A traversal succeeds with the list of the results of its elements. -/
theorem mapM_eq_ok_iff {f : α → Except ε γ} {l : List α} {results : List γ} :
    l.mapM f = .ok results ↔ List.Forall₂ (fun a result => f a = .ok result) l results := by
  induction l generalizing results with
  | nil =>
    rw [List.mapM_nil, List.forall₂_nil_left_iff]
    constructor
    · intro h
      cases h
      rfl
    · rintro rfl
      rfl
  | cons a l ih =>
    rw [List.mapM_cons]
    cases hf : f a with
    | error e => simp [bind, Except.bind, List.forall₂_cons_left_iff, hf]
    | ok result =>
      cases hl : l.mapM f with
      | error e =>
        have hnone : ∀ rest, ¬ List.Forall₂ (fun a result => f a = .ok result) l rest := by
          intro rest hrest
          rw [← ih, hl] at hrest
          cases hrest
        simp [bind, Except.bind, List.forall₂_cons_left_iff, hf, hnone]
      | ok rest =>
        have hrest : ∀ other, List.Forall₂ (fun a result => f a = .ok result) l other ↔ rest = other := by
          intro other
          rw [← ih, hl, Except.ok.injEq]
        simp [bind, Except.bind, pure, Except.pure, List.forall₂_cons_left_iff, hf, hrest, eq_comm]

/-- A traversal fails as soon as one element does. -/
theorem mapM_error {f : α → Except ε γ} {l : List α} (h : ∃ a ∈ l, ∃ e, f a = .error e) :
    ∃ e, l.mapM f = .error e := by
  cases hl : l.mapM f with
  | error e => exact ⟨e, rfl⟩
  | ok results =>
    obtain ⟨a, hmem, e, he⟩ := h
    obtain ⟨result, _, hresult⟩ := exists_of_mem_left (mapM_eq_ok_iff.mp hl) hmem
    rw [he] at hresult
    cases hresult

/-- A traversal in which every element succeeds maps the results. -/
theorem mapM_eq_ok {f : α → Except ε γ} {g : α → γ} {l : List α} (h : ∀ a ∈ l, f a = .ok (g a)) :
    l.mapM f = .ok (l.map g) := by
  rw [mapM_eq_ok_iff, List.forall₂_map_right_iff, List.forall₂_same]
  exact h

theorem mapM_congr {f g : α → Except ε γ} {l : List α} (h : ∀ a ∈ l, f a = g a) : l.mapM f = l.mapM g := by
  induction l with
  | nil => rfl
  | cons a l ih =>
    obtain ⟨hhead, htail⟩ := List.forall_mem_cons.mp h
    rw [List.mapM_cons, List.mapM_cons, hhead, ih htail]

theorem mapM_append_ok {f : α → Except ε γ} {first second : List α} {results rest : List γ}
    (hfirst : first.mapM f = .ok results) (hsecond : second.mapM f = .ok rest) :
    (first ++ second).mapM f = .ok (results ++ rest) := by
  rw [List.mapM_append, hfirst, hsecond]
  rfl

end solution_library.traversal
