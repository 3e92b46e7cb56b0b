import Mathlib.Data.List.Basic

namespace solution_library.loop

variable {σ α : Type*}

/-- A loop over a list that ends early when the body raises. The flag is the
exception; what the body has done stays done. -/
def forEach (body : σ → α → σ × Bool) (s : σ) : List α → σ × Bool
  | [] => (s, false)
  | x :: xs =>
    match body s x with
    | (s, true) => (s, true)
    | (s, false) => forEach body s xs

/-- Every iteration that the loop comes to is as described. -/
def Reached (body : σ → α → σ × Bool) (described : σ → α → Prop) (s : σ) : List α → Prop
  | [] => True
  | x :: xs => described s x ∧ ((body s x).2 = false → Reached body described (body s x).1 xs)

/-- The items whose iterations the loop begins. -/
def examined (body : σ → α → σ × Bool) (s : σ) : List α → List α
  | [] => []
  | x :: xs => x :: if (body s x).2 then [] else examined body (body s x).1 xs

section forEach

variable {body : σ → α → σ × Bool} {s : σ}

theorem forEach_cons_of_raised {x : α} (h : (body s x).2 = true) (xs : List α) :
    forEach body s (x :: xs) = body s x := by
  rw [forEach]
  split
  · next s' hbody => exact hbody.symm
  · next s' hbody => simp [hbody] at h

theorem forEach_cons {x : α} (h : (body s x).2 = false) (xs : List α) :
    forEach body s (x :: xs) = forEach body (body s x).1 xs := by
  rw [forEach]
  split
  · next s' hbody => simp [hbody] at h
  · next s' hbody => rw [hbody]

theorem returned_of_forEach_cons {x : α} {xs : List α} (h : (forEach body s (x :: xs)).2 = false) :
    (body s x).2 = false ∧ (forEach body (body s x).1 xs).2 = false := by
  cases hraised : (body s x).2 with
  | true =>
    rw [forEach_cons_of_raised hraised, hraised] at h
    cases h
  | false => exact ⟨rfl, forEach_cons hraised xs ▸ h⟩

theorem examined_cons {x : α} (h : (body s x).2 = false) (xs : List α) :
    examined body s (x :: xs) = x :: examined body (body s x).1 xs := by
  rw [examined, if_neg (by simp [h])]

/-- A loop that has not raised goes on with the rest. -/
theorem examined_append {xs : List α} (h : (forEach body s xs).2 = false) (ys : List α) :
    examined body s (xs ++ ys) = xs ++ examined body (forEach body s xs).1 ys := by
  induction xs generalizing s with
  | nil => rfl
  | cons x xs ih =>
    obtain ⟨hx, hxs⟩ := returned_of_forEach_cons h
    rw [List.cons_append, examined_cons hx, forEach_cons hx, ih hxs, List.cons_append]

/-- What the body keeps, the loop keeps, also when it raises. -/
theorem forEach_keeps (property : σ → Prop) {xs : List α}
    (hbody : ∀ s, ∀ x ∈ xs, property s → property (body s x).1) (hs : property s) :
    property (forEach body s xs).1 := by
  induction xs generalizing s with
  | nil => exact hs
  | cons x xs ih =>
    have hx := hbody s x List.mem_cons_self hs
    have hxs := fun s y hy => hbody s y (List.mem_cons_of_mem x hy)
    cases hraised : (body s x).2 with
    | true =>
      rw [forEach_cons_of_raised hraised]
      exact hx
    | false =>
      rw [forEach_cons hraised]
      exact ih hxs hx

theorem forEach_returns {xs : List α} (h : ∀ s, ∀ x ∈ xs, (body s x).2 = false) : (forEach body s xs).2 = false := by
  induction xs generalizing s with
  | nil => rfl
  | cons x xs ih =>
    obtain ⟨hx, hxs⟩ := List.forall_mem_cons.mp fun x hx s => h s x hx
    rw [forEach_cons (hx s)]
    exact ih fun s x hmem => hxs x hmem s

/-- What one item establishes and the others keep holds after a loop that does not raise. -/
theorem forEach_establishes (property : σ → Prop) {xs : List α} {x : α} (hx : x ∈ xs)
    (hreturns : ∀ s, ∀ y ∈ xs, (body s y).2 = false) (hkeeps : ∀ s, ∀ y ∈ xs, property s → property (body s y).1)
    (hbody : ∀ s, property (body s x).1) : property (forEach body s xs).1 := by
  obtain ⟨before, after, rfl⟩ := List.append_of_mem hx
  induction before generalizing s with
  | nil =>
    rw [List.nil_append, forEach_cons (hreturns s x List.mem_cons_self)]
    exact forEach_keeps property (fun s y hy => hkeeps s y (List.mem_cons_of_mem _ hy)) (hbody s)
  | cons y before ih =>
    rw [List.cons_append, forEach_cons (hreturns s y List.mem_cons_self)]
    exact ih (List.mem_append_right _ List.mem_cons_self) (fun s z hz => hreturns s z (List.mem_cons_of_mem _ hz))
      fun s z hz => hkeeps s z (List.mem_cons_of_mem _ hz)

/-- What the described iterations keep, a loop of them keeps. -/
theorem Reached.keeps (property : σ → Prop) {described : σ → α → Prop} {xs : List α}
    (hbody : ∀ s, ∀ x ∈ xs, property s → described s x → property (body s x).1)
    (h : Reached body described s xs) (hs : property s) : property (forEach body s xs).1 := by
  induction xs generalizing s with
  | nil => exact hs
  | cons x xs ih =>
    have hx := hbody s x List.mem_cons_self hs h.1
    cases hraised : (body s x).2 with
    | true =>
      rw [forEach_cons_of_raised hraised]
      exact hx
    | false =>
      rw [forEach_cons hraised]
      exact ih (fun s y hy => hbody s y (List.mem_cons_of_mem x hy)) (h.2 hraised) hx

/-- The exact condition of a loop: when the described iterations keep it good,
all others make it bad, and bad stays bad, it ends without bad exactly when all
the iterations it comes to are as described. -/
theorem reached_iff_not_bad {described : σ → α → Prop} (good bad : σ → Prop) {xs : List α}
    (hgood : ∀ s, good s → ¬ bad s)
    (hkeeps : ∀ s, ∀ x ∈ xs, good s → described s x → good (body s x).1)
    (hbreaks : ∀ s, ∀ x ∈ xs, good s → ¬ described s x → bad (body s x).1)
    (hstays : ∀ s, ∀ x ∈ xs, bad s → bad (body s x).1) (hs : good s) :
    Reached body described s xs ↔ ¬ bad (forEach body s xs).1 := by
  induction xs generalizing s with
  | nil => exact iff_of_true trivial (hgood s hs)
  | cons x xs ih =>
    have hrest {s : σ} (hs : good s) := ih (fun s y hy => hkeeps s y (List.mem_cons_of_mem x hy))
      (fun s y hy => hbreaks s y (List.mem_cons_of_mem x hy)) (fun s y hy => hstays s y (List.mem_cons_of_mem x hy)) hs
    by_cases hdescribed : described s x
    · have hnext := hkeeps s x List.mem_cons_self hs hdescribed
      cases hraised : (body s x).2 with
      | true =>
        rw [forEach_cons_of_raised hraised]
        exact iff_of_true ⟨hdescribed, by simp [hraised]⟩ (hgood _ hnext)
      | false =>
        rw [forEach_cons hraised, ← hrest hnext]
        exact (and_iff_right hdescribed).trans (forall_prop_of_true hraised)
    · have hbad := hbreaks s x List.mem_cons_self hs hdescribed
      refine iff_of_false (fun h => hdescribed h.1) (not_not_intro ?_)
      cases hraised : (body s x).2 with
      | true => rwa [forEach_cons_of_raised hraised]
      | false =>
        rw [forEach_cons hraised]
        exact forEach_keeps bad (fun s y hy => hstays s y (List.mem_cons_of_mem x hy)) hbad

end forEach

section separate

variable {ν : Type*} {body : σ → α → σ × Bool} {view : α → σ → ν} {s : σ} {x y : α} {before after xs : List α}

/-- An iteration of a loop changes only what belongs to its own item, which also
decides whether it raises. -/
structure Separate (body : σ → α → σ × Bool) (view : α → σ → ν) (xs : List α) : Prop where
  frame : ∀ s, ∀ x ∈ xs, ∀ y ∈ xs, y ≠ x → view y (body s x).1 = view y s
  raised : ∀ s s', ∀ x ∈ xs, view x s = view x s' → (body s x).2 = (body s' x).2

theorem Separate.tail (h : Separate body view (x :: xs)) : Separate body view xs where
  frame s y hy z hz := h.frame s y (List.mem_cons_of_mem x hy) z (List.mem_cons_of_mem x hz)
  raised s s' y hy := h.raised s s' y (List.mem_cons_of_mem x hy)

/-- An iteration leaves the later items as they were. -/
theorem Separate.view_tail (h : Separate body view (x :: xs)) (hnodup : (x :: xs).Nodup) (hy : y ∈ xs) :
    view y (body s x).1 = view y s := by
  apply h.frame s x List.mem_cons_self y (List.mem_cons_of_mem x hy)
  rintro rfl
  exact (List.nodup_cons.mp hnodup).1 hy

theorem Separate.raised_tail (h : Separate body view (x :: xs)) (hnodup : (x :: xs).Nodup) (hy : y ∈ xs) :
    (body (body s x).1 y).2 = (body s y).2 :=
  h.raised _ _ y (List.mem_cons_of_mem x hy) (h.view_tail hnodup hy)

/-- The loop comes to the items that no raising one precedes. -/
theorem Separate.reached_iff {described : α → Prop} (h : Separate body view xs) (hnodup : xs.Nodup) :
    Reached body (fun _ x => described x) s xs ↔
      ∀ before x after, xs = before ++ x :: after → (∀ y ∈ before, (body s y).2 = false) → described x := by
  induction xs generalizing s with
  | nil => simp [Reached]
  | cons x xs ih =>
    have hrest := ih (s := (body s x).1) h.tail (List.nodup_cons.mp hnodup).2
    rw [Reached, hrest]
    constructor
    · rintro ⟨hx, hxs⟩ before y after heq hbefore
      obtain ⟨rfl, hy⟩ | ⟨before, rfl, rfl⟩ := List.cons_eq_append_iff.mp heq
      · cases hy
        exact hx
      · refine hxs (hbefore x List.mem_cons_self) before y after rfl fun z hz => ?_
        rw [h.raised_tail hnodup (List.mem_append_left _ hz)]
        exact hbefore z (List.mem_cons_of_mem x hz)
    · refine fun hall => ⟨hall [] x xs rfl (by simp), fun hx before y after heq hbefore => ?_⟩
      subst heq
      refine hall (x :: before) y after rfl (List.forall_mem_cons.mpr ⟨hx, fun z hz => ?_⟩)
      rw [← h.raised_tail hnodup (List.mem_append_left _ hz)]
      exact hbefore z hz

/-- After an earlier item raised, nothing of an item has changed. -/
theorem Separate.view_of_raised (h : Separate body view (before ++ x :: after)) (hnodup : (before ++ x :: after).Nodup)
    (hraised : ∃ y ∈ before, (body s y).2 = true) : view x (forEach body s (before ++ x :: after)).1 = view x s := by
  induction before generalizing s with
  | nil => simp at hraised
  | cons y before ih =>
    have hx : x ∈ before ++ x :: after := List.mem_append_right _ List.mem_cons_self
    rw [List.cons_append] at h hnodup ⊢
    cases hy : (body s y).2 with
    | true =>
      rw [forEach_cons_of_raised hy]
      exact h.view_tail hnodup hx
    | false =>
      rw [forEach_cons hy, ih h.tail (List.nodup_cons.mp hnodup).2 ?_, h.view_tail hnodup hx]
      obtain ⟨z, hz, hraised⟩ := hraised
      obtain rfl | hz := List.mem_cons.mp hz
      · simp [hy] at hraised
      · exact ⟨z, hz, by rwa [h.raised_tail hnodup (List.mem_append_left _ hz)]⟩

/-- When no earlier item raises, an item ends as its own iteration leaves it. -/
theorem Separate.view_forEach (h : Separate body view (before ++ x :: after)) (hnodup : (before ++ x :: after).Nodup)
    (hbefore : ∀ y ∈ before, (body s y).2 = false) :
    ∃ s', view x s' = view x s ∧ view x (forEach body s (before ++ x :: after)).1 = view x (body s' x).1 := by
  induction before generalizing s with
  | nil =>
    refine ⟨s, rfl, ?_⟩
    rw [List.nil_append]
    cases hx : (body s x).2 with
    | true => rw [forEach_cons_of_raised hx]
    | false =>
      rw [forEach_cons hx]
      refine forEach_keeps (fun s' => view x s' = view x (body s x).1) (fun s' y hy hs' => ?_) rfl
      have hne : x ≠ y := by
        rintro rfl
        exact (List.nodup_cons.mp hnodup).1 hy
      exact (h.frame s' y (List.mem_cons_of_mem x hy) x List.mem_cons_self hne).trans hs'
  | cons y before ih =>
    have hx : x ∈ before ++ x :: after := List.mem_append_right _ List.mem_cons_self
    rw [List.cons_append] at h hnodup ⊢
    rw [forEach_cons (hbefore y List.mem_cons_self)]
    obtain ⟨s', hview, hfinal⟩ := ih (s := (body s y).1) h.tail (List.nodup_cons.mp hnodup).2 fun z hz => by
      rw [h.raised_tail hnodup (List.mem_append_left _ hz)]
      exact hbefore z (List.mem_cons_of_mem y hz)
    exact ⟨s', hview.trans (h.view_tail hnodup hx), hfinal⟩

end separate

end solution_library.loop
