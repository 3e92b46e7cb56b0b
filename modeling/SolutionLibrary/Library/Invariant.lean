import Mathlib.Logic.Relation

namespace solution_library.invariant

variable {σ Act : Type*}

/-- The steps keep a property of the states. -/
def Keeps (step : σ → σ → Prop) (property : σ → Prop) : Prop :=
  ∀ before after, property before → step before after → property after

/-- What the steps keep holds in every state that a run reaches. -/
theorem Keeps.run {step : σ → σ → Prop} {property : σ → Prop} (h : Keeps step property) {start last : σ}
    (hrun : Relation.ReflTransGen step start last) (hstart : property start) : property last := by
  induction hrun with
  | refl => exact hstart
  | tail _ hstep ih => exact h _ _ ih hstep

/-- Every step of the concrete system is matched by steps, none or more, of the
abstract one. -/
def Simulates {τ : Type*} (concrete : σ → σ → Prop) (abstract : τ → τ → Prop) (related : σ → τ → Prop) : Prop :=
  ∀ before after start, related before start → concrete before after →
    ∃ last, Relation.ReflTransGen abstract start last ∧ related after last

/-- Simulated steps are simulated runs. -/
theorem Simulates.run {τ : Type*} {concrete : σ → σ → Prop} {abstract : τ → τ → Prop} {related : σ → τ → Prop}
    (h : Simulates concrete abstract related) {before after : σ} {start : τ}
    (hrun : Relation.ReflTransGen concrete before after) (hstart : related before start) :
    ∃ last, Relation.ReflTransGen abstract start last ∧ related after last := by
  induction hrun with
  | refl => exact ⟨start, .refl, hstart⟩
  | tail _ hstep ih =>
    obtain ⟨middle, hmiddle, hrelated⟩ := ih
    obtain ⟨last, hlast, hafter⟩ := h _ _ middle hrelated hstep
    exact ⟨last, hmiddle.trans hlast, hafter⟩

/-- The steps of a system given by its acts. -/
def Steps (step : σ → Act → Option σ) (before after : σ) : Prop :=
  ∃ act, step before act = some after

/-- A list of acts, executed one after another, is a run. -/
theorem reflTransGen_of_foldlM {step : σ → Act → Option σ} {acts : List Act} {start last : σ}
    (h : acts.foldlM step start = some last) : Relation.ReflTransGen (Steps step) start last := by
  induction acts generalizing start with
  | nil =>
    cases h
    exact .refl
  | cons act acts ih =>
    rw [List.foldlM_cons] at h
    obtain ⟨next, hstep, hrest⟩ := Option.bind_eq_some_iff.mp h
    exact .head ⟨act, hstep⟩ (ih hrest)

/-- In a run of a deterministic system every step is as described. -/
def Along (step : σ → Act → σ) (allowed : σ → Act → Prop) : σ → List Act → Prop
  | _, [] => True
  | s, act :: acts => allowed s act ∧ Along step allowed (step s act) acts

def decidableAlong (step : σ → Act → σ) (allowed : σ → Act → Prop) [∀ s act, Decidable (allowed s act)] :
    ∀ start acts, Decidable (Along step allowed start acts)
  | _, [] => .isTrue trivial
  | start, act :: acts =>
    have := decidableAlong step allowed (step start act) acts
    inferInstanceAs (Decidable (allowed start act ∧ Along step allowed (step start act) acts))

instance (step : σ → Act → σ) (allowed : σ → Act → Prop) [∀ s act, Decidable (allowed s act)] (start : σ)
    (acts : List Act) : Decidable (Along step allowed start acts) :=
  decidableAlong step allowed start acts

section along

variable {step : σ → Act → σ} {allowed : σ → Act → Prop}

theorem Along.mono {other : σ → Act → Prop} (himp : ∀ s act, allowed s act → other s act) {start : σ}
    {acts : List Act} (h : Along step allowed start acts) : Along step other start acts := by
  induction acts generalizing start with
  | nil => trivial
  | cons act acts ih => exact ⟨himp start act h.1, ih h.2⟩

theorem Along.and {other : σ → Act → Prop} {start : σ} {acts : List Act} (h : Along step allowed start acts)
    (hother : Along step other start acts) : Along step (fun s act => allowed s act ∧ other s act) start acts := by
  induction acts generalizing start with
  | nil => trivial
  | cons act acts ih => exact ⟨⟨h.1, hother.1⟩, ih h.2 hother.2⟩

theorem along_append {start : σ} {before after : List Act} : Along step allowed start (before ++ after) ↔
    Along step allowed start before ∧ Along step allowed (before.foldl step start) after := by
  induction before generalizing start with
  | nil => exact (and_iff_right trivial).symm
  | cons act before ih => exact (and_congr_right fun _ => ih).trans and_assoc.symm

/-- A run in which some step is not as described. -/
theorem exists_of_not_along {start : σ} {acts : List Act} (h : ¬ Along step allowed start acts) :
    ∃ before act after, acts = before ++ act :: after ∧ ¬ allowed (before.foldl step start) act := by
  induction acts generalizing start with
  | nil => exact absurd trivial h
  | cons act acts ih =>
    by_cases hact : allowed start act
    · obtain ⟨before, other, after, rfl, hother⟩ := ih fun hacts => h ⟨hact, hacts⟩
      exact ⟨act :: before, other, after, rfl, hother⟩
    · exact ⟨[], act, acts, rfl, hact⟩

/-- A run is as described when each of its steps is, in the state that it starts in. -/
theorem along_iff_forall {start : σ} {acts : List Act} : Along step allowed start acts ↔
    ∀ before act after, acts = before ++ act :: after → allowed (before.foldl step start) act := by
  constructor
  · rintro h before act after rfl
    exact (along_append.mp h).2.1
  · intro h
    refine Classical.byContradiction fun hnot => ?_
    obtain ⟨before, act, after, heq, hact⟩ := exists_of_not_along hnot
    exact hact (h before act after heq)

theorem Along.of_forall_mem {valid : Act → Prop} {acts : List Act} (h : ∀ act ∈ acts, valid act) (start : σ) :
    Along step (fun _ act => valid act) start acts := by
  induction acts generalizing start with
  | nil => trivial
  | cons act acts ih =>
    exact ⟨h act List.mem_cons_self, ih (fun act hact => h act (List.mem_cons_of_mem _ hact)) _⟩

/-- What the allowed steps keep holds at the end of a run of them, and before
each of its steps. -/
theorem Along.keeps {property : σ → Prop} (hkeeps : ∀ s act, property s → allowed s act → property (step s act))
    {start : σ} {acts : List Act} (h : Along step allowed start acts) (hstart : property start) :
    property (acts.foldl step start) ∧ Along step (fun s act => property s ∧ allowed s act) start acts := by
  induction acts generalizing start with
  | nil => exact ⟨hstart, trivial⟩
  | cons act acts ih =>
    obtain ⟨hlast, hbefore⟩ := ih h.2 (hkeeps start act hstart h.1)
    exact ⟨hlast, ⟨hstart, h.1⟩, hbefore⟩

/-- What holds at the start of a run and is kept by each of its steps, of the
steps so far and the state after them, holds of the whole run. -/
theorem Along.traces {property : List Act → σ → Prop} {start : σ} {acts : List Act}
    (h : Along step allowed start acts) (hstart : property [] start)
    (hkeeps : ∀ before s act, property before s → allowed s act → property (before ++ [act]) (step s act)) :
    property acts (acts.foldl step start) := by
  have hrun (before rest : List Act) {s : σ} (hrest : Along step allowed s rest) (hbefore : property before s) :
      property (before ++ rest) (rest.foldl step s) := by
    induction rest generalizing before s with
    | nil => simpa using hbefore
    | cons act rest ih =>
      rw [List.append_cons, List.foldl_cons]
      exact ih (before ++ [act]) hrest.2 (hkeeps before s act hbefore hrest.1)
  exact hrun [] acts h hstart

/-- The exact condition of a system: when the allowed steps keep it good, all
other steps make it bad, and bad stays bad, a run ends without bad exactly when
all its steps are allowed. -/
theorem along_iff_not_bad {valid : σ → Act → Prop} (good bad : σ → Prop) (hgood : ∀ s, good s → ¬ bad s)
    (hkeeps : ∀ s act, good s → valid s act → allowed s act → good (step s act))
    (hbreaks : ∀ s act, good s → valid s act → ¬ allowed s act → bad (step s act))
    (hstays : ∀ s act, bad s → bad (step s act)) {start : σ} {acts : List Act} (hstart : good start)
    (hvalid : Along step valid start acts) : Along step allowed start acts ↔ ¬ bad (acts.foldl step start) := by
  have hbad {start : σ} (acts : List Act) (h : bad start) : bad (acts.foldl step start) := by
    induction acts generalizing start with
    | nil => exact h
    | cons act acts ih => exact ih (hstays start act h)
  induction acts generalizing start with
  | nil => exact iff_of_true trivial (hgood start hstart)
  | cons act acts ih =>
    by_cases hallowed : allowed start act
    · have hrest := ih (hkeeps start act hstart hvalid.1 hallowed) hvalid.2
      exact (and_iff_right hallowed).trans hrest
    · refine iff_of_false (fun h => hallowed h.1) fun hgone => hgone ?_
      exact hbad acts (hbreaks start act hstart hvalid.1 hallowed)

end along

end solution_library.invariant
