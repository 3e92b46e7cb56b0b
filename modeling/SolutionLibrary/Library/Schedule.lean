import Mathlib.Data.List.Pairwise
import Mathlib.Data.List.Nodup
import Mathlib.Logic.Function.Basic
import Mathlib.Logic.Relation

namespace solution_library.schedule

/-- Parties with local states act on a shared state. An act is enabled for a
party when `next` gives the new local state of the party. -/
structure System (Act Shared Local : Type*) where
  next : Act → Shared → Local → Option Local
  write : Act → Shared → Shared

section run

variable {ι Act Shared Local : Type*} (sys : System Act Shared Local)

/-- The acts of one party without any others in between. -/
def System.run : List Act → Shared → Local → Option (Shared × Local)
  | [], shared, loc => some (shared, loc)
  | act :: acts, shared, loc => (sys.next act shared loc).bind (run acts (sys.write act shared))

/-- One act of one party. -/
def System.Step (before after : Shared × Local) : Prop :=
  ∃ act, sys.next act before.1 before.2 = some after.2 ∧ sys.write act before.1 = after.1

theorem System.reflTransGen_of_run {sys : System Act Shared Local} {acts : List Act} {shared last : Shared}
    {loc final : Local} (h : sys.run acts shared loc = some (last, final)) :
    Relation.ReflTransGen sys.Step (shared, loc) (last, final) := by
  induction acts generalizing shared loc with
  | nil =>
    cases h
    exact .refl
  | cons act acts ih =>
    obtain ⟨after, hnext, hrest⟩ := Option.bind_eq_some_iff.mp h
    exact .head ⟨act, hnext, rfl⟩ (ih hrest)

/-- Neither act notices whether the other one has come before. -/
structure System.Independent (first second : Act) : Prop where
  write_comm : ∀ shared, sys.write first (sys.write second shared) = sys.write second (sys.write first shared)
  next_first : ∀ shared loc, sys.next first (sys.write second shared) loc = sys.next first shared loc
  next_second : ∀ shared loc, sys.next second (sys.write first shared) loc = sys.next second shared loc

/-- The parties act one after another, each from its local state at the start to
that at the end. -/
def System.Serial (acts : ι → List Act) (locals final : ι → Local) : List ι → Shared → Shared → Prop
  | [], shared, last => shared = last
  | party :: order, shared, last => ∃ middle,
      sys.run (acts party) shared (locals party) = some (middle, final party) ∧
        Serial acts locals final order middle last

theorem System.Serial.congr {sys : System Act Shared Local} {acts : ι → List Act} {locals other final : ι → Local}
    {order : List ι} {shared last : Shared} (h : sys.Serial acts locals final order shared last)
    (hsame : ∀ party ∈ order, locals party = other party) : sys.Serial acts other final order shared last := by
  induction order generalizing shared with
  | nil => exact h
  | cons party order ih =>
    obtain ⟨hhead, htail⟩ := List.forall_mem_cons.mp hsame
    obtain ⟨middle, hrun, hrest⟩ := h
    exact ⟨middle, hhead ▸ hrun, ih hrest htail⟩

variable [DecidableEq ι]

/-- A schedule of acts of several parties. -/
def System.exec : List (ι × Act) → Shared → (ι → Local) → Option (Shared × (ι → Local))
  | [], shared, locals => some (shared, locals)
  | (party, act) :: events, shared, locals =>
    (sys.next act shared (locals party)).bind fun loc =>
      exec events (sys.write act shared) (Function.update locals party loc)

/-- The acts of a party in a schedule. -/
def acts_of (events : List (ι × Act)) (party : ι) : List Act :=
  (events.filter fun event => event.1 = party).map Prod.snd

variable {sys}

theorem exec_append (first second : List (ι × Act)) (shared : Shared) (locals : ι → Local) :
    sys.exec (first ++ second) shared locals =
      (sys.exec first shared locals).bind fun reached => sys.exec second reached.1 reached.2 := by
  induction first generalizing shared locals with
  | nil => rfl
  | cons event first ih =>
    rw [List.cons_append, System.exec, System.exec, Option.bind_assoc]
    exact Option.bind_congr fun loc _ => ih _ _

theorem exec_cons_congr {first second : List (ι × Act)} (event : ι × Act)
    (h : sys.exec first = sys.exec second) : sys.exec (event :: first) = sys.exec (event :: second) := by
  funext shared locals
  rw [System.exec, System.exec, h]

theorem exec_append_congr (front : List (ι × Act)) {first second : List (ι × Act)}
    (h : sys.exec first = sys.exec second) : sys.exec (front ++ first) = sys.exec (front ++ second) := by
  funext shared locals
  rw [exec_append, exec_append, h]

/-- Independent acts of two parties may be exchanged. -/
theorem exec_swap {first second : ι × Act} (hparty : first.1 ≠ second.1)
    (h : sys.Independent first.2 second.2) (events : List (ι × Act)) :
    sys.exec (first :: second :: events) = sys.exec (second :: first :: events) := by
  funext shared locals
  obtain ⟨p, a⟩ := first
  obtain ⟨q, b⟩ := second
  have hpq : p ≠ q := hparty
  have hfirst (shared : Shared) (loc : Local) : sys.next a (sys.write b shared) loc = sys.next a shared loc :=
    h.next_first shared loc
  have hsecond (shared : Shared) (loc : Local) : sys.next b (sys.write a shared) loc = sys.next b shared loc :=
    h.next_second shared loc
  have hwrite : sys.write a (sys.write b shared) = sys.write b (sys.write a shared) := h.write_comm shared
  simp only [System.exec, Function.update_of_ne hpq, Function.update_of_ne hpq.symm, hfirst, hsecond, hwrite]
  cases sys.next a shared (locals p) with
  | none => cases sys.next b shared (locals q) <;> rfl
  | some loc =>
    cases sys.next b shared (locals q) with
    | none => rfl
    | some other => simp only [Option.bind_some, Function.update_comm hpq]

/-- An act moves behind independent acts of other parties. -/
theorem exec_move {event : ι × Act} {front : List (ι × Act)}
    (h : ∀ other ∈ front, event.1 ≠ other.1 ∧ sys.Independent event.2 other.2) (events : List (ι × Act)) :
    sys.exec (event :: (front ++ events)) = sys.exec (front ++ event :: events) := by
  induction front with
  | nil => rfl
  | cons other front ih =>
    obtain ⟨hhead, htail⟩ := List.forall_mem_cons.mp h
    rw [List.cons_append, exec_swap hhead.1 hhead.2, List.cons_append]
    exact exec_cons_congr other (ih htail)

/-- A party whose acts are independent of what precedes them may go first. -/
theorem exec_front (party : ι) {events : List (ι × Act)}
    (h : events.Pairwise fun first second =>
      first.1 ≠ party → second.1 = party → sys.Independent first.2 second.2) :
    sys.exec events = sys.exec
      (events.filter (fun event => event.1 = party) ++ events.filter fun event => event.1 ≠ party) := by
  induction h with
  | nil => rfl
  | @cons event events hhead _ ih =>
    by_cases hparty : event.1 = party
    · rw [List.filter_cons_of_pos (by simpa using hparty), List.filter_cons_of_neg (by simpa using hparty),
        List.cons_append]
      exact exec_cons_congr event ih
    · rw [List.filter_cons_of_neg (by simpa using hparty), List.filter_cons_of_pos (by simpa using hparty),
        exec_cons_congr event ih]
      refine exec_move (fun other hother => ?_) _
      obtain ⟨hmem, hsame⟩ := List.mem_filter.mp hother
      have hother : other.1 = party := of_decide_eq_true hsame
      exact ⟨fun heq => hparty (heq.trans hother), hhead other hmem hparty hother⟩

/-- The acts of one party in a schedule are a run of the party. -/
theorem exec_alone (party : ι) (acts : List Act) (shared : Shared) (locals : ι → Local) :
    sys.exec (acts.map (party, ·)) shared locals =
      (sys.run acts shared (locals party)).map fun reached =>
        (reached.1, Function.update locals party reached.2) := by
  induction acts generalizing shared locals with
  | nil => simp [System.exec, System.run]
  | cons act acts ih =>
    rw [List.map_cons, System.exec, System.run]
    cases sys.next act shared (locals party) with
    | none => rfl
    | some loc => simp [ih]

theorem filter_eq_map_acts_of (events : List (ι × Act)) (party : ι) :
    events.filter (fun event => event.1 = party) = (acts_of events party).map (party, ·) := by
  rw [acts_of, List.map_map]
  refine ((List.map_congr_left fun event hevent => ?_).trans (List.map_id _)).symm
  obtain ⟨_, hsame⟩ := List.mem_filter.mp hevent
  obtain ⟨p, a⟩ := event
  have hparty : p = party := of_decide_eq_true hsame
  simp [hparty]

/-- A schedule leaves the local states of the other parties alone. -/
theorem exec_frame (party : ι) {events : List (ι × Act)} (hevents : ∀ event ∈ events, event.1 ≠ party)
    {shared last : Shared} {locals final : ι → Local} (h : sys.exec events shared locals = some (last, final)) :
    final party = locals party := by
  induction events generalizing shared locals with
  | nil =>
    cases h
    rfl
  | cons event events ih =>
    obtain ⟨hhead, htail⟩ := List.forall_mem_cons.mp hevents
    obtain ⟨loc, _, hrest⟩ := Option.bind_eq_some_iff.mp h
    rw [ih htail hrest, Function.update_of_ne hhead.symm]

/-- A schedule without interleaving is serial. -/
theorem serial_of_exec {acts : ι → List Act} {order : List ι} (hnodup : order.Nodup) {shared last : Shared}
    {locals final : ι → Local}
    (h : sys.exec (order.flatMap fun party => (acts party).map (party, ·)) shared locals = some (last, final)) :
    sys.Serial acts locals final order shared last := by
  induction order generalizing shared locals with
  | nil =>
    cases h
    rfl
  | cons party order ih =>
    obtain ⟨hfresh, hrest⟩ := List.nodup_cons.mp hnodup
    rw [List.flatMap_cons, exec_append, exec_alone] at h
    obtain ⟨_, hhead, htail⟩ := Option.bind_eq_some_iff.mp h
    obtain ⟨⟨middle, loc⟩, hrun, rfl⟩ := Option.map_eq_some_iff.mp hhead
    have hfinal : final party = loc := by
      refine (exec_frame party (fun event hevent => ?_) htail).trans (Function.update_self ..)
      obtain ⟨other, hother, hmem⟩ := List.mem_flatMap.mp hevent
      obtain ⟨act, _, rfl⟩ := List.mem_map.mp hmem
      rintro rfl
      exact hfresh hother
    refine ⟨middle, hfinal ▸ hrun, (ih hrest htail).congr fun other hother => ?_⟩
    refine Function.update_of_ne ?_ _ _
    rintro rfl
    exact hfresh hother

end run

section order

variable {ι Act Shared Local : Type*} [DecidableEq ι] {sys : System Act Shared Local}
  (conflicts : Act → Act → Prop)

/-- Conflicting acts of two parties happen in the order of the parties. -/
def InOrder (order : List ι) (events : List (ι × Act)) : Prop :=
  events.Pairwise fun first second =>
    first.1 ≠ second.1 → conflicts first.2 second.2 → [first.1, second.1].Sublist order

variable {conflicts} (hindependent : ∀ first second, ¬ conflicts first second → sys.Independent first second)
include hindependent

theorem exec_eq_exec_serial {order : List ι} (hnodup : order.Nodup) {events : List (ι × Act)}
    (hparties : ∀ event ∈ events, event.1 ∈ order) (horder : InOrder conflicts order events) :
    sys.exec events = sys.exec (order.flatMap fun party => events.filter fun event => event.1 = party) := by
  induction order generalizing events with
  | nil =>
    cases events with
    | nil => rfl
    | cons event events => exact absurd (hparties event List.mem_cons_self) List.not_mem_nil
  | cons party order ih =>
    obtain ⟨hfresh, hrest⟩ := List.nodup_cons.mp hnodup
    rw [List.flatMap_cons, exec_front party]
    · have hothers : order.flatMap (fun other =>
            (events.filter fun event => event.1 ≠ party).filter fun event => event.1 = other) =
          order.flatMap fun other => events.filter fun event => event.1 = other := by
        refine List.flatMap_congr fun other hother => ?_
        rw [List.filter_filter]
        refine List.filter_congr fun event _ => ?_
        by_cases hevent : event.1 = other
        · have hne : event.1 ≠ party := by
            rintro hsame
            exact hfresh (hsame ▸ hevent ▸ hother)
          simp [hevent, hevent ▸ hne]
        · simp [hevent]
      rw [← hothers]
      refine exec_append_congr _ (ih hrest (fun event hevent => ?_) ?_)
      · obtain ⟨hmem, hne⟩ := List.mem_filter.mp hevent
        exact (List.mem_cons.mp (hparties event hmem)).resolve_left (by simpa using hne)
      · refine (List.Pairwise.filter _ horder).imp_of_mem fun hfirst _ hpair hne hconflict => ?_
        obtain htail | ⟨_, hcons, _⟩ := List.sublist_cons_iff.mp (hpair hne hconflict)
        · exact htail
        · exact absurd (List.cons.inj hcons).1 (by simpa using (List.mem_filter.mp hfirst).2)
    · refine horder.imp fun {first second} hpair hfirst hsecond => hindependent _ _ fun hconflict => ?_
      subst hsecond
      obtain htail | ⟨_, hcons, _⟩ := List.sublist_cons_iff.mp (hpair hfirst hconflict)
      · exact hfresh (htail.subset (List.mem_cons_of_mem _ List.mem_cons_self))
      · exact hfirst (List.cons.inj hcons).1

/-- A schedule whose conflicting acts follow an order of the parties has the
result of the parties acting one after another in that order. -/
theorem serializable {order : List ι} (hnodup : order.Nodup) {events : List (ι × Act)}
    (hparties : ∀ event ∈ events, event.1 ∈ order) (horder : InOrder conflicts order events)
    {shared last : Shared} {locals final : ι → Local}
    (h : sys.exec events shared locals = some (last, final)) :
    sys.Serial (acts_of events) locals final order shared last := by
  rw [exec_eq_exec_serial hindependent hnodup hparties horder] at h
  simp only [filter_eq_map_acts_of] at h
  exact serial_of_exec hnodup h

end order

end solution_library.schedule
