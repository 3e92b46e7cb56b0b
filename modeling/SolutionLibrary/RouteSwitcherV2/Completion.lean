import SolutionLibrary.Library.Invariant
import SolutionLibrary.RouteSwitcherV2.Isolation

namespace solution_library.route_switcher_v2

/-- The answer to the GET for the entry at a position makes the invocation raise. -/
def Calls.RaisesAt (cloud : Cloud) (calls : Calls) (i : ℕ) (entry : ConfigRouteTable) : Prop :=
  ((calls.routeTables i).map fun _ => some (cloud.tables entry.route_table_id)).Raises

/-- The invocation reaches the loop over the route tables. -/
structure Calls.Reaches (hops : NextHops) (cloud : Cloud) (calls : Calls) : Prop where
  get_config : calls.get_config = true
  targetStates : check_targets cloud.config calls.targetStates = .ok (some hops)

/-- The invocation reaches the loop over the route tables, and no answer makes it
raise there. -/
structure Calls.Completes (hops : NextHops) (cloud : Cloud) (calls : Calls) : Prop
    extends Calls.Reaches hops cloud calls where
  routeTables : ∀ i entry, cloud.entry i = some entry → ¬ calls.RaisesAt cloud i entry

/-- The result of the pass over the entry at a position. -/
def CheckedTable.answered (back_to_primary : Bool) (hops : NextHops) (cloud : Cloud) (calls : Calls)
    (entry : ConfigRouteTable × ℕ) : CheckedTable :=
  if calls.routeTables entry.2 = .ok () then .of back_to_primary hops cloud entry.1 else .skip entry.1

section tick

variable {back_to_primary : Bool} {hops : NextHops} {cloud : Cloud} {calls : Calls} {i : ℕ}
  {entry : ConfigRouteTable}

/-- The next hops of an invocation are determined by the report. -/
theorem Calls.Reaches.unique {other : NextHops} (h : calls.Reaches hops cloud)
    (hother : calls.Reaches other cloud) : hops = other := by
  have hsame := h.targetStates.symm.trans hother.targetStates
  simpa using hsame

theorem check_route_table_answered (h : ¬ calls.RaisesAt cloud i entry) :
    check_route_table back_to_primary hops
        ((calls.routeTables i).map fun _ => some (cloud.tables entry.route_table_id)) entry =
      .ok (.answered back_to_primary hops cloud calls (entry, i)) := by
  simp only [CheckedTable.answered]
  cases hcall : calls.routeTables i with
  | failed => rfl
  | refused body =>
    cases body with
    | object => rfl
    | other => exact absurd (Or.inl (by rw [hcall]; rfl)) h
  | ok _ =>
    rw [if_pos rfl]
    refine check_route_table_of_addressed back_to_primary hops fun route hroute hnone => h ?_
    exact Or.inr ⟨_, by rw [hcall]; rfl, route, hroute, hnone⟩

/-- The requests of an invocation that completes, whatever its other outcomes. -/
theorem handler_of_completes (hcalls : calls.Completes hops cloud) (back_to_primary : Bool) :
    handler back_to_primary cloud calls =
      .of cloud.config (cloud.entries.zipIdx.map (.answered back_to_primary hops cloud calls)) := by
  simp only [handler, hcalls.get_config, if_true, check_router_statuses, hcalls.targetStates, bind, Except.bind]
  cases hconfig : cloud.config.route_tables with
  | none => simp [Cloud.entries, hconfig, Effects.of, Effects.nothing]
  | some route_tables =>
    have hchecked : (route_tables.zipIdx.mapM fun x =>
        check_route_table back_to_primary hops ((calls.routeTables x.2).map fun _ =>
          some (cloud.tables x.1.route_table_id)) x.1) =
        .ok (route_tables.zipIdx.map (.answered back_to_primary hops cloud calls)) := by
      apply traversal.mapM_eq_ok
      rintro ⟨entry, i⟩ hmem
      apply check_route_table_answered
      exact hcalls.routeTables i entry
        (Cloud.entry_eq_some.mpr ⟨_, hconfig, List.mem_zipIdx_iff_getElem?.mp hmem⟩)
    simp only [hchecked, Cloud.entries, hconfig, Option.getD_some]
    rfl

/-- An invocation that stops early or raises requests nothing. -/
theorem handler_of_not_completes (h : ∀ hops, ¬ calls.Completes hops cloud) (back_to_primary : Bool) :
    handler back_to_primary cloud calls = .nothing := by
  by_cases hget : calls.get_config
  · simp only [handler, hget, if_true, check_router_statuses]
    cases htargets : check_targets cloud.config calls.targetStates with
    | error e => rfl
    | ok reached =>
      cases reached with
      | none => rfl
      | some hops =>
        cases hconfig : cloud.config.route_tables with
        | none => rfl
        | some route_tables =>
          have hraises : ∃ i entry, cloud.entry i = some entry ∧ calls.RaisesAt cloud i entry := by
            by_contra hnone
            push Not at hnone
            exact h hops ⟨⟨hget, htargets⟩, hnone⟩
          obtain ⟨i, entry, hentry, hraises⟩ := hraises
          obtain ⟨_, htables, hi⟩ := Cloud.entry_eq_some.mp hentry
          rw [hconfig] at htables
          cases htables
          obtain ⟨e, he⟩ := (check_route_table_raises back_to_primary hops entry).mpr hraises
          obtain ⟨e, hchecked⟩ := traversal.mapM_error (f := fun x : ConfigRouteTable × ℕ =>
            check_route_table back_to_primary hops ((calls.routeTables x.2).map fun _ =>
              some (cloud.tables x.1.route_table_id)) x.1) ⟨(entry, i), List.mem_zipIdx_iff_getElem?.mpr hi, e, he⟩
          simp only [bind, Except.bind, hchecked]
  · simp [handler, hget]

/-- A tick without a successful upload leaves the stored configuration as it was. -/
theorem tick_config_of_not_uploaded (h : ∀ hops, calls.Completes hops cloud → calls.put_config = false) :
    (tick back_to_primary cloud calls).config = cloud.config := by
  by_cases hcompletes : ∃ hops, calls.Completes hops cloud
  · obtain ⟨hops, hcompletes⟩ := hcompletes
    simp [tick, h hops hcompletes]
  · push Not at hcompletes
    simp [tick, handler_of_not_completes hcompletes, Effects.nothing]

theorem tick_entry_of_not_uploaded (h : ∀ hops, calls.Completes hops cloud → calls.put_config = false) :
    (tick back_to_primary cloud calls).entry i = cloud.entry i := by
  rw [Cloud.entry, Cloud.entries, tick_config_of_not_uploaded h, ← Cloud.entries, ← Cloud.entry]

theorem CheckedTable.answered_unchanged
    (h : (CheckedTable.answered back_to_primary hops cloud calls (entry, i)).config_changed = false) :
    (CheckedTable.answered back_to_primary hops cloud calls (entry, i)).config_route_table = entry := by
  unfold CheckedTable.answered at h ⊢
  split
  · next hread =>
    rw [if_pos hread] at h
    exact CheckedTable.of_unchanged h
  · rfl

/-- The entries after an invocation that completes and whose upload, if any,
succeeds. -/
theorem tick_entries_of_completes (hcalls : calls.Completes hops cloud) (hput : calls.put_config = true) :
    (tick back_to_primary cloud calls).entries =
      (cloud.entries.zipIdx.map (.answered back_to_primary hops cloud calls)).map
        CheckedTable.config_route_table := by
  have hentries : (tick back_to_primary cloud calls).entries =
      (handler back_to_primary cloud calls).entries cloud.config := by
    rw [Cloud.entries, tick, hput]
    rfl
  rw [hentries, handler_of_completes hcalls]
  cases hconfig : cloud.config.route_tables with
  | none => simp [Effects.entries, Effects.of, Cloud.entries, hconfig]
  | some route_tables =>
    apply Effects.entries_of hconfig
    have hcloud : cloud.entries = route_tables := by simp [Cloud.entries, hconfig]
    rw [hcloud, List.forall₂_map_right_iff]
    nth_rewrite 1 [← List.zipIdx_map_fst 0 route_tables]
    rw [List.forall₂_map_left_iff, List.forall₂_same]
    exact fun _ _ => CheckedTable.answered_unchanged

theorem tick_entry_of_completes (hcalls : calls.Completes hops cloud) (hput : calls.put_config = true)
    (hentry : cloud.entry i = some entry) :
    (tick back_to_primary cloud calls).entry i =
      some (CheckedTable.answered back_to_primary hops cloud calls (entry, i)).config_route_table := by
  rw [Cloud.entry] at hentry
  simp [Cloud.entry, tick_entries_of_completes hcalls hput, hentry]

/-- An invocation whose calls all succeed completes. -/
theorem Calls.Successful.completes (hcalls : calls.Successful back_to_primary cloud)
    (htargets : check_targets cloud.config calls.targetStates = .ok (some hops)) (haddressed : cloud.Addressed) :
    calls.Completes hops cloud := by
  refine ⟨⟨hcalls.get_config, htargets⟩, fun i entry hentry hraises => ?_⟩
  rw [Calls.RaisesAt, hcalls.routeTables, Answer.map] at hraises
  obtain hrefused | ⟨routeTable, hanswer, route, hroute, hnone⟩ := hraises
  · cases hrefused
  · cases hanswer
    exact haddressed entry (Cloud.mem_entries hentry) route hroute hnone

end tick

/-- A tick with its outcomes, or an edit of a route table by an operator. -/
inductive Event where
  | tick (calls : Calls)
  | edit (id : String) (routes : List StaticRoute)

def Cloud.after (back_to_primary : Bool) (cloud : Cloud) : Event → Cloud
  | .tick calls => tick back_to_primary cloud calls
  | .edit id routes => { cloud with tables := Function.update cloud.tables id routes }

end solution_library.route_switcher_v2
