import Mathlib.Algebra.Order.Ring.Int

namespace solution_library.tracker_import

variable {Issue : Type}

/-- The headers of the first search response that the script reads. -/
structure SearchHeaders where
  total_count : ℤ
  scroll_id : String
  scroll_token : String

/-- What Tracker does with the requests of one search. A request without an answer raises. The later requests are
numbered; each carries a scroll id and a scroll token. -/
structure SearchServer (Issue : Type) where
  first : Option (List Issue × SearchHeaders)
  later : ℕ → String → String → Option (List Issue)

/-- How far a search came, with the issues collected so far. -/
inductive Search (Issue : Type) where
  | loaded (issues : List Issue)
  | raised (issues : List Issue)
  | running (issues : List Issue)
  deriving DecidableEq

namespace Search

/-- The issues that Tracker has returned to the search. -/
def issues : Search Issue → List Issue
  | loaded issues => issues
  | raised issues => issues
  | running issues => issues

end Search

namespace SearchServer

variable (server : SearchServer Issue) (headers : SearchHeaders)

/-- The loop over the pages after the first one, for at most `fuel` more requests. The headers stay those of the
first response. -/
def scroll : ℕ → ℕ → List Issue → Search Issue
  | fuel, request, issues =>
    if issues.length < headers.total_count then
      match fuel with
      | 0 => .running issues
      | fuel + 1 =>
        match server.later request headers.scroll_id headers.scroll_token with
        | none => .raised issues
        | some page => scroll fuel (request + 1) (issues ++ page)
    else .loaded issues

def get_tracker_issues (fuel : ℕ) : Search Issue :=
  match server.first with
  | none => .raised []
  | some (page, headers) => server.scroll headers fuel 0 page

variable {server headers}

theorem scroll_loaded {issues : List Issue} (h : headers.total_count ≤ issues.length) (fuel request : ℕ) :
    server.scroll headers fuel request issues = .loaded issues := by
  unfold scroll
  exact if_neg (not_lt.mpr h)

theorem scroll_zero {issues : List Issue} (h : issues.length < headers.total_count) (request : ℕ) :
    server.scroll headers 0 request issues = .running issues := by
  unfold scroll
  exact if_pos h

theorem scroll_succ {issues : List Issue} (h : issues.length < headers.total_count) (fuel request : ℕ) :
    server.scroll headers (fuel + 1) request issues =
      match server.later request headers.scroll_id headers.scroll_token with
      | none => .raised issues
      | some page => server.scroll headers fuel (request + 1) (issues ++ page) := by
  rw [scroll, if_pos h]

end SearchServer

/-- The issues of the first page and of the first `n` later ones. -/
def collected (first : List Issue) (pages : ℕ → List Issue) : ℕ → List Issue
  | 0 => first
  | n + 1 => collected first pages n ++ pages n

section collected

variable {first : List Issue} {pages : ℕ → List Issue}

theorem collected_isPrefix (first : List Issue) (pages : ℕ → List Issue) {m n : ℕ} (h : m ≤ n) :
    collected first pages m <+: collected first pages n := by
  induction n, h using Nat.le_induction with
  | base => exact List.prefix_refl _
  | succ n _ ih => exact ih.trans (List.prefix_append _ _)

theorem collected_of_empty (first : List Issue) (n : ℕ) : collected first (fun _ => []) n = first := by
  induction n with
  | zero => rfl
  | succ n ih => rw [collected, ih, List.append_nil]

end collected

/-- A server that answers every request. -/
def SearchServer.answering (first : List Issue) (headers : SearchHeaders) (pages : ℕ → List Issue) :
    SearchServer Issue where
  first := some (first, headers)
  later request _ _ := some (pages request)

namespace SearchServer

variable {first : List Issue} {headers : SearchHeaders} {pages : ℕ → List Issue}

variable (first headers pages) in
/-- The loop goes on as long as too few issues are collected, and no longer. -/
theorem scroll_answering (fuel request : ℕ) :
    (∃ n ≤ fuel, headers.total_count ≤ (collected first pages (request + n)).length ∧
      (∀ k < n, (collected first pages (request + k)).length < headers.total_count) ∧
      (answering first headers pages).scroll headers fuel request (collected first pages request) =
        .loaded (collected first pages (request + n))) ∨
    ((collected first pages (request + fuel)).length < headers.total_count ∧
      (answering first headers pages).scroll headers fuel request (collected first pages request) =
        .running (collected first pages (request + fuel))) := by
  induction fuel generalizing request with
  | zero =>
    obtain h | h := lt_or_ge ((collected first pages request).length : ℤ) headers.total_count
    · exact .inr ⟨h, scroll_zero h request⟩
    · exact .inl ⟨0, le_rfl, h, fun k hk => absurd hk (Nat.not_lt_zero k), scroll_loaded h 0 request⟩
  | succ fuel ih =>
    obtain h | h := lt_or_ge ((collected first pages request).length : ℤ) headers.total_count
    · have hstep : (answering first headers pages).scroll headers (fuel + 1) request (collected first pages request) =
          (answering first headers pages).scroll headers fuel (request + 1) (collected first pages (request + 1)) :=
        scroll_succ h fuel request
      rw [hstep]
      obtain ⟨n, hn, htotal, hbefore, hloaded⟩ | ⟨hless, hrunning⟩ := ih (request + 1)
      · rw [show request + 1 + n = request + (n + 1) by omega] at htotal hloaded
        refine .inl ⟨n + 1, by omega, htotal, fun k hk => ?_, hloaded⟩
        cases k with
        | zero => exact h
        | succ k =>
          have hk' := hbefore k (by omega)
          rwa [show request + 1 + k = request + (k + 1) by omega] at hk'
      · rw [show request + 1 + fuel = request + (fuel + 1) by omega] at hless hrunning
        exact .inr ⟨hless, hrunning⟩
    · exact .inl ⟨0, Nat.zero_le _, h, fun k hk => absurd hk (Nat.not_lt_zero k), scroll_loaded h (fuel + 1) request⟩

theorem get_tracker_issues_answering (first : List Issue) (headers : SearchHeaders) (pages : ℕ → List Issue)
    (fuel : ℕ) :
    (∃ n ≤ fuel, headers.total_count ≤ (collected first pages n).length ∧
      (∀ k < n, (collected first pages k).length < headers.total_count) ∧
      (answering first headers pages).get_tracker_issues fuel = .loaded (collected first pages n)) ∨
    ((collected first pages fuel).length < headers.total_count ∧
      (answering first headers pages).get_tracker_issues fuel = .running (collected first pages fuel)) := by
  have h := scroll_answering first headers pages fuel 0
  simp only [Nat.zero_add] at h
  exact h

/-- Where the pages hold exactly the announced number of issues, the search returns them in order. -/
theorem get_tracker_issues_of_length_eq {n fuel : ℕ}
    (h : ((collected first pages n).length : ℤ) = headers.total_count) (hfuel : n ≤ fuel) :
    (answering first headers pages).get_tracker_issues fuel = .loaded (collected first pages n) := by
  obtain ⟨m, -, htotal, hbefore, hloaded⟩ | ⟨hless, -⟩ := get_tracker_issues_answering first headers pages fuel
  · have hm : m ≤ n := by
      by_contra hnot
      have hless := hbefore n (by omega)
      omega
    have hlength : (collected first pages n).length ≤ (collected first pages m).length := by omega
    rw [hloaded, (collected_isPrefix first pages hm).eq_of_length_le hlength]
  · have hlength := (collected_isPrefix first pages hfuel).length_le
    omega

/-- The search ends exactly when the pages reach the announced number. -/
theorem exists_loaded_iff : (∃ fuel issues, (answering first headers pages).get_tracker_issues fuel = .loaded issues) ↔
    ∃ n, headers.total_count ≤ (collected first pages n).length := by
  constructor
  · rintro ⟨fuel, issues, hloaded⟩
    obtain ⟨n, -, htotal, -, -⟩ | ⟨-, hrunning⟩ := get_tracker_issues_answering first headers pages fuel
    · exact ⟨n, htotal⟩
    · rw [hloaded] at hrunning
      cases hrunning
  · rintro ⟨n, htotal⟩
    obtain ⟨m, -, -, -, hloaded⟩ | ⟨hless, -⟩ := get_tracker_issues_answering first headers pages n
    · exact ⟨n, _, hloaded⟩
    · omega

/-- The pagination does its work exactly on the servers whose pages reach the announced number: the search ends, and
where the pages together hold that number of issues it returns them in order. -/
theorem search_complete_iff (first : List Issue) (headers : SearchHeaders) (pages : ℕ → List Issue) :
    ((∃ fuel issues, (answering first headers pages).get_tracker_issues fuel = .loaded issues) ∧
      ∀ n, ((collected first pages n).length : ℤ) = headers.total_count → ∀ fuel, n ≤ fuel →
        (answering first headers pages).get_tracker_issues fuel = .loaded (collected first pages n)) ↔
    ∃ n, headers.total_count ≤ (collected first pages n).length := by
  rw [exists_loaded_iff]
  exact and_iff_left fun n h fuel hfuel => get_tracker_issues_of_length_eq h hfuel

/-- The scroll expires after the first page: each further page is empty and the loop asks for ever. -/
theorem expired_scroll_never_loaded : ¬ ∃ fuel issues,
    (answering ["ARCH-1"] ⟨2, "scroll", "token"⟩ fun _ => []).get_tracker_issues fuel = .loaded issues := by
  rw [exists_loaded_iff]
  rintro ⟨n, htotal⟩
  rw [collected_of_empty] at htotal
  cases htotal

end SearchServer

end solution_library.tracker_import
