import SolutionLibrary.SpeechKitStream.Client

namespace solution_library.speechkit_stream

/-- The chunks that meet one call: the bytes written when it was opened, and the
chunks counted since then. -/
structure Span where
  opener : ℕ
  following : List AudioDataEvent := []

/-- The bytes of the chunks after the opening one. -/
def Span.counted (span : Span) : ℕ :=
  (span.following.map (·.audioData.length)).sum

/-- The bytes of those of them that get the mutex. -/
def Span.written (span : Span) : ℕ :=
  ((span.following.filter (·.locked)).map (·.audioData.length)).sum

/-- Also together with the opening chunk, the chunks of a span are below the limit. -/
def Span.Fits (span : Span) : Prop :=
  span.opener + span.written < MAX_BYTES_SENT

instance (span : Span) : Decidable span.Fits := inferInstanceAs (Decidable (_ < _))

/-- The span with an act that leaves its call open: a chunk that keeps the
chunks after the opening one below the limit and is not refused by the call, or a
`Dispose` without effect. -/
def Span.extended (client : Client) (span : Span) : Act → Option Span
  | .send e =>
    if client = .hybrid ∨ e.locked then
      let longer := { span with following := span.following ++ [e] }
      if longer.counted < MAX_BYTES_SENT ∧ (e.locked → e.first.audioWritten) then some longer else none
    else some span
  | .dispose locked closed => if locked ∧ (client = .hybrid → closed) then none else some span

/-- The call that an act opens and leaves open, with the first attempt or with
the retry. -/
def Act.opens (client : Client) : Act → Option Span
  | .send e =>
    if e.locked then
      if e.first.Creates client ∧ e.first.configWritten ∧ e.first.audioWritten then
        some { opener := e.audioData.length }
      else if e.retry.Creates client then
        some { opener := if e.retry.configWritten && e.retry.audioWritten then e.audioData.length else 0 }
      else none
    else none
  | .dispose _ _ => none

/-- The acts of a run, cut where a call is opened. -/
def spans (client : Client) : Option Span → List Act → List Span
  | span, [] => span.toList
  | span, act :: acts =>
    match span.bind (·.extended client act) with
    | some longer => spans client (some longer) acts
    | none => span.toList ++ spans client (act.opens client) acts

/-- A chunk shorter than the limit. -/
def Act.Short : Act → Prop
  | .send e => e.audioData.length < MAX_BYTES_SENT
  | .dispose _ _ => True

def Call.Bounded (call : Call) : Prop :=
  call.audioBytes < MAX_BYTES_SENT

/-- The current call is that of a span, and the counter is the length of the
chunks after the opening one. -/
structure State.Tracks (s : State) (span : Option Span) : Prop where
  newest : s.Newest
  current : s.current.map Call.audioBytes = span.map fun span => span.opener + span.written
  counter : ∀ current ∈ span, s.bytesSent = current.counted ∧ current.counted < MAX_BYTES_SENT

section tracks

variable {client : Client} {s : State} {span : Span} {audioData : List UInt8} {attempt : Attempt}

theorem Span.counted_append (span : Span) (e : AudioDataEvent) :
    ({ span with following := span.following ++ [e] } : Span).counted = span.counted + e.audioData.length := by
  simp [Span.counted]

theorem Span.written_append (span : Span) (e : AudioDataEvent) :
    ({ span with following := span.following ++ [e] } : Span).written =
      span.written + if e.locked then e.audioData.length else 0 := by
  cases hlocked : e.locked <;> simp [Span.written, List.filter_append, hlocked]

theorem Call.audioBytes_write (call : Call) (audioData : List UInt8) (written : Bool) :
    (call.write (.audio audioData) written).audioBytes =
      call.audioBytes + if written then audioData.length else 0 := by
  cases written <;> simp [Call.write, Call.audioBytes, Call.audio, Request.audioData]

theorem Attempt.audioBytes_openedCall (attempt : Attempt) (reads : Bool) (audioData : List UInt8) :
    (attempt.openedCall reads audioData).audioBytes =
      if attempt.configWritten && attempt.audioWritten then audioData.length else 0 := by
  unfold Attempt.openedCall
  cases attempt.configWritten with
  | false => rfl
  | true =>
    have hconfig : ({ delivered := [.config], reading := reads } : Call).audioBytes = 0 := rfl
    simp [Call.audioBytes_write, hconfig]

theorem Attempt.bounded_openedCall (attempt : Attempt) (reads : Bool)
    (hshort : audioData.length < MAX_BYTES_SENT) : (attempt.openedCall reads audioData).Bounded := by
  rw [Call.Bounded, attempt.audioBytes_openedCall]
  split
  · exact hshort
  · decide

/-- While a call is live, the counter of a C# `int` does not wrap around. -/
theorem State.bytesSent_count (h : 0 ≤ s.bytesSent ∧ s.bytesSent < MAX_BYTES_SENT)
    (hshort : audioData.length < MAX_BYTES_SENT) :
    (s.count audioData).bytesSent = s.bytesSent + audioData.length := by
  have hmax : MAX_BYTES_SENT = 10485760 := rfl
  rw [hmax] at h hshort
  refine Int.bmod_eq_of_le ?_ ?_ <;> omega

/-- A call that survives the counting of a chunk was live before, and the
counter stays below the limit. -/
theorem State.of_call_count {call : ℕ} (hcall : (s.count audioData).call = some call) :
    s.call = some call ∧ (s.count audioData).bytesSent < MAX_BYTES_SENT := by
  simp only [State.count, Option.ite_none_left_eq_some, Int.not_le] at hcall
  exact ⟨hcall.2, hcall.1⟩

theorem State.Tracks.bytesSent_count (h : s.Tracks (some span)) (hshort : audioData.length < MAX_BYTES_SENT) :
    (s.count audioData).bytesSent = (span.counted + audioData.length : ℕ) := by
  obtain ⟨hcounter, hlt⟩ := h.counter span rfl
  rw [State.bytesSent_count (by omega) hshort, hcounter, Int.natCast_add]

/-- The chunks after the opening one decide whether the call is kept. -/
theorem State.Tracks.call_count (h : s.Tracks (some span)) (hshort : audioData.length < MAX_BYTES_SENT) :
    (s.count audioData).call = if span.counted + audioData.length < MAX_BYTES_SENT then s.call else none := by
  change (if MAX_BYTES_SENT ≤ (s.count audioData).bytesSent then none else s.call) = _
  rw [h.bytesSent_count hshort, ← ite_not]
  simp only [Nat.cast_le, Nat.not_le]

theorem State.Tracks.call_eq_none (h : s.Tracks none) : s.call = none := by
  cases hcall : s.call with
  | none => rfl
  | some call =>
    obtain ⟨older, newest, hcalls, rfl⟩ := h.newest.exists_last hcall
    have hcurrent := h.current
    rw [State.current_eq_some hcalls hcall] at hcurrent
    cases hcurrent

theorem State.Tracks.call_count_none (h : s.Tracks none) : (s.count audioData).call = none := by
  have hcall := s.call_count audioData
  rwa [h.call_eq_none, or_self] at hcall

theorem State.Tracks.exists_last (h : s.Tracks (some span)) : ∃ older newest, s.calls = older ++ [newest] ∧
    s.call = some older.length ∧ newest.audioBytes = span.opener + span.written := by
  obtain ⟨current, hcurrent, hbytes⟩ := Option.map_eq_some_iff.mp h.current
  obtain ⟨call, hcall, -⟩ := Option.bind_eq_some_iff.mp hcurrent
  obtain ⟨older, newest, hcalls, rfl⟩ := h.newest.exists_last hcall
  rw [State.current_eq_some hcalls hcall] at hcurrent
  cases hcurrent
  exact ⟨older, current, hcalls, hcall, hbytes⟩

theorem zero_lt_max : 0 < MAX_BYTES_SENT := by
  decide

theorem tracks_none (hnewest : s.Newest) (hcall : s.call = none) : s.Tracks none :=
  ⟨hnewest, by rw [State.current_eq_none hcall]; rfl, by simp⟩

theorem tracks_last {older : List Call} {newest : Call} (hcalls : s.calls = older ++ [newest])
    (hcall : s.call = some older.length) (hbytes : newest.audioBytes = span.opener + span.written)
    (hcounter : s.bytesSent = span.counted) (hlt : span.counted < MAX_BYTES_SENT) : s.Tracks (some span) := by
  refine ⟨fun call hcurrent => ?_, ?_, fun current hmem => ?_⟩
  · rw [hcall] at hcurrent
    cases hcurrent
    simp [hcalls]
  · rw [State.current_eq_some hcalls hcall, Option.map_some, hbytes, Option.map_some]
  · cases hmem
    exact ⟨hcounter, hlt⟩

/-- A call that has just been opened, with the bytes of the chunk that opened it. -/
theorem tracks_opened (s : State) (audioData : List UInt8) (attempt : Attempt) :
    (s.opened client audioData attempt).Tracks
      (some { opener := if attempt.configWritten && attempt.audioWritten then audioData.length else 0 }) :=
  tracks_last rfl rfl (attempt.audioBytes_openedCall _ audioData) rfl zero_lt_max

/-- The retry opens a call, or leaves the client without one. -/
theorem tracks_retried {before : State} (hcall : before.call = none) :
    (writeAudio client before audioData attempt).2.Tracks (if attempt.Creates client then
      some { opener := if attempt.configWritten && attempt.audioWritten then audioData.length else 0 }
    else none) := by
  rw [writeAudio_of_none hcall]
  split
  · exact tracks_opened before audioData attempt
  · exact tracks_none (fun call hcurrent => by simp [hcall] at hcurrent) hcall

/-- A chunk that the current call does not take: it opens another one, or none. -/
theorem tracks_of_not_taken {e : AudioDataEvent} (hlocked : e.locked = true) (hnewest : s.Newest)
    (hfails : (s.count e.audioData).call ≠ none → e.first.audioWritten = false) :
    (listenerSpeechKitSend client s e).2.Tracks ((Act.send e).opens client) := by
  have hcount : (s.count e.audioData).Newest := hnewest.dropped rfl (s.call_count e.audioData)
  have hattempted : Attempted client e.audioData e.first _ _ := hcount.attempted
  simp only [Act.opens, hlocked, ↓reduceIte]
  refine listenerSpeechKitSend_rule (fun _ after => after.Tracks _) hlocked (fun after hwritten => ?_)
    fun before hfailed => ?_
  · rw [hwritten] at hattempted
    generalize hresult : (true, after) = result at hattempted
    cases hattempted with
    | reused older newest hcalls hcall =>
      have hrefused := hfails (by simp [hcall])
      simp [hrefused] at hresult
    | opened hcall hcreates =>
      obtain ⟨hboth, rfl⟩ := Prod.mk.inj hresult
      have hopened : ((s.count e.audioData).opened client e.audioData e.first).Tracks _ := tracks_opened _ _ _
      rw [← hboth, if_pos rfl] at hopened
      rwa [if_pos ⟨hcreates, (Bool.and_eq_true_iff.mp hboth.symm)⟩]
    | uncreated => cases hresult
  · have hnot : ¬ (e.first.Creates client ∧ e.first.configWritten ∧ e.first.audioWritten) := by
      rintro ⟨hcreates, hconfig, haudio⟩
      by_cases hcall : (s.count e.audioData).call = none
      · rw [writeAudio_of_none hcall, if_pos hcreates, hconfig, haudio] at hfailed
        cases hfailed
      · simp [hfails hcall] at haudio
    rw [if_neg hnot]
    exact tracks_retried rfl

theorem State.Tracks.stepped_of_taken (h : s.Tracks (some span)) {act : Act} (hshort : act.Short) {longer : Span}
    (htaken : span.extended client act = some longer) : (step client s act).Tracks (some longer) := by
  obtain ⟨older, newest, hcalls, hcall, hbytes⟩ := h.exists_last
  cases act with
  | dispose locked closed =>
    simp only [Span.extended, Option.ite_none_left_eq_some, Option.some.injEq] at htaken
    obtain ⟨hkept, rfl⟩ := htaken
    have hsame : s.dispose client locked closed = s := by
      cases client <;> cases locked <;> cases closed <;> simp_all [State.dispose]
    rwa [step, hsame]
  | send e =>
    have hcount := h.bytesSent_count hshort
    have hcountCall := h.call_count hshort
    simp only [Span.extended] at htaken
    split at htaken
    · next hcounted =>
      simp only [Option.ite_none_right_eq_some, Option.some.injEq, span.counted_append] at htaken
      obtain ⟨⟨hkept, hwritten⟩, rfl⟩ := htaken
      rw [if_pos hkept, hcall] at hcountCall
      cases hlocked : e.locked with
      | false =>
        have hclient : client = .hybrid := hcounted.resolve_right (by simp [hlocked])
        simp only [step, listenerSpeechKitSend_of_not_locked hlocked, if_pos hclient]
        refine tracks_last hcalls hcountCall ?_ ?_ ?_
        · rw [span.written_append, hlocked]
          exact hbytes
        · rw [hcount, span.counted_append]
        · rwa [span.counted_append]
      | true =>
        have hsame : (s.count e.audioData).calls = older ++ [newest] := hcalls
        have hwritten := hwritten hlocked
        have hlistener : (listenerSpeechKitSend client s e).2 = { s.count e.audioData with
            calls := older ++ [newest.write (.audio e.audioData) true] } := by
          simp only [listenerSpeechKitSend, hlocked, or_true, ↓reduceIte, writeAudio_of_some hcountCall, hwritten,
            State.write_last hsame]
        simp only [step, hlistener]
        refine tracks_last rfl hcountCall ?_ ?_ ?_
        · rw [Call.audioBytes_write, span.written_append, hlocked, hbytes, if_pos rfl]
          exact Nat.add_assoc ..
        · rw [span.counted_append]
          exact hcount
        · rwa [span.counted_append]
    · next hcounted =>
      -- the streaming client does not even count a chunk that does not get the mutex
      cases htaken
      obtain ⟨hclient, hlocked⟩ := not_or.mp hcounted
      simp only [step, listenerSpeechKitSend_of_not_locked (Bool.eq_false_iff.mpr hlocked), if_neg hclient]
      exact h

/-- The current call, if there is one, does not take the act. -/
theorem State.Tracks.stepped_of_not_taken {current : Option Span} (h : s.Tracks current) {act : Act}
    (hshort : act.Short) (hcut : current.bind (·.extended client act) = none) :
    (step client s act).Tracks (act.opens client) := by
  have hnewest : (step client s act).Newest := (h.newest.stepped act).1
  cases act with
  | dispose locked closed =>
    refine tracks_none hnewest ?_
    cases current with
    | none =>
      have hcall := (dispose_calls client s locked closed).2
      rwa [h.call_eq_none, or_self] at hcall
    | some span =>
      simp only [Option.bind_some, Span.extended, ite_eq_left_iff, reduceCtorEq, imp_false, not_not] at hcut
      obtain ⟨rfl, hclosed⟩ := hcut
      cases client with
      | streaming => rfl
      | hybrid => simp [step, State.dispose, hclosed rfl]
  | send e =>
    cases hlocked : e.locked with
    | false =>
      simp only [Act.opens, hlocked, Bool.false_eq_true, ↓reduceIte]
      refine tracks_none hnewest ?_
      simp only [step, listenerSpeechKitSend_of_not_locked hlocked]
      cases current with
      | none =>
        split
        · exact h.call_count_none
        · exact h.call_eq_none
      | some span =>
        simp only [Option.bind_some, Span.extended, hlocked, Bool.false_eq_true, or_false, false_implies, and_true,
          span.counted_append] at hcut
        split at hcut
        · next hclient =>
          simp only [ite_eq_right_iff, reduceCtorEq, imp_false] at hcut
          rw [if_pos hclient, h.call_count hshort, if_neg hcut]
        · cases hcut
    | true =>
      refine tracks_of_not_taken hlocked h.newest fun hlive => ?_
      cases current with
      | none => exact absurd h.call_count_none hlive
      | some span =>
        simp only [Option.bind_some, Span.extended, hlocked, or_true, ↓reduceIte, forall_const, span.counted_append,
          ite_eq_right_iff, reduceCtorEq, imp_false, not_and, Bool.not_eq_true] at hcut
        refine hcut (Classical.byContradiction fun hover => hlive ?_)
        rw [h.call_count hshort, if_neg hover]

/-- An act keeps all calls below the limit when the span that it extends, if it
extends one, stays below it. -/
theorem bounded_stepped {current : Option Span} (h : s.Tracks current) {act : Act} (hshort : act.Short)
    (hbounded : ∀ call ∈ s.calls, call.Bounded)
    (hfits : ∀ longer ∈ current.bind (·.extended client act), longer.Fits) :
    ∀ call ∈ (step client s act).calls, call.Bounded := by
  have hholds : s.Holds Call.Bounded fun _ => True := ⟨h.newest, hbounded, fun _ _ => trivial⟩
  cases act with
  | dispose locked closed =>
    rw [step, (dispose_calls client s locked closed).1]
    exact hbounded
  | send e =>
    cases hlocked : e.locked with
    | false =>
      rw [step, listenerSpeechKitSend_of_not_locked hlocked]
      cases client <;> exact hbounded
    | true =>
      refine (hholds.listener (fun call hcurrent hbefore _ => ⟨?_, trivial⟩)
        (fun _ _ _ => ⟨e.first.bounded_openedCall _ hshort, trivial⟩)
        fun _ _ _ _ => ⟨e.retry.bounded_openedCall _ hshort, trivial⟩).all
      rw [Call.Bounded, Call.audioBytes_write]
      split
      · next hwritten =>
        obtain ⟨i, hi, hcall⟩ := Option.bind_eq_some_iff.mp hcurrent
        cases current with
        | none => cases h.call_count_none.symm.trans hi
        | some span =>
          obtain ⟨older, newest, hcalls, hlive, hbytes⟩ := h.exists_last
          rw [h.call_count hshort, Option.ite_none_right_eq_some] at hi
          obtain ⟨hkept, hi⟩ := hi
          cases hlive.symm.trans hi
          have hsame : (s.count e.audioData).calls = older ++ [newest] := hcalls
          simp only [hsame, List.getElem?_concat_length, Option.some.injEq] at hcall
          subst hcall
          have hlonger := hfits { span with following := span.following ++ [e] } (by
            simp [Span.extended, hlocked, hwritten, span.counted_append, hkept])
          rw [Span.Fits, span.written_append, if_pos hlocked] at hlonger
          rwa [hbytes, Nat.add_assoc]
      · exact hbefore

end tracks

theorem audioBytes_mono {before after : Call} (h : before.Extends after) : before.audioBytes ≤ after.audioBytes := by
  obtain ⟨added, hadded⟩ := h.delivered
  simp only [Call.audioBytes, Call.audio, ← hadded, List.filterMap_append, List.map_append, List.sum_append]
  exact Nat.le_add_right _ _

theorem bounded_of_grows {before after : List Call} (h : Grows before after) (hafter : ∀ call ∈ after, call.Bounded) :
    ∀ call ∈ before, call.Bounded := by
  intro call hcall
  obtain ⟨last, hlast, hextends⟩ := h call hcall
  exact lt_of_le_of_lt (audioBytes_mono hextends) (hafter last hlast)

theorem Span.written_extended {client : Client} {span longer : Span} {act : Act}
    (h : span.extended client act = some longer) :
    longer.opener = span.opener ∧ span.written ≤ longer.written := by
  cases act with
  | dispose locked closed =>
    simp only [Span.extended, Option.ite_none_left_eq_some, Option.some.injEq] at h
    obtain ⟨-, rfl⟩ := h
    exact ⟨rfl, le_rfl⟩
  | send e =>
    simp only [Span.extended] at h
    split at h
    · simp only [Option.ite_none_right_eq_some, Option.some.injEq] at h
      obtain ⟨-, rfl⟩ := h
      exact ⟨rfl, by rw [span.written_append]; exact Nat.le_add_right _ _⟩
    · cases h
      exact ⟨rfl, le_rfl⟩

/-- A span that is cut off later is at least as long. -/
theorem fits_of_spans {client : Client} {span : Span} {acts : List Act}
    (h : ∀ last ∈ spans client (some span) acts, last.Fits) : span.Fits := by
  induction acts generalizing span with
  | nil => exact h span (by simp [spans])
  | cons act acts ih =>
    simp only [spans, Option.bind_some] at h
    split at h
    · next longer htaken =>
      obtain ⟨hopener, hwritten⟩ := Span.written_extended htaken
      have hlonger := ih h
      rw [Span.Fits] at hlonger ⊢
      omega
    · exact h span (by simp)

/-- The calls of a client that goes on from a tracked state. -/
theorem State.Tracks.bounded_iff {client : Client} {s : State} {span : Option Span} (h : s.Tracks span)
    {acts : List Act} (hshort : ∀ act ∈ acts, act.Short) :
    (∀ call ∈ (acts.foldl (step client) s).calls, call.Bounded) ↔
      (∀ call ∈ s.calls, call.Bounded) ∧ ∀ last ∈ spans client span acts, last.Fits := by
  induction acts generalizing s span with
  | nil =>
    refine ⟨fun hbounded => ⟨hbounded, fun last hlast => ?_⟩, And.left⟩
    obtain rfl : span = some last := by simpa [spans] using hlast
    obtain ⟨older, newest, hcalls, -, hbytes⟩ := h.exists_last
    rw [Span.Fits, ← hbytes]
    exact hbounded newest (by simp [hcalls])
  | cons act acts ih =>
    obtain ⟨hact, hacts⟩ := List.forall_mem_cons.mp hshort
    have hgrows : Grows s.calls (step client s act).calls := (h.newest.stepped act).2
    rw [List.foldl_cons, spans]
    cases htaken : span.bind (·.extended client act) with
    | some longer =>
      obtain ⟨current, rfl, hextended⟩ := Option.bind_eq_some_iff.mp htaken
      rw [ih (h.stepped_of_taken hact hextended) hacts]
      refine and_congr_left fun hrest => ⟨bounded_of_grows hgrows, fun hbounded => ?_⟩
      refine bounded_stepped h hact hbounded fun last hlast => ?_
      cases htaken.symm.trans hlast
      exact fits_of_spans hrest
    | none =>
      rw [ih (h.stepped_of_not_taken hact htaken) hacts]
      simp only [List.mem_append, or_imp, forall_and]
      rw [← and_assoc]
      refine and_congr_left fun _ => ⟨fun hbounded => ?_, fun hbounded => ?_⟩
      · have hbefore := bounded_of_grows hgrows hbounded
        refine ⟨hbefore, fun last hlast => ?_⟩
        obtain rfl : span = some last := by simpa using hlast
        obtain ⟨older, newest, hcalls, -, hbytes⟩ := h.exists_last
        rw [Span.Fits, ← hbytes]
        exact hbefore newest (by simp [hcalls])
      · exact bounded_stepped h hact hbounded.1 (by simp [htaken])

/-- In a run of chunks below the limit every call stays below it exactly when the
chunks between two openings fit together with the one that opened the call. -/
theorem bounded_iff_fits (client : Client) (acts : List Act) (hshort : ∀ act ∈ acts, act.Short) :
    (∀ call ∈ (run client acts).calls, call.audioBytes < MAX_BYTES_SENT) ↔
      ∀ span ∈ spans client none acts, span.Fits :=
  (State.Tracks.bounded_iff (tracks_none newest_init rfl) hshort).trans (and_iff_right (by simp))

/-- Two chunks, the second one on the call of the first one. -/
theorem bounded_iff_fits_pair :
    let acts : List Act := [.send { audioData := [1, 2, 3] }, .send { audioData := [4, 5] }]
    (run .hybrid acts).calls.map Call.audio = [[[1, 2, 3], [4, 5]]] ∧
      ∀ call ∈ (run .hybrid acts).calls, call.audioBytes < MAX_BYTES_SENT :=
  ⟨by decide, (bounded_iff_fits .hybrid _ (by simp [Act.Short, MAX_BYTES_SENT])).mpr (by decide)⟩

theorem spans_pair (client : Client) (opener : List UInt8) {audioData : List UInt8}
    (hshort : audioData.length < MAX_BYTES_SENT) :
    spans client none [.send { audioData := opener }, .send { audioData }] =
      [{ opener := opener.length, following := [{ audioData }] }] := by
  have hcreates : ({} : Attempt).Creates client := ⟨rfl, fun _ => rfl⟩
  simp [spans, Act.opens, Span.extended, Span.counted, hcreates, hshort]

/-- Each of two chunks is below the limit, both together are not. -/
theorem pair_not_bounded (client : Client) {opener audioData : List UInt8} (hopener : opener.length < MAX_BYTES_SENT)
    (hshort : audioData.length < MAX_BYTES_SENT) (hover : MAX_BYTES_SENT ≤ opener.length + audioData.length) :
    ∃ call ∈ (run client [.send { audioData := opener }, .send { audioData }]).calls,
      MAX_BYTES_SENT ≤ call.audioBytes := by
  have hacts : ∀ act ∈ ([.send { audioData := opener }, .send { audioData }] : List Act), act.Short :=
    List.forall_mem_cons.mpr ⟨hopener, List.forall_mem_singleton.mpr hshort⟩
  have hiff : (∀ call ∈ (run client [.send { audioData := opener }, .send { audioData }]).calls, call.Bounded) → _ :=
    ((tracks_none newest_init rfl).bounded_iff hacts).mp
  rw [spans_pair client _ hshort, List.forall_mem_singleton] at hiff
  refine Classical.byContradiction fun hnot => ?_
  have hfits := (hiff fun call hcall => Nat.lt_of_not_le fun hle => hnot ⟨call, hcall, hle⟩).2
  exact absurd hfits (Nat.not_lt.mpr (by simpa [Span.written] using hover))

/-- Two chunks of 6 MiB. -/
theorem two_chunks_not_bounded :
    let acts : List Act := [.send { audioData := List.replicate (6 * 1024 * 1024) 0 },
      .send { audioData := List.replicate (6 * 1024 * 1024) 0 }]
    (∀ act ∈ acts, act.Short) ∧ (∃ call ∈ (run .streaming acts).calls, MAX_BYTES_SENT ≤ call.audioBytes) ∧
      ∃ call ∈ (run .hybrid acts).calls, MAX_BYTES_SENT ≤ call.audioBytes := by
  have hlength : (List.replicate (6 * 1024 * 1024) (0 : UInt8)).length = 6 * 1024 * 1024 := List.length_replicate
  have hshort : (List.replicate (6 * 1024 * 1024) (0 : UInt8)).length < MAX_BYTES_SENT := by
    rw [hlength]
    decide
  have hover : MAX_BYTES_SENT ≤ (List.replicate (6 * 1024 * 1024) (0 : UInt8)).length +
      (List.replicate (6 * 1024 * 1024) (0 : UInt8)).length := by
    rw [hlength]
    decide
  exact ⟨List.forall_mem_cons.mpr ⟨hshort, List.forall_mem_singleton.mpr hshort⟩,
    pair_not_bounded .streaming hshort hshort hover, pair_not_bounded .hybrid hshort hshort hover⟩

end solution_library.speechkit_stream
