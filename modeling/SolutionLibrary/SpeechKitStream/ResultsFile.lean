import SolutionLibrary.SpeechKitStream.FileSession

open solution_library.invariant solution_library.overwriting

namespace solution_library.speechkit_stream

/-- The results that come in a step. -/
def SessionAct.received : SessionAct → List SpeechRecognitionChunk
  | .receive _ chunk => [chunk]
  | _ => []

/-- The text of the final results. -/
def finals (chunks : List SpeechRecognitionChunk) : List UInt8 :=
  (chunks.filter SpeechRecognitionChunk.Final).flatMap SpeechRecognitionChunk.asJson

/-- The last result, while it is not final. -/
def partialResult (chunks : List SpeechRecognitionChunk) : Option SpeechRecognitionChunk :=
  chunks.getLast?.filter fun chunk => !chunk.Final

/-- The result that the handler is at. -/
def Handler.chunk : Handler → Option SpeechRecognitionChunk
  | .waiting => none
  | .received chunk | .written chunk | .stopped chunk => some chunk

/-- The result that the handler has not written. -/
def Handler.inHand : Handler → List SpeechRecognitionChunk
  | .waiting | .written _ => []
  | .received chunk | .stopped chunk => [chunk]

/-- `DoSttStreaming` writes the last result at no time when the handler is at a
final one. -/
def Session.Settled (s : Session) (act : SessionAct) : Prop :=
  act = .flush → ∀ chunk ∈ s.handler.chunk, chunk.Final = false

section texts

variable {chunks : List SpeechRecognitionChunk} {chunk : SpeechRecognitionChunk}

@[simp]
theorem finals_nil : finals [] = [] :=
  rfl

@[simp]
theorem finals_append (first second : List SpeechRecognitionChunk) :
    finals (first ++ second) = finals first ++ finals second := by
  rw [finals, List.filter_append, List.flatMap_append, finals, finals]

theorem finals_of_final (h : chunk.Final = true) : finals [chunk] = chunk.asJson := by
  simp [finals, h]

theorem finals_of_not_final (h : chunk.Final = false) : finals [chunk] = [] := by
  simp [finals, h]

end texts

/-- What the buffer holds: the result that the handler is at, else the last one
that was not final. -/
structure Session.Buffered (chunks : List SpeechRecognitionChunk) (s : Session) : Prop where
  waiting : s.handler.chunk = none → s.notFinalBuf = (partialResult chunks).map SpeechRecognitionChunk.asJson
  at_chunk : ∀ chunk ∈ s.handler.chunk, s.notFinalBuf = some chunk.asJson ∧ chunks.getLast? = some chunk
  final : ∀ chunk, s.handler = .written chunk → chunk.Final = true

/-- The handler's part of a step keeps the buffer. -/
theorem Session.Buffered.kept {chunks : List SpeechRecognitionChunk} {s t : Session} (h : s.Buffered chunks)
    (hhandler : t.handler = s.handler) (hbuf : t.notFinalBuf = s.notFinalBuf) : t.Buffered chunks := by
  refine ⟨?_, ?_, ?_⟩ <;> rw [hhandler]
  · exact fun hnone => hbuf.trans (h.waiting hnone)
  · exact fun chunk hchunk => ⟨hbuf.trans (h.at_chunk chunk hchunk).1, (h.at_chunk chunk hchunk).2⟩
  · exact h.final

/-- The results file after a run: the final results, each once and in order,
with at most one more result in between, over the old contents. -/
structure Session.Written (start s : Session) (acts : List SessionAct)
    (before : List SpeechRecognitionChunk) (extra : Option SpeechRecognitionChunk)
    (after : List SpeechRecognitionChunk) : Prop where
  received : acts.flatMap SessionAct.received = before ++ after ++ s.handler.inHand
  position : s.position = (finals before ++ extra.elim [] SpeechRecognitionChunk.asJson ++ finals after).length
  outFile : s.outFile =
    overwrite start.outFile (finals before ++ extra.elim [] SpeechRecognitionChunk.asJson ++ finals after)
  place : extra.toList <:+ before ∨ extra.toList <+: after ++ s.handler.inHand
  settled : (∀ chunk ∈ extra, chunk.Final = false) ↔ Along Session.step Session.Settled start acts
  flushed : .flush ∉ acts → extra = none

section written

variable {start s : Session} {acts : List SessionAct} {before after : List SpeechRecognitionChunk}
  {extra : Option SpeechRecognitionChunk}

theorem settled_append (hreached : acts.foldl Session.step start = s) (act : SessionAct) :
    Along Session.step Session.Settled start (acts ++ [act]) ↔
      Along Session.step Session.Settled start acts ∧ s.Settled act := by
  rw [along_append, hreached]
  exact and_congr_right fun _ => and_iff_left trivial

theorem settled_of_ne {act : SessionAct} (hact : act ≠ .flush) : s.Settled act :=
  fun hflush => absurd hflush hact

theorem mem_of_ne {act : SessionAct} (hact : act ≠ .flush) : .flush ∈ acts ++ [act] ↔ .flush ∈ acts := by
  simp [hact.symm]

theorem received_append {act : SessionAct} (hreceived : act.received = []) :
    (acts ++ [act]).flatMap SessionAct.received = acts.flatMap SessionAct.received := by
  rw [List.flatMap_append, List.flatMap_singleton, hreceived, List.append_nil]

/-- A step without a write to the results file. -/
theorem Session.Written.kept (h : Session.Written start s acts before extra after)
    (hreached : acts.foldl Session.step start = s) {act : SessionAct} {t : Session} (hact : act ≠ .flush)
    (hposition : t.position = s.position) (houtFile : t.outFile = s.outFile)
    (hinHand : t.handler.inHand = s.handler.inHand ++ act.received) :
    Session.Written start t (acts ++ [act]) before extra after where
  received := by
    rw [List.flatMap_append, List.flatMap_singleton, h.received, hinHand, List.append_assoc]
  position := hposition.trans h.position
  outFile := houtFile.trans h.outFile
  place := by
    refine h.place.imp_right fun hafter => ?_
    rw [hinHand, ← List.append_assoc]
    exact hafter.trans (List.prefix_append ..)
  settled := by
    rw [settled_append hreached, and_iff_left (settled_of_ne hact)]
    exact h.settled
  flushed hflush := h.flushed ((mem_of_ne hact).not.mp hflush)

/-- A step of the handler that is done with writing a result. -/
theorem Session.Written.handled (h : Session.Written start s acts before extra after)
    (hreached : acts.foldl Session.step start = s) {chunk : SpeechRecognitionChunk} {t : Session}
    (hinHand : s.handler.inHand = [chunk]) (hdone : t.handler.inHand = [])
    (hposition : t.position = s.position + (finals [chunk]).length)
    (houtFile : t.outFile = writeAt s.outFile s.position (finals [chunk])) :
    Session.Written start t (acts ++ [.handle]) before extra (after ++ [chunk]) where
  received := by
    rw [List.flatMap_append, h.received, hinHand, hdone]
    simp [SessionAct.received]
  position := by
    rw [hposition, h.position, finals_append after]
    simp only [List.length_append, Nat.add_assoc]
  outFile := by
    rw [houtFile, h.position, h.outFile, writeAt_overwrite, finals_append after, List.append_assoc]
  place := by simpa [hinHand, hdone] using h.place
  settled := by
    rw [settled_append hreached, and_iff_left (settled_of_ne (by simp))]
    exact h.settled
  flushed hflush := h.flushed ((mem_of_ne (by simp)).not.mp hflush)

/-- A result that was written before the handler got to it is in the same place
as if it was written after. -/
theorem Session.Written.behind (h : Session.Written start s acts before extra after)
    (hinHand : s.handler.inHand = []) :
    ∃ before after, Session.Written start s acts before extra after ∧ extra.toList <:+ before := by
  obtain hbehind | hahead := h.place
  · exact ⟨before, after, h, hbehind⟩
  rw [hinHand, List.append_nil] at hahead
  obtain ⟨later, rfl⟩ := hahead
  cases extra with
  | none => exact ⟨before, later, h, List.nil_suffix⟩
  | some chunk =>
  have htext : finals before ++ chunk.asJson ++ finals ([chunk] ++ later) =
      finals (before ++ [chunk]) ++ chunk.asJson ++ finals later := by
    rw [finals_append, finals_append]
    cases hfinal : chunk.Final with
    | false => simp [finals_of_not_final hfinal]
    | true => simp [finals_of_final hfinal]
  refine ⟨before ++ [chunk], later, ⟨?_, ?_, ?_, ?_, h.settled, h.flushed⟩, List.suffix_append ..⟩
  · simpa using h.received
  · exact h.position.trans (congrArg List.length htext)
  · exact h.outFile.trans (congrArg _ htext)
  · exact .inl (List.suffix_append ..)

/-- What `DoSttStreaming` writes at the end: the result that the handler is at,
else the last one that was not final. -/
def Handler.lastResult (handler : Handler) (chunks : List SpeechRecognitionChunk) : Option SpeechRecognitionChunk :=
  handler.chunk.or (partialResult chunks)

theorem Session.Buffered.lastResult {chunks : List SpeechRecognitionChunk} (h : s.Buffered chunks) :
    s.notFinalBuf.getD [] = (s.handler.lastResult chunks).elim [] SpeechRecognitionChunk.asJson := by
  rw [Handler.lastResult]
  cases hchunk : s.handler.chunk with
  | none =>
    rw [h.waiting hchunk]
    cases partialResult chunks <;> simp
  | some chunk =>
    rw [(h.at_chunk chunk hchunk).1]
    simp

theorem Session.Buffered.place_lastResult {chunks done : List SpeechRecognitionChunk} (h : s.Buffered chunks)
    (hchunks : chunks = done ++ s.handler.inHand) :
    (s.handler.lastResult chunks).toList <:+ done ∨ (s.handler.lastResult chunks).toList <+: s.handler.inHand := by
  have hlast {chunk : SpeechRecognitionChunk} (hlast : done.getLast? = some chunk) : [chunk] <:+ done := by
    obtain ⟨older, rfl⟩ := List.getLast?_eq_some_iff.mp hlast
    exact List.suffix_append ..
  cases hhandler : s.handler with
  | waiting =>
    rw [hhandler, Handler.inHand, List.append_nil] at hchunks
    subst hchunks
    cases hpartial : partialResult chunks with
    | none => simp [Handler.lastResult, Handler.chunk, hpartial]
    | some chunk =>
      have hget := (Option.filter_eq_some_iff.mp hpartial).1
      simpa [Handler.lastResult, Handler.chunk, hpartial] using Or.inl (hlast hget)
  | written chunk =>
    rw [hhandler, Handler.inHand, List.append_nil] at hchunks
    subst hchunks
    exact .inl (hlast (h.at_chunk chunk (by rw [hhandler]; rfl)).2)
  | received chunk | stopped chunk => exact .inr List.prefix_rfl

theorem Session.Buffered.settled_iff {chunks : List SpeechRecognitionChunk} :
    (∀ chunk ∈ s.handler.lastResult chunks, chunk.Final = false) ↔ s.Settled .flush := by
  rw [Handler.lastResult, Session.Settled]
  cases s.handler.chunk with
  | none =>
    cases hpartial : partialResult chunks with
    | none => simp
    | some chunk =>
      have hfinal := (Option.filter_eq_some_iff.mp hpartial).2
      simpa using hfinal
  | some chunk => simp

theorem Session.Written.flush (h : Session.Written start s acts before extra after)
    (hreached : acts.foldl Session.step start = s) (hbuffered : s.Buffered (acts.flatMap SessionAct.received))
    (hfirst : .flush ∉ acts) : Session.Written start (s.step .flush) (acts ++ [.flush]) (before ++ after)
      (s.handler.lastResult (acts.flatMap SessionAct.received)) [] := by
  have hextra : extra = none := h.flushed hfirst
  subst hextra
  have hposition := h.position
  have houtFile := h.outFile
  rw [Option.elim_none, List.append_nil, ← finals_append] at hposition houtFile
  have hsettled : Along Session.step Session.Settled start acts := h.settled.mp (by simp)
  refine ⟨?_, ?_, ?_, ?_, ?_, fun hflush => absurd (by simp) hflush⟩
  · rw [List.flatMap_append, List.append_nil, h.received]
    simp [SessionAct.received, Session.step, Session.write]
  · change s.position + (s.notFinalBuf.getD []).length = _
    rw [hposition, hbuffered.lastResult, finals_nil, List.append_nil, List.length_append]
  · change writeAt s.outFile s.position (s.notFinalBuf.getD []) = _
    rw [hposition, houtFile, writeAt_overwrite, hbuffered.lastResult, finals_nil, List.append_nil]
  · exact hbuffered.place_lastResult h.received
  · rw [settled_append hreached, and_iff_right hsettled]
    exact Session.Buffered.settled_iff

end written

/-- What a run of a session has recorded. -/
structure Session.Recorded (start : Session) (acts : List SessionAct) (s : Session) : Prop where
  reached : acts.foldl Session.step start = s
  buffered : s.Buffered (acts.flatMap SessionAct.received)
  flushed : .flush ∈ acts → s.phase = .leaving ∨ s.phase = .closed
  written : ∃ before extra after, Session.Written start s acts before extra after

section recorded

variable {start s : Session} {acts : List SessionAct}

theorem recorded_start (inFile outFile : List UInt8) :
    Session.Recorded (.start inFile outFile) [] (.start inFile outFile) := by
  refine ⟨rfl, ⟨fun _ => rfl, by simp [Session.start, Handler.chunk], by simp [Session.start]⟩, by simp, [], none,
    [], ?_⟩
  exact ⟨rfl, rfl, rfl, .inl List.suffix_rfl, iff_of_true (by simp) trivial, fun _ => rfl⟩

/-- A step of the main thread that does not write. -/
theorem Session.Recorded.kept (h : Session.Recorded start acts s) {act : SessionAct} (hact : act ≠ .flush)
    (hreceived : act.received = []) (hhandler : (s.step act).handler = s.handler)
    (hbuf : (s.step act).notFinalBuf = s.notFinalBuf) (hposition : (s.step act).position = s.position)
    (houtFile : (s.step act).outFile = s.outFile)
    (hphase : s.phase = .leaving ∨ s.phase = .closed → (s.step act).phase = .leaving ∨ (s.step act).phase = .closed) :
    Session.Recorded start (acts ++ [act]) (s.step act) := by
  obtain ⟨before, extra, after, hwritten⟩ := h.written
  refine ⟨by rw [List.foldl_append, h.reached]; rfl, ?_, fun hflush => hphase (h.flushed ?_), before, extra, after, ?_⟩
  · rw [received_append hreceived]
    exact h.buffered.kept hhandler hbuf
  · exact (mem_of_ne hact).mp hflush
  · exact hwritten.kept h.reached hact hposition houtFile (by rw [hhandler, hreceived, List.append_nil])

theorem Session.Recorded.flush (h : Session.Recorded start acts s) (henabled : SessionAct.flush.Enabled s) :
    Session.Recorded start (acts ++ [.flush]) (s.step .flush) := by
  have hfirst : .flush ∉ acts := by
    intro hflush
    have hphase := h.flushed hflush
    have hflushing : s.phase = .flushing := henabled
    simp [hflushing] at hphase
  obtain ⟨before, extra, after, hwritten⟩ := h.written
  refine ⟨by rw [List.foldl_append, h.reached]; rfl, ?_, fun _ => .inl rfl,
    _, _, _, hwritten.flush h.reached h.buffered hfirst⟩
  rw [received_append rfl]
  exact h.buffered.kept rfl rfl

theorem Session.Recorded.receive (h : Session.Recorded start acts s) {call : ℕ} {chunk : SpeechRecognitionChunk}
    (henabled : (SessionAct.receive call chunk).Enabled s) :
    Session.Recorded start (acts ++ [.receive call chunk]) (s.step (.receive call chunk)) := by
  have hwaiting : s.handler = .waiting := henabled.1
  obtain ⟨before, extra, after, hwritten⟩ := h.written
  refine ⟨by rw [List.foldl_append, h.reached]; rfl, ?_, fun hflush => h.flushed ?_, before, extra, after, ?_⟩
  · refine ⟨by rintro ⟨⟩, fun other hother => ?_, by rintro other ⟨⟩⟩
    cases hother
    simp [SessionAct.received, Session.step]
  · exact (mem_of_ne (by simp)).mp hflush
  · exact hwritten.kept h.reached (by simp) rfl rfl (by rw [hwaiting]; rfl)

theorem Session.Buffered.handle {chunks : List SpeechRecognitionChunk} (h : s.Buffered chunks) :
    (s.step .handle).Buffered chunks := by
  cases hhandler : s.handler with
  | waiting | stopped => exact h.kept (by simp [Session.step, hhandler]) (by simp [Session.step, hhandler])
  | written chunk =>
    have hlast := (h.at_chunk chunk (by rw [hhandler]; rfl)).2
    have hstep : s.step .handle = { s with notFinalBuf := none, handler := .waiting } := by
      simp only [Session.step, hhandler]
    refine ⟨fun _ => ?_, ?_, ?_⟩
    · simp [hstep, partialResult, hlast, h.final chunk hhandler]
    · simp [hstep, Handler.chunk]
    · simp [hstep]
  | received chunk =>
    obtain ⟨hbuf, hlast⟩ := h.at_chunk chunk (by rw [hhandler]; rfl)
    simp only [Session.step, hhandler]
    split
    · next hfinal =>
      split
      · exact ⟨by rintro ⟨⟩, by simpa [Handler.chunk] using ⟨hbuf, hlast⟩, by rintro other ⟨⟩⟩
      · refine ⟨by rintro ⟨⟩, by simpa [Handler.chunk] using ⟨hbuf, hlast⟩, fun other hother => ?_⟩
        cases hother
        exact hfinal
    · next hfinal =>
      refine ⟨fun _ => ?_, by simp [Handler.chunk], by rintro other ⟨⟩⟩
      simp [partialResult, hlast, hfinal, hbuf]

theorem Session.Recorded.handle (h : Session.Recorded start acts s) (henabled : SessionAct.handle.Enabled s) :
    Session.Recorded start (acts ++ [.handle]) (s.step .handle) := by
  obtain ⟨before, extra, after, hwritten⟩ := h.written
  refine ⟨by rw [List.foldl_append, h.reached]; rfl, ?_, ?_, ?_⟩
  · rw [received_append rfl]
    exact h.buffered.handle
  · rw [mem_of_ne (by simp), s.phase_handle]
    exact h.flushed
  · cases hhandler : s.handler with
    | waiting | stopped => simp [SessionAct.Enabled, hhandler, Handler.busy] at henabled
    | written chunk =>
      have hstep : s.step .handle = { s with notFinalBuf := none, handler := .waiting } := by
        simp only [Session.step, hhandler]
      refine ⟨before, extra, after, hwritten.kept h.reached (by simp) ?_ ?_ ?_⟩ <;> rw [hstep]
      rw [hhandler]
      rfl
    | received chunk =>
      have hbuf := (h.buffered.at_chunk chunk (by rw [hhandler]; rfl)).1
      have hinHand : s.handler.inHand = [chunk] := by rw [hhandler]; rfl
      cases hfinal : chunk.Final with
      | false =>
        have hstep : s.step .handle = { s with handler := .waiting } := by
          simp only [Session.step, hhandler, hfinal, Bool.false_eq_true, ↓reduceIte]
        refine ⟨before, extra, after ++ [chunk], hwritten.handled h.reached hinHand ?_ ?_ ?_⟩ <;> rw [hstep]
        · rfl
        · simp [finals_of_not_final hfinal]
        · simp [finals_of_not_final hfinal]
      | true =>
        by_cases hclosed : s.phase = .closed
        · have hstep : s.step .handle = { s with handler := .stopped chunk } := by
            simp only [Session.step, hhandler, hfinal, hclosed, ↓reduceIte]
          refine ⟨before, extra, after, hwritten.kept h.reached (by simp) ?_ ?_ ?_⟩ <;> rw [hstep]
          rw [hhandler]
          rfl
        · have hstep : s.step .handle = { s.write chunk.asJson with handler := .written chunk } := by
            simp only [Session.step, hhandler, hfinal, hclosed, ↓reduceIte, hbuf, Option.getD_some]
          refine ⟨before, extra, after ++ [chunk], hwritten.handled h.reached hinHand ?_ ?_ ?_⟩ <;> rw [hstep]
          · rfl
          · rw [finals_of_final hfinal]
            rfl
          · rw [finals_of_final hfinal]
            rfl

theorem Session.Recorded.stepped (h : Session.Recorded start acts s) {act : SessionAct} (henabled : act.Enabled s) :
    Session.Recorded start (acts ++ [act]) (s.step act) := by
  cases act with
  | flush => exact h.flush henabled
  | receive call chunk => exact h.receive henabled
  | handle => exact h.handle henabled
  | portion | endOfFile =>
    refine h.kept (by simp) rfl rfl rfl rfl rfl fun hphase => ?_
    simp [henabled.1] at hphase
  | dispose | check =>
    refine h.kept (by simp) rfl rfl rfl rfl rfl fun hphase => ?_
    have hearlier := henabled
    simp only [SessionAct.Enabled] at hearlier
    simp [hearlier] at hphase
  | readFails => exact h.kept (by simp) rfl rfl rfl rfl rfl fun _ => .inl rfl
  | close => exact h.kept (by simp) rfl rfl rfl rfl rfl fun _ => .inr rfl

end recorded

/-- While the handler waits, the results file holds the final results of the
session, each once and in order, over its old contents, and at most one other
result, the last one before it: a final result for a second time exactly when
`DoSttStreaming` wrote the buffer while the handler was at it. The old contents
are gone exactly when they are not longer. -/
theorem results_written (inFile outFile : List UInt8) (acts : List SessionAct)
    (hrun : (Session.start inFile outFile).Runs acts)
    (hwaiting : (acts.foldl Session.step (.start inFile outFile)).handler = .waiting) :
    ∃ (before : List SpeechRecognitionChunk) (extra : Option SpeechRecognitionChunk)
      (after : List SpeechRecognitionChunk), acts.flatMap SessionAct.received = before ++ after ∧
      extra.toList <:+ before ∧ (.flush ∉ acts → extra = none) ∧
      ((∀ chunk ∈ extra, chunk.Final = false) ↔
        Along Session.step Session.Settled (.start inFile outFile) acts) ∧
      let results := finals before ++ extra.elim [] SpeechRecognitionChunk.asJson ++ finals after
      let last := acts.foldl Session.step (.start inFile outFile)
      last.outFile = overwrite outFile results ∧ (last.outFile = results ↔ outFile.length ≤ results.length) := by
  have hlast : Session.Recorded (.start inFile outFile) acts (acts.foldl Session.step (.start inFile outFile)) :=
    hrun.traces (recorded_start inFile outFile) fun before s act h hact => h.stepped hact
  obtain ⟨_, extra, _, hplaced⟩ := hlast.written
  obtain ⟨before, after, hwritten, hbehind⟩ := hplaced.behind (by rw [hwaiting]; rfl)
  have hreceived := hwritten.received
  rw [hwaiting, Handler.inHand, List.append_nil] at hreceived
  refine ⟨before, extra, after, hreceived, hbehind, hwritten.flushed, hwritten.settled, hwritten.outFile, ?_⟩
  rw [hwritten.outFile]
  exact overwrite_eq_iff

/-- The buffer is written while the handler is at a final result. -/
theorem results_written_unsettled :
    let acts : List SessionAct := [.portion 1 true {} {}, .receive 0 { asJson := [7], Final := true }, .endOfFile,
      .dispose true true, .check, .flush, .handle, .handle, .close]
    ∃ (before : List SpeechRecognitionChunk) (extra : Option SpeechRecognitionChunk)
      (after : List SpeechRecognitionChunk), acts.flatMap SessionAct.received = before ++ after ∧
      extra.toList <:+ before ∧ (.flush ∉ acts → extra = none) ∧
      ((∀ chunk ∈ extra, chunk.Final = false) ↔ Along Session.step Session.Settled (.start [1] [0, 0, 0]) acts) ∧
      let results := finals before ++ extra.elim [] SpeechRecognitionChunk.asJson ++ finals after
      let last := acts.foldl Session.step (.start [1] [0, 0, 0])
      last.outFile = overwrite [0, 0, 0] results ∧ (last.outFile = results ↔ [0, 0, 0].length ≤ results.length) :=
  results_written [1] [0, 0, 0] _ (by decide) (by decide)

end solution_library.speechkit_stream
