import EventPipeline.Sink.System
/-!
# Moves of a sink

What the sink does and what others do to it, as one relation (`Move`). Whoever uses a
sink, only brings about states that moves lead to (`State.Reachable`), so what every
move preserves holds of the sink of every system.
-/
namespace EventPipeline.Sink

variable {ω : Type} {c : Setup ω} {s : State ω}

/-! ## What taking a message comes to -/

/-- A record does not fit behind what is in the buffer. -/
def State.Full (c : Setup ω) (s : State ω) (bytes : Bytes) : Prop :=
  c.options.buffer - s.buffer.length < bytes.length ∧ s.buffer ≠ []

instance (bytes : Bytes) : Decidable (s.Full c bytes) := inferInstanceAs (Decidable (_ ∧ _))

theorem State.handle_error {m : Message} {e : MarshalError}
    (hm : c.marshal (s.marshalCalls + 1) m = .error e) :
    s.handle c m =
      { s with marshalCalls := s.marshalCalls + 1, phase := .failing (.marshal m.topic e) } := by
  simp only [State.handle, hm]

theorem State.handle_full {m : Message} {bytes : Bytes}
    (hm : c.marshal (s.marshalCalls + 1) m = .ok bytes) (hfull : s.Full c bytes) :
    s.handle c m =
      State.handOut
        { s with marshalCalls := s.marshalCalls + 1, log := s.log ++ [.marshaled m bytes] }
        (.append bytes m.ack) := by
  simp only [State.handle, hm]
  exact if_pos hfull

theorem State.handle_fits {m : Message} {bytes : Bytes}
    (hm : c.marshal (s.marshalCalls + 1) m = .ok bytes) (hfits : ¬s.Full c bytes) :
    s.handle c m =
      State.store c
        { s with marshalCalls := s.marshalCalls + 1, log := s.log ++ [.marshaled m bytes] }
        bytes m.ack := by
  simp only [State.handle, hm]
  exact if_neg hfits

theorem State.handOut_of_held {next : Next} (h : s.writerHeld) :
    s.handOut next = { s with writerHeld := false, phase := .writing s.buffer next } :=
  if_pos h

/-! ## Moves -/

/-- One move of a sink or of those who use it. -/
inductive Move (c : Setup ω) : State ω → State ω → Prop
  | take {s t : State ω} : s.take c = some t → Move c s t
  | windUp {s t : State ω} : s.windUp c = some t → Move c s t
  | work {s t : State ω} : s.work c = some t → Move c s t
  | offer {s t : State ω} (m : Message) : s.offer c m = some t → Move c s t
  | askStop (s : State ω) : Move c s s.askStop
  | releaseInput (s : State ω) : Move c s s.releaseInput
  | takeAck {s t : State ω} {a : Ack} : s.takeAck = some (a, t) → Move c s t
  | takeError {s t : State ω} {e : SinkError} : s.takeError = some (e, t) → Move c s t
  | muteAcks (s : State ω) : Move c s s.muteAcks
  | muteErrors (s : State ω) : Move c s s.muteErrors

/-- The states of a sink that moves lead to. -/
inductive State.Reachable (c : Setup ω) (writer : ω) : State ω → Prop
  | initial : Reachable c writer (.initial writer)
  | move {s t : State ω} : Reachable c writer s → Move c s t → Reachable c writer t

/-- A move of a system moves its sink or leaves it alone. -/
theorem System.step_sink {s t : System ω} {a : Action} (h : s.step c a = some t) :
    Move c s.sink t.sink ∨ t.sink = s.sink := by
  cases a with
  | take =>
    obtain ⟨sink, hs, rfl⟩ := Option.map_eq_some_iff.1 h
    exact .inl (.take hs)
  | windUp =>
    obtain ⟨sink, hs, rfl⟩ := Option.map_eq_some_iff.1 h
    exact .inl (.windUp hs)
  | work =>
    obtain ⟨sink, hs, rfl⟩ := Option.map_eq_some_iff.1 h
    exact .inl (.work hs)
  | returnClose i =>
    simp only [step] at h
    split at h
    · cases h; exact .inr rfl
    · cases h
  | offer m =>
    obtain ⟨sink, hs, rfl⟩ := Option.map_eq_some_iff.1 h
    exact .inl (.offer m hs)
  | close => cases h; exact .inl (.askStop _)
  | takeAck =>
    obtain ⟨r, hs, rfl⟩ := Option.map_eq_some_iff.1 h
    exact .inl (.takeAck hs)
  | takeError =>
    obtain ⟨r, hs, rfl⟩ := Option.map_eq_some_iff.1 h
    exact .inl (.takeError hs)
  | muteAcks => cases h; exact .inl (.muteAcks _)
  | muteErrors => cases h; exact .inl (.muteErrors _)
  | releaseInput => cases h; exact .inl (.releaseInput _)

/-- The sink of every system comes about by moves. -/
theorem System.Reachable.sink {writer : ω} {s : System ω}
    (h : Reachable c writer s) : s.sink.Reachable c writer := by
  induction h with
  | initial => exact .initial
  | step _ hs ih =>
    rcases step_sink hs with hm | he
    · exact ih.move hm
    · rw [he]; exact ih

end EventPipeline.Sink
