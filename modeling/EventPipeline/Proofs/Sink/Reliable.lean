import EventPipeline.Proofs.Sink.Failure
/-!
# A sink that nothing goes wrong with

If every message can be marshaled and the writer takes something whenever it is offered
bytes, a sink has nowhere to fail (`State.Reachable.never_fails`). Such a sink closes its
input only when it was asked to stop, or when nobody holds the input any more
(`State.Wanted`).
-/
namespace EventPipeline

variable {ω : Type}

/-- A writer that may be interrupted or take a part only, but never fails. -/
structure Writer.Reliable (w : Writer ω) : Prop where
  write : ∀ s bytes, bytes ≠ [] → (w.write s bytes).1 = .interrupted ∨
    ∃ count, 0 < count ∧ count ≤ bytes.length ∧ (w.write s bytes).1 = .accepted count
  flush : ∀ s, (w.flush s).1 = .done

namespace Sink

variable {c : Setup ω} {writer : ω} {s t : State ω} {e : SinkError} {last : Happening}

/-- Every message can be marshaled, and the writer never fails. -/
structure Setup.Reliable (c : Setup ω) : Prop where
  marshal : ∀ n m, ∃ record, c.marshal n m = .ok record
  writer : c.writer.Reliable

theorem State.Reachable.not_failure (h : s.Reachable c writer) (hc : c.Reliable) :
    ¬Failure c s e last := by
  intro hf
  -- whatever is being written is not empty
  have hwrite {rest : Bytes} {next : Next} (hp : s.phase = .writing rest next) :=
    hc.writer.write s.writer rest (by
      obtain ⟨sent, held, extra, -, hstage⟩ := h.progress
      rw [State.Stage, hp] at hstage
      exact hstage.2.2.2.1)
  cases hf with
  | marshal _ _ hm =>
    obtain ⟨record, hr⟩ := hc.marshal (s.marshalCalls + 1) _
    rw [hr] at hm
    cases hm
  | write hp hw | writePanic hp hw =>
    rcases hwrite hp with hi | ⟨count, -, -, hi⟩ <;> simp [hw] at hi
  | tookNone hp hw =>
    rcases hwrite hp with hi | ⟨count, hpos, -, hi⟩
    · simp [hw] at hi
    · rw [hw] at hi
      obtain rfl := WriteAnswer.accepted.inj hi
      exact absurd hpos (Nat.lt_irrefl 0)
  | overrun hp hw hlt =>
    rcases hwrite hp with hi | ⟨count, -, hle, hi⟩
    · simp [hw] at hi
    · rw [hw] at hi
      obtain rfl := WriteAnswer.accepted.inj hi
      exact absurd hlt (Nat.not_lt.2 hle)
  | flush _ hw | flushPanic _ hw =>
    have hdone := hc.writer.flush s.writer
    simp [hw] at hdone

theorem State.Reachable.never_fails (h : s.Reachable c writer) (hc : c.Reliable) :
    s.failures = [] := by
  induction h with
  | initial => rfl
  | move hs ht ih =>
    rcases ht.failures hs.holdsWriter with hkeep | ⟨e, last, hf, -⟩
    · exact hkeep.trans ih
    · exact absurd hf (hs.not_failure hc)

theorem State.Reachable.not_failed (h : s.Reachable c writer) (hc : c.Reliable) (e : SinkError) :
    .failed e ∉ s.log := by
  intro he
  have hmem := mem_errorsIn.2 he
  rw [State.errorsIn_eq_nil (h.never_fails hc)] at hmem
  cases hmem

/-! ## Why the input gets closed -/

/-- The input is open, somebody holds it, and nobody has asked the sink to stop. -/
structure State.Wanted (s : State ω) : Prop where
  notAsked : s.stopAsked = false
  held : s.inputHeld
  inputOpen : s.inputOpen

theorem State.Wanted.of_kept (h : s.Wanted) (hk : s.Kept t) : t.Wanted where
  notAsked := hk.stopAsked.trans h.notAsked
  held := hk.inputHeld.trans h.held
  inputOpen := hk.inputOpen.trans h.inputOpen

theorem State.Wanted.record (h : s.Wanted) (x : Happening) : (s.record x).Wanted :=
  ⟨h.notAsked, h.held, h.inputOpen⟩

theorem State.Wanted.take (h : s.Wanted) (ht : s.take c = some t) : t.Wanted := by
  unfold State.take at ht
  split at ht
  next m rest hp hq =>
    cases ht
    cases hm : c.marshal (s.marshalCalls + 1) m with
    | error cause =>
      rw [State.handle_error (by exact hm)]
      exact ⟨h.notAsked, h.held, h.inputOpen⟩
    | ok bytes =>
      by_cases hfull : State.Full c ({ s with queue := rest }.record (.taken m)) bytes
      · rw [State.handle_full (by exact hm) hfull]
        refine State.Wanted.of_kept ?_ (State.kept_handOut _)
        exact ⟨h.notAsked, h.held, h.inputOpen⟩
      · rw [State.handle_fits (by exact hm) hfull]
        refine State.Wanted.of_kept ?_ (State.kept_store _ _)
        exact ⟨h.notAsked, h.held, h.inputOpen⟩
  next => cases ht

theorem State.Wanted.windUp (h : s.Wanted) (ht : s.windUp c = some t) : t.Wanted := by
  unfold State.windUp at ht
  split at ht
  next =>
    split at ht
    next =>
      split at ht
      next => cases ht
      next =>
        split at ht
        next => cases ht; exact h.of_kept (State.kept_handOut _)
        next => cases ht; exact h.of_kept (State.kept_emit _)
    next =>
      split at ht
      next hstop => simp [h.notAsked, h.held] at hstop
      next => cases ht
  next => cases ht

theorem State.Wanted.work (h : s.Wanted) (hok : s.failures = []) (ht : s.work c = some t) :
    t.Wanted := by
  unfold State.work at ht
  split at ht
  next => cases ht
  next => cases ht
  next rest next _ =>
    cases ht
    obtain ⟨x, -, hk⟩ := State.kept_write (c := c) (s := s) rest next
    exact (h.record x).of_kept hk
  next next _ =>
    cases ht
    obtain ⟨x, -, hk⟩ := State.kept_sync (c := c) (s := s) next
    exact (h.record x).of_kept hk
  next a next _ =>
    unfold State.send at ht
    split at ht
    next => cases ht; exact (h.record _).of_kept (State.kept_proceed next)
    next =>
      split at ht
      next => cases ht
      next =>
        cases ht
        have hsent : ({ s with ack := some a }.record (.emitted a)).Wanted :=
          ⟨h.notAsked, h.held, h.inputOpen⟩
        exact hsent.of_kept (State.kept_proceed next)
  next e hp => simp [State.failures, hp, Phase.error?] at hok
  next e hp => simp [State.failures, hp, Phase.error?] at hok

theorem State.Wanted.offer {m : Message} (h : s.Wanted) (ht : s.offer c m = some t) :
    t.Wanted := by
  unfold State.offer at ht
  split at ht
  next => cases ht; exact ⟨h.notAsked, h.held, h.inputOpen⟩
  next => cases ht

end Sink

end EventPipeline
