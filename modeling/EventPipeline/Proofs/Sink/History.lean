import EventPipeline.Sink.System
/-!
# What the log of a sink tells

The log of a sink is read through views: the messages put into its queue and taken
out of it, the records made of them, the bytes taken by the writer, flush by flush or
all together, and the acknowledgments sent on. Each view of a longer log is the view of
the shorter one and what the last entry adds (the `_concat` lemmas); nothing below looks
at a log in any other way.
-/
namespace EventPipeline.Sink

/-- The acknowledgment sent on, whether somebody still heard it or not. -/
def Happening.ack? : Happening → Option Ack
  | .emitted a | .unheard a => some a
  | _ => none

/-- Whether something is a call of the writer. -/
def Happening.isCall : Happening → Bool
  | .wrote _ | .tookNone | .flushed _ => true
  | _ => false

/-- The messages put into the queue. -/
def acceptedIn (log : List Happening) : List Message :=
  log.filterMap (fun
    | .accepted m => some m
    | _ => none)

/-- The messages taken out of the queue. -/
def takenIn (log : List Happening) : List Message :=
  log.filterMap (fun
    | .taken m => some m
    | _ => none)

/-- The messages turned into records, with their records. -/
def recordsIn (log : List Happening) : List (Message × Bytes) :=
  log.filterMap (fun
    | .marshaled m bytes => some (m, bytes)
    | _ => none)

/-- The bytes taken by the writer. -/
def writtenIn (log : List Happening) : Bytes :=
  log.flatMap (fun
    | .wrote bytes => bytes
    | _ => [])

/-- The acknowledgments sent on, heard or not. -/
def acksIn (log : List Happening) : List Ack := log.filterMap Happening.ack?

/-- The acknowledgments put into their channel. -/
def emittedIn (log : List Happening) : List Ack :=
  log.filterMap (fun
    | .emitted a => some a
    | _ => none)

/-- The bytes of each flush, which are those the writer took since the flush before, and the bytes
it took since the last one. -/
def flushLog (log : List Happening) : List Bytes × Bytes :=
  log.foldl (fun (flushed, since) h =>
    match h with
    | .wrote bytes => (flushed, since ++ bytes)
    | .flushed true => (flushed ++ [since], [])
    | _ => (flushed, since)) ([], [])

/-- The bytes of each flush. -/
def flushesIn (log : List Happening) : List Bytes := (flushLog log).1

/-- The bytes the writer took since it last flushed. -/
def sinceFlush (log : List Happening) : Bytes := (flushLog log).2

/-- The last call of the writer, if there was any. -/
def lastCall? (log : List Happening) : Option Happening := (log.filter Happening.isCall).getLast?

section
variable (log : List Happening) (h : Happening)

@[simp] theorem acceptedIn_concat : acceptedIn (log ++ [h]) =
    acceptedIn log ++ match h with
      | .accepted m => [m]
      | _ => [] := by
  cases h <;> simp [acceptedIn]

@[simp] theorem takenIn_concat : takenIn (log ++ [h]) =
    takenIn log ++ match h with
      | .taken m => [m]
      | _ => [] := by
  cases h <;> simp [takenIn]

@[simp] theorem recordsIn_concat : recordsIn (log ++ [h]) =
    recordsIn log ++ match h with
      | .marshaled m bytes => [(m, bytes)]
      | _ => [] := by
  cases h <;> simp [recordsIn]

@[simp] theorem writtenIn_concat : writtenIn (log ++ [h]) =
    writtenIn log ++ match h with
      | .wrote bytes => bytes
      | _ => [] := by
  cases h <;> simp [writtenIn]

@[simp] theorem acksIn_concat : acksIn (log ++ [h]) = acksIn log ++ h.ack?.toList := by
  cases h <;> simp [acksIn, Happening.ack?]

@[simp] theorem emittedIn_concat : emittedIn (log ++ [h]) =
    emittedIn log ++ match h with
      | .emitted a => [a]
      | _ => [] := by
  cases h <;> simp [emittedIn]

theorem flushLog_concat : flushLog (log ++ [h]) =
    match h with
    | .wrote bytes => (flushesIn log, sinceFlush log ++ bytes)
    | .flushed true => (flushesIn log ++ [sinceFlush log], [])
    | _ => (flushesIn log, sinceFlush log) := by
  rw [flushLog, List.foldl_append]
  rfl

@[simp] theorem flushesIn_concat : flushesIn (log ++ [h]) =
    flushesIn log ++ match h with
      | .flushed true => [sinceFlush log]
      | _ => [] := by
  rw [flushesIn, flushLog_concat]
  split <;> simp

@[simp] theorem sinceFlush_concat : sinceFlush (log ++ [h]) =
    match h with
    | .wrote bytes => sinceFlush log ++ bytes
    | .flushed true => []
    | _ => sinceFlush log := by
  rw [sinceFlush, flushLog_concat]
  split <;> rfl

theorem lastCall?_concat_of_isCall (hc : h.isCall) : lastCall? (log ++ [h]) = some h := by
  simp [lastCall?, hc]

theorem lastCall?_concat (hc : h.isCall = false) : lastCall? (log ++ [h]) = lastCall? log := by
  simp [lastCall?, hc]

end

/-- Where a list with one more entry can be split: before that entry, or where it could be
before. -/
theorem concat_eq_append_cons {α : Type} {log before after : List α} {h k : α}
    (hl : log ++ [h] = before ++ k :: after) :
    (before = log ∧ k = h ∧ after = []) ∨ ∃ more, log = before ++ k :: more := by
  cases List.eq_nil_or_concat after with
  | inl he =>
    subst he
    obtain ⟨hb, hk⟩ := List.append_inj' hl rfl
    exact .inl ⟨hb.symm, (List.singleton_inj.1 hk).symm, rfl⟩
  | inr he =>
    obtain ⟨more, x, rfl⟩ := he
    rw [List.concat_eq_append, ← List.cons_append, ← List.append_assoc] at hl
    exact .inr ⟨more, (List.append_inj' hl rfl).1⟩

/-! ## Bytes that are safe -/

/-- The bytes are the first the writer took, and a flush after them succeeded. -/
def Settled (log : List Happening) (bytes : Bytes) : Prop :=
  bytes = [] ∨ ∃ before after,
    log = before ++ .flushed true :: after ∧ bytes <+: writtenIn before

theorem Settled.nil (log : List Happening) : Settled log [] := .inl rfl

theorem Settled.concat {log : List Happening} {bytes : Bytes} (hs : Settled log bytes)
    (h : Happening) : Settled (log ++ [h]) bytes := by
  rcases hs with hs | ⟨before, after, rfl, hb⟩
  · exact .inl hs
  · exact .inr ⟨before, after ++ [h], by simp, hb⟩

theorem Settled.flush {log : List Happening} {bytes : Bytes} (hb : bytes <+: writtenIn log) :
    Settled (log ++ [.flushed true]) bytes :=
  .inr ⟨log, [], rfl, hb⟩

theorem Settled.of_isPrefix {log : List Happening} {bytes more : Bytes} (hs : Settled log more)
    (hb : bytes <+: more) : Settled log bytes := by
  rcases hs with rfl | ⟨before, after, hl, hm⟩
  · exact .inl (List.prefix_nil.1 hb)
  · exact .inr ⟨before, after, hl, hb.trans hm⟩

end EventPipeline.Sink
