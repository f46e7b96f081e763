import EventPipeline.Proofs.Sink.WholeWrites
import EventPipeline.Proofs.Storage.Lossless
import EventPipeline.Proofs.Storage.Refusal
import EventPipeline.Writer.Target
/-!
# Records are not split over rolled files

A target takes whole buffers, so a sink over a rolling file writes whole records in each
call, and the file moves aside only between two calls (`State.Reachable.inSession`).
Each file therefore holds whole buffers of whole records, and the files moved aside,
then the one at the path, hold the records in the order in which they were made
(`State.Reachable.rolls_whole_records`). Unless the sink fails, they hold all of them in
the end; and it fails only if a message has no record, or the file cannot be moved.
-/
namespace EventPipeline

open Storage (Disk Opening RollingFile Session)

theorem Writer.ofTarget_takesWhole : Writer.ofTarget.TakesWhole := by
  intro st bs count h
  unfold Writer.ofTarget at h
  dsimp only at h
  split at h
  · exact (WriteAnswer.accepted.inj h).symm
  · cases h
  · cases h

/-- A write to a file in place fails only if the file cannot be moved aside, and leaves the disk
alone. -/
theorem Storage.RollingFile.InPlace.writeAt_error {f : RollingFile} {d e : Disk} {bs : Bytes}
    {now : Calendar.Moment} {cause : Storage.RollError} (h : f.InPlace d)
    (hw : f.writeAt d bs now = (.error cause, e)) :
    f.moveAside d now = .error cause ∧ e = d := by
  rw [RollingFile.writeAt] at hw
  split at hw
  · cases hm : f.moveAside d now with
    | error cause' =>
      simp only [RollingFile.rotate, hm] at hw
      cases hw
      exact ⟨rfl, rfl⟩
    | ok result =>
      obtain ⟨e', hrotate, -⟩ := rotate_of_fileAt? h.current hm
      simp only [hrotate] at hw
      cases hw
  · cases hw

namespace Sink

open Writer (Station)

variable {c : Setup Station} {o : Opening} {d₀ d : Disk} {f : RollingFile}
  {opened now : Calendar.Moment} {clock : List Calendar.Moment} {station : Station}
  {s t : State Station} {u : Session}

/-! ## The session of a sink -/

/-- The rolling file a sink writes to went through a session, with the writes of the sink. Once the
sink failed, a message had no record, or the file cannot be moved aside at the present moment. -/
structure InSession (c : Setup Station) (o : Opening) (d₀ : Disk) (s : State Station)
    (u : Session) : Prop where
  reachable : u.Reachable o d₀
  target : s.writer.target = .rolling u.file
  disk : s.writer.disk = u.disk
  written : u.written = s.writes
  failures : s.failures ≠ [] → (∃ n m cause, c.marshal n m = .error cause) ∨
    ∃ cause, u.file.moveAside u.disk s.writer.now = .error cause

/-- A write of a station in a session is one of the session, or the file cannot be moved. -/
theorem write_station {st : Station} (hu : u.Reachable o d₀) (htarget : st.target = .rolling u.file)
    (hdisk : st.disk = u.disk) (bs : Bytes) :
    (∃ v, u.step o (.write bs st.tick.now) = some v ∧ v.written = u.written ++ [bs] ∧
      Writer.ofTarget.write st bs =
        (.accepted bs.length, { st.tick with target := .rolling v.file, disk := v.disk })) ∨
    ∃ cause, u.file.moveAside u.disk st.tick.now = .error cause ∧
      (∀ count, (Writer.ofTarget.write st bs).1 ≠ .accepted count) ∧
      (Writer.ofTarget.write st bs).2 = { st.tick with disk := u.disk } := by
  obtain ⟨-, ids, groups, last, hcut, -⟩ := hu.cut
  have htarget' : st.tick.target = .rolling u.file := htarget
  have hdisk' : st.tick.disk = u.disk := hdisk
  cases hw : u.file.writeAt u.disk bs st.tick.now with
  | mk result e =>
    cases result with
    | ok f =>
      refine .inl ⟨⟨f, e, u.aside ++ (u.file.movesTo? u.disk bs.length st.tick.now).toList,
        u.written ++ [bs]⟩, ?_, rfl, ?_⟩
      · simp only [Session.step, hw]
      · simp only [Writer.ofTarget, htarget', hdisk', Storage.Target.writeAt, hw]
    | error cause =>
      obtain ⟨hmove, rfl⟩ := hcut.inPlace.writeAt_error hw
      refine .inr ⟨cause, hmove, ?_⟩
      cases cause with
      | refused cause =>
        simp only [Writer.ofTarget, htarget', hdisk', Storage.Target.writeAt, hw]
        exact ⟨by simp, trivial⟩
      | unprintableSuffix =>
        simp only [Writer.ofTarget, htarget', hdisk', Storage.Target.writeAt, hw]
        exact ⟨by simp, trivial⟩

theorem InSession.calm (h : InSession c o d₀ s u) (hs : s.Reachable c station) (ht : Move c s t)
    (hcalm : s.Calm t) : InSession c o d₀ t u := by
  refine ⟨h.reachable, by rw [hcalm.writer, h.target], by rw [hcalm.writer, h.disk],
    h.written.trans hcalm.writes.symm, fun hfail => ?_⟩
  rw [hcalm.writer]
  rcases ht.failures hs.holdsWriter with hkeep | ⟨e, last, hf, hto⟩
  · exact h.failures (hkeep ▸ hfail)
  · cases hf with
    | marshal _ _ hm => exact .inl ⟨_, _, _, hm⟩
    | write hp | tookNone hp | writePanic hp | overrun hp | flush hp | flushPanic hp =>
      -- a call that fails is no move between two calls
      have hphase := hcalm.calling (by rw [hp]; rfl)
      rw [hto.phase, hp] at hphase
      cases hphase

theorem InSession.write (h : InSession c o d₀ s u) (hc : c.writer = Writer.ofTarget)
    (hs : s.Reachable c station) {offered : Bytes} {next : Next}
    (hp : s.phase = .writing offered next) (ht : Move c s (s.write c offered next)) :
    ∃ v, InSession c o d₀ (s.write c offered next) v := by
  have hw : c.writer.TakesWhole := hc ▸ Writer.ofTarget_takesWhole
  have hwrite := State.write_whole (s := s) hw (hs.offered_ne_nil hp) next
  rw [hc] at hwrite
  rcases write_station h.reachable h.target h.disk offered with
    ⟨v, hstep, hv, hanswer⟩ | ⟨cause, hmove, hrefused, hstation⟩
  · rw [hanswer] at hwrite
    rcases hwrite with ⟨w, hw', hwrote⟩ | ⟨hnot, -⟩
    · cases hw'
      have hworking : (s.write c offered next).phase.working := by rw [hwrote]; rfl
      refine ⟨v, h.reachable.step hstep, by rw [hwrote]; rfl, by rw [hwrote]; rfl, ?_,
        fun hfail => absurd ((hs.move ht).failures_length.2 hworking) hfail⟩
      rw [hwrote, State.writes_record_wrote, hv, h.written]
      rfl
    · exact absurd rfl (hnot _)
  · rcases hwrite with ⟨w, hw', -⟩ | ⟨-, hwriter, hwrites, -, -⟩
    · exact absurd (congrArg Prod.fst hw') (hrefused _)
    · rw [hstation] at hwriter
      refine ⟨u, h.reachable, ?_, ?_, h.written.trans hwrites.symm, fun _ => .inr ⟨cause, ?_⟩⟩
      · rw [hwriter]; exact h.target
      · rw [hwriter]
      · rw [hwriter]; exact hmove

theorem InSession.sync (h : InSession c o d₀ s u) (hc : c.writer = Writer.ofTarget)
    (hs : s.Reachable c station) {next : Next} (hp : s.phase = .syncing next)
    (ht : Move c s (s.sync c next)) : InSession c o d₀ (s.sync c next) u := by
  obtain ⟨hwriter, hwrites, -, -⟩ := State.sync_calm (c := c) (s := s) next
  rw [hc] at hwriter
  refine ⟨h.reachable, by rw [hwriter]; exact h.target, by rw [hwriter]; exact h.disk,
    h.written.trans hwrites.symm, fun hfail => ?_⟩
  rcases ht.failures hs.holdsWriter with hkeep | ⟨e, last, hf, -⟩
  · have hnone := hs.failures_length.2 (by rw [hp]; rfl)
    exact absurd (hkeep.trans hnone) hfail
  · cases hf with
    | marshal hp' | write hp' | tookNone hp' | writePanic hp' | overrun hp' =>
      rw [hp] at hp'
      cases hp'
    | flush _ hflush | flushPanic _ hflush =>
      rw [hc] at hflush
      cases hflush

theorem State.Reachable.inSession (hc : c.writer = Writer.ofTarget)
    (hopen : o.openAt d₀ opened = .ok (f, d))
    (h : s.Reachable c ⟨.rolling f, d, clock, now⟩) : ∃ u, InSession c o d₀ s u := by
  induction h with
  | initial => exact ⟨_, .opened hopen, rfl, rfl, rfl, fun h => absurd rfl h⟩
  | move hs ht ih =>
    obtain ⟨u, hu⟩ := ih
    rcases ht.calm_or_call with hcalm | ⟨offered, next, hp, rfl⟩ | ⟨next, hp, rfl⟩
    · exact ⟨u, hu.calm hs ht hcalm⟩
    · exact hu.write hc hs hp ht
    · exact ⟨u, hu.sync hc hs hp ht⟩

/-! ## The records in the files -/

/-- A list cut into groups that was made from another one: the other one can be cut alike. -/
theorem exists_groups {α β : Type} (f : α → β) {groups : List (List β)} {l : List α}
    (h : groups.flatten = l.map f) :
    ∃ parts : List (List α), parts.flatten = l ∧ groups = parts.map (List.map f) := by
  induction groups generalizing l with
  | nil => exact ⟨[], (List.map_eq_nil_iff.1 h.symm).symm, rfl⟩
  | cons g groups ih =>
    obtain ⟨first, more, rfl, rfl, hmore⟩ := List.map_eq_append_iff.1 h.symm
    obtain ⟨parts, rfl, rfl⟩ := ih hmore.symm
    exact ⟨first :: parts, rfl, rfl⟩

/-- An empty piece in front does not show in the groups. -/
theorem exists_segments {groups : List (List Bytes)} {segments : List Segment}
    (h : groups.flatten = [] :: segments.map Segment.bytes) :
    ∃ files : List (List Segment), files.flatten = segments ∧
      groups.map List.flatten = files.map (fun g => Segment.bytes g.flatten) := by
  induction groups with
  | nil => cases h
  | cons g groups ih =>
    cases g with
    | nil =>
      obtain ⟨files, hfiles, hgroups⟩ := ih h
      exact ⟨[] :: files, hfiles, by rw [List.map_cons, hgroups]; rfl⟩
    | cons piece g =>
      obtain ⟨rfl, hrest⟩ := List.cons.inj h
      have hcut : (g :: groups).flatten = segments.map Segment.bytes := hrest
      obtain ⟨files, hfiles, hgroups⟩ := exists_groups Segment.bytes hcut
      refine ⟨files, hfiles, ?_⟩
      have hflatten : (g :: groups).map List.flatten =
          files.map (fun g => Segment.bytes g.flatten) := by
        rw [hgroups, List.map_map]
        exact List.map_congr_left fun g _ => (Segment.bytes_flatten g).symm
      rw [← hflatten]
      rfl

/-- The files that a sink over a rolling file produced, in the order in which they were moved aside
and the one at the path last, with the buffers each of them holds; `rest` are the records that are
in no file. -/
structure RolledOut (c : Setup Station) (o : Opening) (d₀ : Disk) (suffix : Calendar.Pattern)
    (s : State Station) (u : Session) (files : List (List Segment)) (rest : Segment) : Prop where
  session : InSession c o d₀ s u
  distinct : ((u.aside ++ [o.path]).map s.writer.disk.fileAt?).Nodup
  contents : (u.aside ++ [o.path]).map s.writer.disk.readFile? =
    files.map (fun g => some (Segment.bytes g.flatten))
  /-- Each call of the writer took a whole buffer, and no rest was ever offered. -/
  buffers : s.writes = files.flatten.map Segment.bytes
  nonempty : ∀ g ∈ files.flatten, g ≠ []
  offersWhole : s.OffersWhole
  /-- The records are those of the messages, in the order in which these came in. -/
  records : recordsIn s.log = files.flatten.flatten ++ rest
  made : ∀ i m bytes, (recordsIn s.log)[i]? = some (m, bytes) → c.marshal (i + 1) m = .ok bytes
  accepted : (recordsIn s.log).map Prod.fst <+: acceptedIn s.log
  buffered : s.phase = .receiving → s.buffer = rest.bytes
  whole : s.stopped → (∀ e, .failed e ∉ s.log) →
    rest = [] ∧ files.flatten.flatten.map Prod.fst = acceptedIn s.log
  /-- If every message has a record, and the suffix a text without a slash, the sink fails only over
  a name that no file can have. -/
  failed : (∃ e, .failed e ∈ s.log) → (∃ n m cause, c.marshal n m = .error cause) ∨
    ∃ cause, u.file.moveAside u.disk s.writer.now = .error cause ∧
      ∀ text, suffix.chars? s.writer.now = some text → '/' ∉ text →
        ∃ refusal, cause = .refused refusal ∧ refusal.ofName

/-- Whatever its limits, its suffix and the clock: a rolling file that was absent or empty never
splits a record of the sink that writes to it, nor a buffer. -/
theorem State.Reachable.rolls_whole_records (hopen : o.openAt d₀ opened = .ok (f, d))
    (hempty : (d₀.readFile? o.path).getD [] = []) (hc : c.writer = Writer.ofTarget)
    (hr : c.WritesRecords) (h : s.Reachable c ⟨.rolling f, d, clock, now⟩) :
    ∃ u files rest, RolledOut c o d₀ f.suffix s u files rest := by
  have hw : c.writer.TakesWhole := hc ▸ Writer.ofTarget_takesWhole
  obtain ⟨u, hu⟩ := h.inSession hc hopen
  obtain ⟨filed, rest, hf⟩ := h.writes_whole hw hr
  obtain ⟨hpath, ids, groups, last, hcut, hpieces⟩ := hu.reachable.cut
  have hall : (groups ++ [last]).flatten = [] :: filed.map Segment.bytes := by
    rw [List.flatten_append, List.flatten_singleton, hpieces, hempty, hu.written, hf.writes]
  obtain ⟨files, rfl, hfiles⟩ := exists_segments hall
  have hin := h.intake
  refine ⟨u, files, rest, hu, ?_, ?_, hf.writes, hf.nonempty, h.offersWhole hw, hf.records,
    hin.made, ?_, hf.buffered h hr, hf.whole h hr, ?_⟩
  · rw [hu.disk, ← hpath]
    exact hcut.nodup
  · rw [hu.disk, ← hpath, hcut.readFile?, hfiles, List.map_map]
    rfl
  · rw [hin.accepted]
    exact hin.marshaled.trans (List.prefix_append _ _)
  · rintro ⟨e, he⟩
    have hfailures : s.failures ≠ [] := by
      intro hnone
      have hmem := mem_errorsIn.2 he
      rw [State.errorsIn_eq_nil hnone] at hmem
      cases hmem
    rcases hu.failures hfailures with hmarshal | ⟨cause, hmove⟩
    · exact .inl hmarshal
    · refine .inr ⟨cause, hmove, fun text ht hslash => ?_⟩
      have hsuffix : u.file.suffix = f.suffix :=
        Option.some.inj (hu.reachable.suffix.symm.trans (o.suffix_openAt hopen))
      rw [← hsuffix] at ht
      exact hcut.inPlace.moveAside_error ht hslash hmove

/-! ## A run -/

/-- A sink that writes each message as two bytes to a target, and holds back up to five. -/
def pairsToTarget : Setup Station where
  marshal _ _ := .ok [0, 1]
  writer := Writer.ofTarget
  options := .of 2 5

theorem pairsToTarget_writesRecords : pairsToTarget.WritesRecords := by
  rintro n m bytes h
  obtain rfl := Except.ok.inj h
  simp

/-- A file of four bytes, with the same suffix for every file moved aside. -/
def fourBytes : Opening := ⟨"log", 4, 0, some "day"⟩

/-- Three messages, of which the last does not fit behind the others, and a `close`. -/
def threeToTarget : List Action :=
  [.offer (numbered 1), .offer (numbered 2), .take, .take, .offer (numbered 3), .take,
    .work, .work, .work, .close, .takeAck, .windUp, .windUp, .work, .work, .work]

/-- The first file has room for the first buffer only. -/
theorem rolls_whole_records_threeToTarget : ∃ (s : System Station) (suffix : Calendar.Pattern)
    (u : Session) (files : List (List Segment)) (rest : Segment),
    (s.sink.stopped, s.sink.writes) = (true, [[0, 1, 0, 1], [0, 1]]) ∧
    ["log.day", "log"].map s.sink.writer.disk.readFile? = [some [0, 1, 0, 1], some [0, 1]] ∧
    RolledOut pairsToTarget fourBytes .empty suffix s.sink u files rest := by
  have hrun : ((fourBytes.openAt .empty ⟨0⟩).toOption.bind (fun r =>
      System.run pairsToTarget { sink := .initial ⟨.rolling r.1, r.2, [], ⟨0⟩⟩ } threeToTarget)).map
        (fun s => ((s.sink.stopped, s.sink.writes),
          ["log.day", "log"].map s.sink.writer.disk.readFile?)) =
      some ((true, [[0, 1, 0, 1], [0, 1]]), [some [0, 1, 0, 1], some [0, 1]]) := by
    decide +kernel
  obtain ⟨s, hs, hends⟩ := Option.map_eq_some_iff.1 hrun
  obtain ⟨⟨f, d⟩, hopen, hs⟩ := Option.bind_eq_some_iff.1 hs
  obtain ⟨hstop, hread⟩ := Prod.mk.injEq .. ▸ hends
  have hopened : fourBytes.openAt .empty ⟨0⟩ = .ok (f, d) := by
    cases hr : fourBytes.openAt .empty ⟨0⟩ with
    | error cause => rw [hr] at hopen; cases hopen
    | ok r => rw [hr] at hopen; cases hopen; rfl
  have hreach : s.Reachable pairsToTarget ⟨.rolling f, d, [], ⟨0⟩⟩ := .run .initial hs
  obtain ⟨u, files, rest, hrolled⟩ := State.Reachable.rolls_whole_records hopened (by decide) rfl
    pairsToTarget_writesRecords hreach.sink
  exact ⟨s, f.suffix, u, files, rest, hstop, hread, hrolled⟩

end Sink

end EventPipeline
