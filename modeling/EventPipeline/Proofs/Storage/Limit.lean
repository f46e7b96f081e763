import EventPipeline.Proofs.Storage.Lossless
/-!
# The size limit of a rolling file

The size that a session keeps is that of the file at its path, and no write adds to a file
that is not empty what it has no room for (`Reachable.within_limit`). So a file over the
limit holds what was at the path before the session, or one write that is over the limit
itself. An empty file is never moved aside, and without a limit in seconds no file is that
has room for the write.
-/
namespace EventPipeline.Storage

namespace RollingFile

variable {f : RollingFile} {d : Disk} {incoming : Nat} {now : Calendar.Moment} {name : String}

/-- A file that need not be moved aside is empty, or has room for the write. -/
theorem room_of_not_due (h : f.due incoming now = false) (hmax : 0 < f.maxSize) :
    f.size = 0 ∨ f.size + incoming ≤ f.maxSize := by
  simp only [due, tooLarge, Bool.and_eq_false_iff, Bool.or_eq_false_iff,
    decide_eq_false_iff_not] at h
  omega

/-- A file that is moved aside is not empty, and has no room for the write or is old. -/
theorem due_of_movesTo? (h : f.movesTo? d incoming now = some name) :
    f.size ≠ 0 ∧ (f.maxAge = 0 → f.maxSize < f.size + incoming) := by
  rw [movesTo?] at h
  split at h
  next hdue =>
    simp only [due, tooLarge, tooOld, Bool.and_eq_true, Bool.or_eq_true, decide_eq_true_eq] at hdue
    exact ⟨hdue.1, fun hage => by omega⟩
  · cases h

end RollingFile

/-- Behind some others, an element is one of them or the last. -/
theorem getElem?_concat_eq_some {α : Type} {xs : List α} {x y : α} {i : Nat}
    (h : (xs ++ [x])[i]? = some y) : xs[i]? = some y ∨ i = xs.length ∧ y = x := by
  rw [List.getElem?_append] at h
  split at h
  · exact .inl h
  next hi =>
    obtain ⟨hlen, rfl⟩ := List.getElem?_eq_some_iff.1 h
    rw [List.length_singleton] at hlen
    exact .inr ⟨by omega, List.getElem_singleton _⟩

namespace Session

/-- The `i`-th file is within the limit, or holds what was there before the session, or one write
that is over the limit. -/
def WithinLimit (limit : Nat) (initial : Bytes) (written : List Bytes) (i : Nat)
    (content : Bytes) : Prop :=
  content.length ≤ limit ∨ (i = 0 ∧ content = initial) ∨
    (content ∈ written ∧ limit < content.length)

/-- The pieces in the files are within the limit, and none of the files moved aside is empty. -/
structure Limited (limit : Nat) (initial : Bytes) (written : List Bytes)
    (groups : List (List Bytes)) (last : List Bytes) : Prop where
  moved : ∀ i group, groups[i]? = some group →
    group.flatten ≠ [] ∧ WithinLimit limit initial written i group.flatten
  current : WithinLimit limit initial written groups.length last.flatten

variable {s t : Session} {o : Opening} {d₀ : Disk} {ids : List Nat} {groups : List (List Bytes)}
  {last : List Bytes} {bs : Bytes} {now : Calendar.Moment} {limit i : Nat}
  {initial content : Bytes} {written : List Bytes}

theorem WithinLimit.append (h : WithinLimit limit initial written i content) (bs : Bytes) :
    WithinLimit limit initial (written ++ [bs]) i content :=
  h.imp_right (Or.imp_right (And.imp_left (List.mem_append_left _)))

/-- A write may stand alone whatever its size. -/
theorem withinLimit_alone (i : Nat) :
    WithinLimit limit initial (written ++ [content]) i content := by
  by_cases h : content.length ≤ limit
  · exact .inl h
  · exact .inr (.inr ⟨by simp, by omega⟩)

theorem Limited.append (h : Limited limit initial written groups last)
    (hroom : last.flatten = [] ∨ last.flatten.length + bs.length ≤ limit) :
    Limited limit initial (written ++ [bs]) groups (last ++ [bs]) where
  moved i group hgroup := (h.moved i group hgroup).imp_right (fun hw => hw.append bs)
  current := by
    rw [List.flatten_append, List.flatten_singleton]
    rcases hroom with hempty | hroom
    · rw [hempty, List.nil_append]
      exact withinLimit_alone _
    · exact .inl (by rw [List.length_append]; exact hroom)

theorem Limited.rotate (h : Limited limit initial written groups last)
    (hlast : last.flatten ≠ []) :
    Limited limit initial (written ++ [bs]) (groups ++ [last]) [bs] where
  moved i group hgroup := by
    rcases getElem?_concat_eq_some hgroup with hold | ⟨rfl, rfl⟩
    · exact (h.moved i group hold).imp_right (fun hw => hw.append bs)
    · exact ⟨hlast, h.current.append bs⟩
  current := by
    rw [List.flatten_singleton]
    exact withinLimit_alone _

/-- Without a limit in seconds, a write that moves the file aside had no room in it; whatever the
limits, the file was not empty. -/
theorem Cut.moves_only_when_due (h : s.Cut ids groups last) (hf : s.file.OpenedBy o)
    (ht : s.step o (.write bs now) = some t)
    (hmoved : t.aside ≠ s.aside ∨ t.disk.fileAt? s.file.path ≠ s.disk.fileAt? s.file.path) :
    last.flatten ≠ [] ∧ (o.maxAge = 0 → o.maxSize < last.flatten.length + bs.length) := by
  rcases step_write h.inPlace.current ht with ⟨-, rfl⟩ | rfl | ⟨name, e, hname, -, -⟩
  · rcases hmoved with hmoved | hmoved
    · exact absurd rfl hmoved
    · exact absurd (Disk.fileAt?_replace _) hmoved
  · rcases hmoved with hmoved | hmoved <;> exact absurd rfl hmoved
  · obtain ⟨hsize, hlimit⟩ := RollingFile.due_of_movesTo? hname
    rw [h.inPlace.size, h.current] at hsize hlimit
    rw [hf.maxAge, hf.maxSize] at hlimit
    exact ⟨List.ne_nil_of_length_pos (by omega), hlimit⟩

/-- All files of a session are within the limit it was opened with. -/
theorem Reachable.limited (h : s.Reachable o d₀) (hmax : 0 < o.maxSize) : ∃ ids groups last,
    s.Cut ids groups last ∧
      Limited o.maxSize ((d₀.readFile? o.path).getD []) s.written groups last := by
  induction h with
  | opened h =>
    refine ⟨[], [], _, Cut.opened h, ⟨fun i group hgroup => by simp at hgroup, ?_⟩⟩
    exact .inr (.inl ⟨rfl, List.flatten_singleton⟩)
  | @step s t a hs ht ih =>
    obtain ⟨ids, groups, last, hcut, hlimited⟩ := ih
    have hopened := hs.openedBy
    have hsize : s.file.size = last.flatten.length := by rw [hcut.inPlace.size, hcut.current]
    obtain ⟨-, ⟨hcut', hwritten⟩ | ⟨bs, now, hdue, hcut', hwritten⟩ |
      ⟨bs, now, name, hname, hcut', hwritten⟩⟩ := hcut.step hopened.path ht
    · rw [← hwritten] at hlimited
      exact ⟨_, _, _, hcut', hlimited⟩
    · have hroom := RollingFile.room_of_not_due hdue (by rw [hopened.maxSize]; exact hmax)
      rw [hsize, hopened.maxSize] at hroom
      rw [hwritten]
      exact ⟨_, _, _, hcut', hlimited.append (hroom.imp_left List.length_eq_zero_iff.1)⟩
    · obtain ⟨hnonempty, -⟩ := RollingFile.due_of_movesTo? hname
      rw [hsize] at hnonempty
      rw [hwritten]
      exact ⟨_, _, _, hcut', hlimited.rotate (fun hnil => hnonempty (by rw [hnil]; rfl))⟩

/-- The size on record is that of the file at the path. Each file of a session is within the
limit, or untouched since before the session, or a single write. Only a write without room, or one
to a file that is old, moves the file aside, and never an empty one. -/
theorem Reachable.within_limit (h : s.Reachable o d₀) (hmax : 0 < o.maxSize) :
    ∃ (moved : List Bytes) (current : Bytes),
      s.aside.map s.disk.readFile? = moved.map some ∧
      s.disk.readFile? o.path = some current ∧ s.file.size = current.length ∧
      (∀ i content, (moved ++ [current])[i]? = some content →
        WithinLimit o.maxSize ((d₀.readFile? o.path).getD []) s.written i content) ∧
      (∀ content ∈ moved, content ≠ []) ∧
      ∀ bs now t, s.step o (.write bs now) = some t →
        t.aside ≠ s.aside ∨ t.disk.fileAt? o.path ≠ s.disk.fileAt? o.path →
        current ≠ [] ∧ (o.maxAge = 0 → o.maxSize < current.length + bs.length) := by
  obtain ⟨ids, groups, last, hcut, hlimited⟩ := h.limited hmax
  have hpath := h.openedBy.path
  have hcurrent : s.disk.readFile? o.path = some last.flatten := by
    rw [← hpath, Disk.readFile?, hcut.inPlace.current, ← hcut.current]
    rfl
  have hread := hcut.readFile?
  rw [hpath, List.map_append, List.map_append, List.map_append] at hread
  refine ⟨groups.map List.flatten, last.flatten, (List.append_inj' hread rfl).1, hcurrent, ?_,
    fun i content hi => ?_, fun content hcontent => ?_, fun bs now t ht hmoved => ?_⟩
  · rw [hcut.inPlace.size, hcut.current]
  · rcases getElem?_concat_eq_some hi with hold | ⟨rfl, rfl⟩
    · rw [List.getElem?_map] at hold
      obtain ⟨group, hgroup, rfl⟩ := Option.map_eq_some_iff.1 hold
      exact (hlimited.moved i group hgroup).2
    · rw [List.length_map]
      exact hlimited.current
  · obtain ⟨group, hgroup, rfl⟩ := List.mem_map.1 hcontent
    obtain ⟨i, hi⟩ := List.mem_iff_getElem?.1 hgroup
    exact (hlimited.moved i group hi).1
  · rw [← hpath] at hmoved
    exact hcut.moves_only_when_due h.openedBy ht hmoved

/-- A session that is opened and run can be reached. -/
theorem exists_reachable {α : Type} {actions : List Action} {view : Session → α} {a : α}
    (h : ((o.openAt d₀ now).toOption.bind
      (fun r => Session.run o ⟨r.1, r.2, [], []⟩ actions)).map view = some a) :
    ∃ s : Session, s.Reachable o d₀ ∧ view s = a := by
  obtain ⟨s, hs, hview⟩ := Option.map_eq_some_iff.1 h
  obtain ⟨⟨f, d⟩, hopen, hs⟩ := Option.bind_eq_some_iff.1 hs
  have hopened : o.openAt d₀ now = .ok (f, d) := by
    cases hr : o.openAt d₀ now with
    | error cause => rw [hr] at hopen; cases hopen
    | ok r => rw [hr] at hopen; cases hopen; rfl
  exact ⟨s, .run (.opened hopened) hs, hview⟩

/-- The old file is moved aside, an empty write changes nothing, and the last write is too large
for any file. -/
theorem within_limit_daily : ∃ s : Session,
    (s.aside, s.written) = (["log.day", "log.day.1"], [[1, 2], [], [3, 4, 5]]) ∧
    ∃ (moved : List Bytes) (current : Bytes),
      s.aside.map s.disk.readFile? = moved.map some ∧
      s.disk.readFile? daily.path = some current ∧ s.file.size = current.length ∧
      ∀ i content, (moved ++ [current])[i]? = some content →
        WithinLimit 2 [9] s.written i content := by
  have hrun : ((daily.openAt oldLog ⟨0⟩).toOption.bind (fun r =>
      Session.run daily ⟨r.1, r.2, [], []⟩
        [.write [1, 2] ⟨5⟩, .reopen ⟨7⟩, .write [] ⟨9⟩, .write [3, 4, 5] ⟨3⟩])).map
        (fun s => (s.aside, s.written)) =
      some (["log.day", "log.day.1"], [[1, 2], [], [3, 4, 5]]) := by
    decide +kernel
  obtain ⟨s, hs, hends⟩ := exists_reachable hrun
  have hold : (oldLog.readFile? daily.path).getD [] = [9] := by decide +kernel
  obtain ⟨moved, current, hmoved, hcurrent, hsize, hlimit, -⟩ :=
    Session.Reachable.within_limit hs (by decide)
  rw [hold] at hlimit
  exact ⟨s, hends, moved, current, hmoved, hcurrent, hsize, hlimit⟩

end Session

end EventPipeline.Storage
