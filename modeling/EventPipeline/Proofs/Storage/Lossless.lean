import EventPipeline.Proofs.Runs
import EventPipeline.Proofs.Storage.Session
/-!
# Rolling a file loses nothing

The files that a session moved aside, in the order in which it did, and then the file at
its path hold what was at the path before the session and the buffers it wrote, in the
order of the writes. No buffer is split over two files (`Reachable.rolls_losslessly`).
-/
namespace EventPipeline.Storage

/-- A buffer lies in one of the files, right behind what precedes it in all of them. -/
def Unsplit (files : List Bytes) (preceding bs : Bytes) : Prop :=
  ∃ j before after, files[j]? = some (before ++ bs ++ after) ∧
    (files.take j).flatten ++ before = preceding

/-- Where pieces are put together group by group, each of them lies in its group. -/
theorem unsplit_of_groups {groups : List (List Bytes)} {i : Nat} {bs : Bytes}
    (h : groups.flatten[i]? = some bs) :
    Unsplit (groups.map List.flatten) (groups.flatten.take i).flatten bs := by
  induction groups generalizing i with
  | nil => cases h
  | cons g rest ih =>
    rw [List.flatten_cons] at h ⊢
    by_cases hi : i < g.length
    · rw [List.getElem?_append_left hi] at h
      obtain ⟨_, rfl⟩ := List.getElem?_eq_some_iff.1 h
      refine ⟨0, (g.take i).flatten, (g.drop (i + 1)).flatten, ?_, ?_⟩
      · have hg : g = g.take i ++ g[i] :: g.drop (i + 1) := by simp
        have hflat := congrArg List.flatten hg
        rw [List.flatten_append, List.flatten_cons] at hflat
        rw [List.map_cons, List.getElem?_cons_zero, hflat, List.append_assoc]
      · rw [List.take_append_of_le_length (by omega)]
        rfl
    · rw [List.getElem?_append_right (by omega)] at h
      obtain ⟨j, before, after, hj, hprec⟩ := ih h
      refine ⟨j + 1, before, after, hj, ?_⟩
      rw [List.map_cons, List.take_succ_cons, List.flatten_cons, List.append_assoc, hprec,
        List.take_append, List.take_of_length_le (l := g) (by omega), List.flatten_append]

namespace Session

variable {s : Session} {o : Opening} {d₀ : Disk} {ids : List Nat} {groups : List (List Bytes)}
  {last : List Bytes}

theorem Cut.fileAt? (h : s.Cut ids groups last) :
    (s.aside ++ [s.file.path]).map s.disk.fileAt? = (ids ++ [s.file.file]).map some := by
  rw [List.map_append, List.map_append, h.aside, List.map_singleton, h.inPlace.current,
    List.map_singleton]

/-- The files of a session are different files. -/
theorem Cut.nodup (h : s.Cut ids groups last) :
    ((s.aside ++ [s.file.path]).map s.disk.fileAt?).Nodup := by
  rw [h.fileAt?]
  exact List.pairwise_map.2 (h.distinct.imp (fun hne heq => hne (Option.some.inj heq)))

/-- The files of a session hold its groups of pieces. -/
theorem Cut.readFile? (h : s.Cut ids groups last) :
    (s.aside ++ [s.file.path]).map s.disk.readFile? =
      ((groups ++ [last]).map List.flatten).map some := by
  have hread : s.disk.readFile? = Option.map s.disk.content ∘ s.disk.fileAt? := rfl
  rw [hread, ← List.map_map, h.fileAt?, List.map_map, List.map_append, List.map_append,
    List.map_append, ← h.moved, List.map_singleton, List.map_singleton, List.map_singleton,
    ← h.current, List.map_map]
  rfl

/-- The files moved aside and the one at the path are different files. They hold what was at the
path and then all buffers written, each of them in one file. -/
theorem Reachable.rolls_losslessly (h : s.Reachable o d₀) :
    ((s.aside ++ [o.path]).map s.disk.fileAt?).Nodup ∧
    ∃ files : List Bytes,
      (s.aside ++ [o.path]).map s.disk.readFile? = files.map some ∧
      files.flatten = (d₀.readFile? o.path).getD [] ++ s.written.flatten ∧
      ∀ i bs, s.written[i]? = some bs →
        Unsplit files ((d₀.readFile? o.path).getD [] ++ (s.written.take i).flatten) bs := by
  obtain ⟨hpath, ids, groups, last, hcut, hpieces⟩ := h.cut
  have hall : (groups ++ [last]).flatten = (d₀.readFile? o.path).getD [] :: s.written := by
    rw [List.flatten_append, List.flatten_singleton, hpieces]
  rw [← hpath]
  refine ⟨hcut.nodup, (groups ++ [last]).map List.flatten, hcut.readFile?, ?_, fun i bs hi => ?_⟩
  · rw [hpath, ← List.flatten_flatten, hall, List.flatten_cons]
  · have hpiece : (groups ++ [last]).flatten[i + 1]? = some bs := by
      rw [hall]
      exact hi
    have hunsplit := unsplit_of_groups hpiece
    rw [hall] at hunsplit
    rw [hpath]
    exact hunsplit

/-! ## A run -/

/-- Actions one after the other. -/
def run (o : Opening) (s : Session) (actions : List Action) : Option Session :=
  runFrom (step o) s actions

theorem Reachable.run {t : Session} {actions : List Action} (h : s.Reachable o d₀)
    (ht : s.run o actions = some t) : t.Reachable o d₀ :=
  runFrom_keeps ht h fun _ _ _ hu hv => hu.step hv

/-- A file of two bytes, with the same suffix for every file moved aside. -/
def daily : Opening := ⟨"log", 2, 0, some "day"⟩

/-- A disk with a directory, and one byte in the file at the path. -/
def oldLog : Disk := ((Disk.empty.withDirectory ["logs"]).create ["log"]).append 0 [9]

/-- Two files are moved aside, the clock goes backwards, and a write is too large for any file. -/
def fourWrites : List Action :=
  [.write [1, 2] ⟨0⟩, .flush, .reopen ⟨7⟩, .write [] ⟨5⟩, .write [3, 4, 5] ⟨-1⟩, .write [6] ⟨-2⟩]

theorem rolls_losslessly_fourWrites : ∃ s : Session,
    (s.aside, s.written) = (["log.day", "log.day.1", "log.day.2"], [[1, 2], [], [3, 4, 5], [6]]) ∧
    ∃ files : List Bytes,
      (s.aside ++ [daily.path]).map s.disk.readFile? = files.map some ∧
      files.flatten = (oldLog.readFile? daily.path).getD [] ++ s.written.flatten := by
  have hrun : ((daily.openAt oldLog ⟨0⟩).toOption.bind
      (fun r => Session.run daily ⟨r.1, r.2, [], []⟩ fourWrites)).map
        (fun s => (s.aside, s.written)) =
      some (["log.day", "log.day.1", "log.day.2"], [[1, 2], [], [3, 4, 5], [6]]) := by
    decide +kernel
  obtain ⟨s, hs, hends⟩ := Option.map_eq_some_iff.1 hrun
  obtain ⟨⟨f, d⟩, hopen, hs⟩ := Option.bind_eq_some_iff.1 hs
  have hopened : daily.openAt oldLog ⟨0⟩ = .ok (f, d) := by
    cases hr : daily.openAt oldLog ⟨0⟩ with
    | error cause => rw [hr] at hopen; cases hopen
    | ok r => rw [hr] at hopen; cases hopen; rfl
  obtain ⟨-, files, hread, hflatten, -⟩ :=
    Session.Reachable.rolls_losslessly (.run (.opened hopened) hs)
  exact ⟨s, hends, files, hread, hflatten⟩

end Session

end EventPipeline.Storage
