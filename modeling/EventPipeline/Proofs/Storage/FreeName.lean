import EventPipeline.Storage.Rolling
/-!
# There is always a free name

The names tried for a file moved aside are a base and, behind it, the numbers from one
on. The numbered ones denote different names in one directory, so that no more of them
are occupied than there are places on the disk. One more than that is tried, and so the
search ends with the first name that is not occupied (`freeName_first`).
-/
namespace EventPipeline.Storage

/-- Whether a refusal says that no file can have a name. -/
def Refusal.ofName : Refusal → Bool
  | .nameTooLong | .nulInName => true
  | _ => false

/-- What is added behind a text without a slash goes to the last name of the path, and the path is
refused only because no file can have that name. -/
theorem Path.read_concat (init : List Char) : ∃ parents stem, ∀ (tail : List Char) (text : String),
    tail ≠ [] → '/' ∉ tail → text.toList = init ++ tail →
      (∃ cause, Path.read text = .error cause ∧ cause.ofName) ∨
      Path.read text = .ok ⟨parents, String.ofList (stem ++ tail), false⟩ := by
  obtain ⟨before, stem, hsplit⟩ := Text.split_append '/' init
  refine ⟨(before.filter (fun cs => !cs.isEmpty)).map String.ofList, stem,
    fun tail text hne hslash htext => ?_⟩
  have hlast : text.toList.getLast? ≠ some '/' := by
    rw [htext, List.getLast?_append, List.getLast?_eq_some_getLast hne, Option.some_or]
    exact fun hget => hslash (Option.some.inj hget ▸ List.getLast_mem hne)
  have hnonempty : text ≠ "" := by
    rintro rfl
    simp [hne] at htext
  by_cases hnul : '\x00' ∈ text.toList
  · exact .inl ⟨.nulInName, by rw [Path.read, if_pos hnul], rfl⟩
  by_cases hsize : maxPathSize < text.utf8ByteSize
  · exact .inl ⟨.nameTooLong,
      by rw [Path.read, if_neg hnul, if_neg hnonempty, if_pos hsize], rfl⟩
  · right
    rw [Path.read, if_neg hnul, if_neg hnonempty, if_neg hsize]
    simp only [hlast, decide_false]
    rw [htext, hsplit tail hslash]
    simp [List.filter_append, hne]

/-- The name of a place occupied, in the directory its path leads to. -/
theorem Disk.find?_of_occupied {d : Disk} {text : String} (h : d.occupied text = true) {p : Path}
    (hr : ∀ q, Path.read text = .ok q → q = p) (hdot : p.last ≠ ".") (hup : p.last ≠ "..") :
    ∃ parent, d.walk [] p.parents = .ok parent ∧ (d.nodes.find? (parent ++ [p.last])).isSome := by
  simp only [occupied, exists?, bind, Except.bind] at h
  cases hread : Path.read text with
  | error cause => simp [hread, Except.toOption] at h
  | ok q =>
    obtain rfl := hr q hread
    cases hw : d.walk [] q.parents with
    | error cause => simp [hread, locate, hw, bind, Except.bind, Except.toOption] at h
    | ok parent =>
      have hloc : d.locate q = .ok (.named parent q.last) := by
        simp only [locate, hw, hdot, hup, bind, Except.bind, if_false]
        rfl
      refine ⟨parent, rfl, ?_⟩
      cases hf : d.nodes.find? (parent ++ [q.last]) with
      | some node => rfl
      | none =>
        by_cases hsize : maxNameSize < q.last.utf8ByteSize
        · simp [hread, hloc, look, hsize, Except.toOption] at h
        · simp [hread, hloc, look, hsize, hf, pure, Except.pure, Except.toOption] at h

namespace RollingFile

variable {d : Disk} {base : String} {n : Nat}

/-- The last name of a numbered path whose unnumbered last name is `stem`. -/
def numberedName (stem : List Char) (n : Nat) : String :=
  String.ofList (stem ++ '.' :: Decimal.natChars n)

theorem not_mem_numbered {c : Char} (hc : c.isDigit = false) (hdot : c ≠ '.') :
    c ∉ '.' :: Decimal.natChars n := by
  intro h
  rcases List.mem_cons.1 h with rfl | h
  · exact hdot rfl
  · rw [Decimal.isDigit_of_mem_natChars h] at hc
    cases hc

/-- The numbered paths of a base share all but the last name. -/
theorem read_numbered (base : String) : ∃ parents stem, ∀ n p,
    Path.read (extended base (Decimal.nat n)) = .ok p →
      p = ⟨parents, numberedName stem n, false⟩ := by
  obtain ⟨parents, stem, hread⟩ := Path.read_concat base.toList
  refine ⟨parents, stem, fun n p h => ?_⟩
  have htext : (extended base (Decimal.nat n)).toList =
      base.toList ++ '.' :: Decimal.natChars n := by
    simp [extended, Decimal.nat]
  have hslash : '/' ∉ '.' :: Decimal.natChars n := not_mem_numbered (by decide) (by decide)
  rcases hread _ _ (List.cons_ne_nil _ _) hslash htext with ⟨cause, hcause, -⟩ | hok
  · rw [hcause] at h
    cases h
  · exact (Except.ok.inj (hok.symm.trans h)).symm

theorem numberedName_inj {stem : List Char} {m n : Nat}
    (h : numberedName stem m = numberedName stem n) : m = n := by
  have htail := List.append_cancel_left (String.ofList_injective h)
  exact Decimal.natChars_inj (List.cons.inj htail).2

/-- A numbered name does not consist of dots. -/
theorem numberedName_ne (stem : List Char) (n dots : Nat) :
    numberedName stem n ≠ String.ofList (List.replicate dots '.') := by
  intro h
  obtain ⟨c, hc⟩ := List.exists_mem_of_ne_nil _ (Decimal.natChars_ne_nil n)
  have hdot : c = '.' := by
    apply List.eq_of_mem_replicate (n := dots)
    rw [← String.ofList_injective h]
    exact List.mem_append_right _ (List.mem_cons_of_mem _ hc)
  have hdigit := Decimal.isDigit_of_mem_natChars hc
  rw [hdot] at hdigit
  exact absurd hdigit (by decide)

/-- If all of the numbered names were occupied, there would be more places than there are. -/
theorem not_all_occupied (d : Disk) (base : String) : ¬ ∀ n ≤ d.nodes.entries.length,
    d.occupied (extended base (Decimal.nat (n + 1))) = true := by
  intro hocc
  obtain ⟨parents, stem, hread⟩ := read_numbered base
  have hfind : ∀ n ≤ d.nodes.entries.length, ∃ parent, d.walk [] parents = .ok parent ∧
      (d.nodes.find? (parent ++ [numberedName stem (n + 1)])).isSome :=
    fun n hn => Disk.find?_of_occupied (hocc n hn) (hread (n + 1))
      (numberedName_ne stem (n + 1) 1) (numberedName_ne stem (n + 1) 2)
  obtain ⟨parent, hwalk, -⟩ := hfind 0 (Nat.zero_le _)
  let places := (List.range (d.nodes.entries.length + 1)).map
    (fun n => parent ++ [numberedName stem (n + 1)])
  have hnodup : places.Nodup := by
    refine List.pairwise_map.2 (List.nodup_range.imp (fun hne h => hne ?_))
    have := numberedName_inj (List.singleton_inj.1 (List.append_cancel_left h))
    omega
  have hsubset : places ⊆ d.nodes.entries.map Prod.fst := by
    intro place hplace
    obtain ⟨n, hn, rfl⟩ := List.mem_map.1 hplace
    obtain ⟨parent', hwalk', hsome⟩ := hfind n (by have := List.mem_range.1 hn; omega)
    obtain rfl := Except.ok.inj (hwalk.symm.trans hwalk')
    obtain ⟨node, hnode⟩ := Option.isSome_iff_exists.1 hsome
    exact List.mem_map_of_mem (Dict.mem_entries_iff (a := (_, node)).2 hnode)
  have hlength := hnodup.length_le_of_subset hsubset
  rw [List.length_map, List.length_range, List.length_map] at hlength
  omega

/-- The name tried after `n` others: the base, and then the base with a number behind it. -/
def attempt (base : String) : Nat → String
  | 0 => base
  | n + 1 => extended base (Decimal.nat (n + 1))

theorem candidates_eq_map (d : Disk) (base : String) :
    candidates d base = (List.range (d.nodes.entries.length + 2)).map (attempt base) := by
  rw [List.range_succ_eq_map, List.map_cons, List.map_map]
  rfl

/-- The name is the first one tried for a base that is not occupied. It comes up at the latest when
two names more were tried than there are places taken. -/
def FirstFree (d : Disk) (base name : String) : Prop :=
  ∃ n ≤ d.nodes.entries.length + 1, name = attempt base n ∧ d.occupied name = false ∧
    ∀ m < n, d.occupied (attempt base m) = true

/-- The search ends, and with the first name that is not occupied. -/
theorem freeName_first (d : Disk) (base : String) : FirstFree d base (freeName d base) := by
  rw [freeName, candidates_eq_map]
  cases hf : ((List.range (d.nodes.entries.length + 2)).map (attempt base)).find?
      (fun name => !d.occupied name) with
  | some name =>
    obtain ⟨hfree, n, hn, hname, hbefore⟩ := List.find?_eq_some_iff_getElem.1 hf
    rw [List.length_map, List.length_range] at hn
    rw [List.getElem_map, List.getElem_range] at hname
    refine ⟨n, by omega, hname.symm, by simpa using hfree, fun m hm => ?_⟩
    simpa using hbefore m hm
  | none =>
    refine absurd (fun n hn => ?_) (not_all_occupied d base)
    have hmem : attempt base (n + 1) ∈
        (List.range (d.nodes.entries.length + 2)).map (attempt base) :=
      List.mem_map_of_mem (List.mem_range.2 (by omega))
    show d.occupied (attempt base (n + 1)) = true
    simpa using List.find?_eq_none.1 hf _ hmem

theorem freeName_not_occupied (d : Disk) (base : String) :
    d.occupied (freeName d base) = false := by
  obtain ⟨n, -, -, hfree, -⟩ := freeName_first d base
  exact hfree

end RollingFile

end EventPipeline.Storage
