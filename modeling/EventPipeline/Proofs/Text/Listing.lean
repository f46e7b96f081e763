import EventPipeline.Text.Split
/-!
# Comma separated lists

A list in a text is read the same however it is spaced: blanks around an entry and blank entries
leave no mark (`listed_intercalate`), and every text is some spacing of the list read from it
(`padded_listed`). What is read has itself the form that is read back unchanged (`Entry`).
-/
namespace EventPipeline.Text

/-- Nothing but blanks. -/
def Blank (cs : List Char) : Prop := ∀ c ∈ cs, isBlank c = true

/-- A text with a blank at neither end. -/
structure Bare (cs : List Char) : Prop where
  head : ∀ c ∈ cs.head?, isBlank c = false
  last : ∀ c ∈ cs.getLast?, isBlank c = false

instance (cs : List Char) : Decidable (Blank cs) :=
  decidable_of_iff (cs.all isBlank = true) List.all_eq_true

theorem bare_iff {cs : List Char} : Bare cs ↔
    cs.head?.all (fun c => !isBlank c) = true ∧ cs.getLast?.all (fun c => !isBlank c) = true := by
  simp only [Option.all_eq_true, Bool.not_eq_true']
  exact ⟨fun h => ⟨h.head, h.last⟩, fun h => ⟨h.1, h.2⟩⟩

instance (cs : List Char) : Decidable (Bare cs) := decidable_of_iff _ bare_iff.symm

/-! ## Trimming -/

theorem Blank.reverse {cs : List Char} (h : Blank cs) : Blank cs.reverse :=
  fun c hc => h c (List.mem_reverse.1 hc)

theorem trimLeft_append {l : List Char} (hl : Blank l) (cs : List Char) :
    trimLeft (l ++ cs) = trimLeft cs :=
  List.dropWhile_append_of_pos hl

theorem trimLeft_of_head {cs : List Char} (h : ∀ c ∈ cs.head?, isBlank c = false) :
    trimLeft cs = cs := by
  cases cs with
  | nil => rfl
  | cons c rest => exact List.dropWhile_cons_of_neg (Bool.eq_false_iff.1 (h c rfl))

theorem head_trimLeft {cs : List Char} {c : Char} (h : c ∈ (trimLeft cs).head?) :
    isBlank c = false := by
  have hnot := List.head?_dropWhile_not isBlank cs
  rw [show cs.dropWhile isBlank = trimLeft cs from rfl, Option.mem_def.1 h] at hnot
  exact hnot

theorem trimLeft_spec (cs : List Char) : ∃ l, Blank l ∧ cs = l ++ trimLeft cs :=
  ⟨cs.takeWhile isBlank, List.all_eq_true.1 List.all_takeWhile,
    List.takeWhile_append_dropWhile.symm⟩

theorem trimRight_spec (cs : List Char) : ∃ r, Blank r ∧ cs = trimRight cs ++ r := by
  obtain ⟨l, hl, hcs⟩ := trimLeft_spec cs.reverse
  refine ⟨l.reverse, hl.reverse, ?_⟩
  rw [trimRight, ← List.reverse_append, ← hcs, List.reverse_reverse]

theorem trim_of_blank {cs : List Char} (h : Blank cs) : trim cs = [] := by
  have hleft : trimLeft cs = [] := by
    have happend := trimLeft_append h []
    rwa [List.append_nil] at happend
  rw [trim, hleft]
  rfl

/-- Blanks around a text do not show once it is trimmed. -/
theorem trim_append {l cs r : List Char} (hl : Blank l) (hcs : Bare cs) (hr : Blank r) :
    trim (l ++ cs ++ r) = cs := by
  by_cases hne : cs = []
  · subst hne
    refine trim_of_blank fun c hc => ?_
    rw [List.append_nil] at hc
    exact (List.mem_append.1 hc).elim (hl c) (hr c)
  · have hleft : trimLeft (l ++ cs ++ r) = cs ++ r := by
      rw [List.append_assoc, trimLeft_append hl]
      obtain ⟨first, rest, rfl⟩ := List.exists_cons_of_ne_nil hne
      exact trimLeft_of_head hcs.head
    have hright : trimLeft (cs ++ r).reverse = cs.reverse := by
      rw [List.reverse_append, trimLeft_append hr.reverse]
      refine trimLeft_of_head fun c hc => hcs.last c ?_
      rwa [List.head?_reverse] at hc
    rw [trim, hleft, trimRight, hright, List.reverse_reverse]

/-- A text is its trimmed form between blanks. -/
theorem trim_spec (cs : List Char) : ∃ l r, Blank l ∧ Blank r ∧ cs = l ++ trim cs ++ r := by
  obtain ⟨l, hl, hcs⟩ := trimLeft_spec cs
  obtain ⟨r, hr, hrest⟩ := trimRight_spec (trimLeft cs)
  refine ⟨l, r, hl, hr, ?_⟩
  rw [trim, List.append_assoc, ← hrest]
  exact hcs

theorem mem_of_mem_trim {cs : List Char} {c : Char} (h : c ∈ trim cs) : c ∈ cs := by
  obtain ⟨l, r, -, -, hcs⟩ := trim_spec cs
  rw [hcs]
  exact List.mem_append_left _ (List.mem_append_right _ h)

theorem bare_trim (cs : List Char) : Bare (trim cs) where
  head c hc := by
    obtain ⟨r, -, hrest⟩ := trimRight_spec (trimLeft cs)
    obtain ⟨rest, htrim⟩ := List.head?_eq_some_iff.1 hc
    refine @head_trimLeft cs c ?_
    rw [hrest, show trimRight (trimLeft cs) = c :: rest from htrim]
    rfl
  last c hc := by
    rw [trim, trimRight, List.getLast?_reverse] at hc
    exact head_trimLeft hc

theorem trim_eq_nil_iff {cs : List Char} : trim cs = [] ↔ Blank cs := by
  refine ⟨fun h => ?_, trim_of_blank⟩
  obtain ⟨l, r, hl, hr, hcs⟩ := trim_spec cs
  rw [h, List.append_nil] at hcs
  intro c hc
  rw [hcs] at hc
  exact (List.mem_append.1 hc).elim (hl c) (hr c)

/-! ## Splitting -/

theorem split_ne_nil (sep : Char) (cs : List Char) : split sep cs ≠ [] := by
  obtain ⟨before, last, h⟩ := split_append sep cs
  have hnil := h [] List.not_mem_nil
  rw [List.append_nil] at hnil
  rw [hnil]
  exact List.append_ne_nil_of_right_ne_nil _ (List.cons_ne_nil _ _)

theorem split_cons_of_ne {sep c : Char} (hc : c ≠ sep) {cs part : List Char}
    {parts : List (List Char)} (h : split sep cs = part :: parts) :
    split sep (c :: cs) = (c :: part) :: parts := by
  rw [split, if_neg hc, h]

/-- A separator in the middle splits a text in two that have nothing to do with each other. -/
theorem split_append_cons (sep : Char) (cs ds : List Char) :
    split sep (cs ++ sep :: ds) = split sep cs ++ split sep ds := by
  induction cs with
  | nil => exact if_pos rfl
  | cons c rest ih =>
    by_cases hc : c = sep
    · rw [List.cons_append, split, if_pos hc, split, if_pos hc, ih, List.cons_append]
    · obtain ⟨part, parts, hrest⟩ := List.exists_cons_of_ne_nil (split_ne_nil sep rest)
      rw [hrest, List.cons_append] at ih
      rw [List.cons_append, split_cons_of_ne hc ih, split_cons_of_ne hc hrest, List.cons_append]

/-- The parts hold no separator, -/
theorem not_mem_of_mem_split {sep : Char} {cs part : List Char} (h : part ∈ split sep cs) :
    sep ∉ part := by
  induction cs generalizing part with
  | nil =>
    rw [List.mem_singleton.1 h]
    exact List.not_mem_nil
  | cons c rest ih =>
    by_cases hc : c = sep
    · rw [split, if_pos hc] at h
      rcases List.mem_cons.1 h with rfl | h
      · exact List.not_mem_nil
      · exact ih h
    · obtain ⟨first, parts, hrest⟩ := List.exists_cons_of_ne_nil (split_ne_nil sep rest)
      rw [hrest] at ih
      rw [split_cons_of_ne hc hrest] at h
      rcases List.mem_cons.1 h with rfl | h
      · intro hmem
        rcases List.mem_cons.1 hmem with hsep | hmem
        · exact hc hsep.symm
        · exact ih List.mem_cons_self hmem
      · exact ih (List.mem_cons_of_mem _ h)

/-- and joined by it they are the text again. -/
theorem intercalate_split (sep : Char) (cs : List Char) :
    List.intercalate [sep] (split sep cs) = cs := by
  induction cs with
  | nil => rfl
  | cons c rest ih =>
    by_cases hc : c = sep
    · rw [split, if_pos hc, List.intercalate_cons_of_ne_nil (split_ne_nil sep rest), ih, hc]
      rfl
    · obtain ⟨part, parts, hrest⟩ := List.exists_cons_of_ne_nil (split_ne_nil sep rest)
      rw [split_cons_of_ne hc hrest, ← ih, hrest]
      cases parts with
      | nil => simp
      | cons next more => simp

/-! ## Lists in a text -/

/-- What an entry of a list is: a text without a comma, with a blank at neither end. -/
structure Entry (s : String) : Prop where
  ne_empty : s ≠ ""
  comma : ',' ∉ s.toList
  bare : Bare s.toList

instance (s : String) : Decidable (Entry s) :=
  decidable_of_iff (_ ∧ _ ∧ _)
    ⟨fun h => ⟨h.1, h.2.1, h.2.2⟩, fun h => ⟨h.ne_empty, h.comma, h.bare⟩⟩

/-- The entries of a list as they may stand in a text: with blanks around them and blank parts in
between. -/
inductive Padded : List String → List String → Prop
  | nil : Padded [] []
  | blank {s : String} {xs parts : List String} (hs : Blank s.toList) (h : Padded xs parts) :
      Padded xs (s :: parts)
  | entry {l x r : String} {xs parts : List String} (hl : Blank l.toList) (hx : Entry x)
      (hr : Blank r.toList) (h : Padded xs parts) : Padded (x :: xs) ((l ++ x ++ r) :: parts)

theorem Padded.of_entries {xs : List String} (h : ∀ x ∈ xs, Entry x) : Padded xs xs := by
  induction xs with
  | nil => exact .nil
  | cons x rest ih =>
    have hnil : Blank "".toList := fun c hc => absurd hc List.not_mem_nil
    have hcons := Padded.entry hnil (h x List.mem_cons_self) hnil
      (ih fun y hy => h y (List.mem_cons_of_mem _ hy))
    rwa [String.empty_append, String.append_empty] at hcons

theorem Padded.entries {xs parts : List String} (h : Padded xs parts) : ∀ x ∈ xs, Entry x := by
  induction h with
  | nil => exact fun x hx => absurd hx List.not_mem_nil
  | blank _ _ ih => exact ih
  | entry _ hx _ _ ih =>
    intro y hy
    rcases List.mem_cons.1 hy with rfl | hy
    · exact hx
    · exact ih y hy

/-- The entries of some parts: what `listed` makes of the parts of a text. -/
def entries (parts : List (List Char)) : List String :=
  ((parts.map trim).filter (fun cs => !cs.isEmpty)).map String.ofList

theorem listed_eq (s : String) : listed s = entries (split ',' s.toList) := rfl

theorem entries_append (as bs : List (List Char)) :
    entries (as ++ bs) = entries as ++ entries bs := by
  rw [entries, List.map_append, List.filter_append, List.map_append]
  rfl

theorem entries_of_blank {cs : List Char} (h : Blank cs) : entries [cs] = [] := by
  simp [entries, trim_of_blank h]

theorem entries_of_not_blank {cs : List Char} (h : ¬Blank cs) :
    entries [cs] = [String.ofList (trim cs)] := by
  have hne : trim cs ≠ [] := fun hnil => h (trim_eq_nil_iff.1 hnil)
  simp [entries, hne]

theorem entry_trim {cs : List Char} (hcomma : ',' ∉ cs) (h : ¬Blank cs) :
    Entry (String.ofList (trim cs)) where
  ne_empty hempty := h (trim_eq_nil_iff.1 (String.ofList_eq_empty_iff.1 hempty))
  comma := by
    rw [String.toList_ofList]
    exact fun hmem => hcomma (mem_of_mem_trim hmem)
  bare := by
    rw [String.toList_ofList]
    exact bare_trim cs

/-- A comma in the middle separates two lists. -/
theorem listed_append (a b : String) : listed (a ++ "," ++ b) = listed a ++ listed b := by
  have hjoin : (a ++ "," ++ b).toList = a.toList ++ ',' :: b.toList := by
    rw [String.toList_append, String.toList_append, List.append_assoc]
    rfl
  rw [listed_eq, hjoin, split_append_cons, entries_append]
  rfl

/-- The list in one part. -/
theorem listed_of_not_mem {s : String} (h : ',' ∉ s.toList) : listed s = entries [s.toList] := by
  rw [listed_eq, split_of_not_mem h]

theorem Blank.not_mem_comma {cs : List Char} (h : Blank cs) : ',' ∉ cs :=
  fun hmem => absurd (h ',' hmem) (by decide)

theorem listed_of_blank {s : String} (h : Blank s.toList) : listed s = [] := by
  rw [listed_of_not_mem h.not_mem_comma, entries_of_blank h]

theorem listed_of_entry {l x r : String} (hl : Blank l.toList) (hx : Entry x)
    (hr : Blank r.toList) : listed (l ++ x ++ r) = [x] := by
  have hparts : (l ++ x ++ r).toList = l.toList ++ x.toList ++ r.toList := by
    rw [String.toList_append, String.toList_append]
  have hcomma : ',' ∉ (l ++ x ++ r).toList := by
    rw [hparts]
    intro hmem
    rcases List.mem_append.1 hmem with hmem | hmem
    · exact (List.mem_append.1 hmem).elim hl.not_mem_comma hx.comma
    · exact hr.not_mem_comma hmem
  have htrim : trim (l ++ x ++ r).toList = x.toList := by
    rw [hparts]
    exact trim_append hl hx.bare hr
  have hblank : ¬Blank (l ++ x ++ r).toList := by
    intro h
    have hnil := trim_of_blank h
    rw [htrim] at hnil
    exact hx.ne_empty (String.toList_eq_nil_iff.1 hnil)
  rw [listed_of_not_mem hcomma, entries_of_not_blank hblank, htrim, String.ofList_toList]

/-- Joined parts are read one after the other. -/
theorem listed_intercalate_cons (s : String) (parts : List String) :
    listed (String.intercalate "," (s :: parts)) =
      listed s ++ listed (String.intercalate "," parts) := by
  by_cases hparts : parts = []
  · subst hparts
    rw [String.intercalate_singleton, String.intercalate_nil]
    exact (List.append_nil _).symm
  · rw [String.intercalate_cons_of_ne_nil hparts, listed_append]

/-- However it is spaced, the same list is read. -/
theorem listed_intercalate {xs parts : List String} (h : Padded xs parts) :
    listed (String.intercalate "," parts) = xs := by
  induction h with
  | nil => rfl
  | blank hs _ ih => rw [listed_intercalate_cons, listed_of_blank hs, ih, List.nil_append]
  | entry hl hx hr _ ih =>
    rw [listed_intercalate_cons, listed_of_entry hl hx hr, ih, List.singleton_append]

/-- Parts without a comma are some spacing of their entries. -/
theorem padded_entries {parts : List (List Char)} (h : ∀ part ∈ parts, ',' ∉ part) :
    Padded (entries parts) (parts.map String.ofList) := by
  induction parts with
  | nil => exact .nil
  | cons part rest ih =>
    have hrest := ih fun p hp => h p (List.mem_cons_of_mem _ hp)
    rw [← List.singleton_append, entries_append, List.singleton_append, List.map_cons]
    by_cases hblank : Blank part
    · rw [entries_of_blank hblank, List.nil_append]
      refine .blank ?_ hrest
      rwa [String.toList_ofList]
    · obtain ⟨l, r, hl, hr, hpart⟩ := trim_spec part
      have hsplit : String.ofList part =
          String.ofList l ++ String.ofList (trim part) ++ String.ofList r := by
        rw [← String.ofList_append, ← String.ofList_append, ← hpart]
      rw [entries_of_not_blank hblank, List.singleton_append, hsplit]
      refine .entry ?_ (entry_trim (h part List.mem_cons_self) hblank) ?_ hrest
      · rwa [String.toList_ofList]
      · rwa [String.toList_ofList]

/-- Every text is some spacing of the list read from it. -/
theorem padded_listed (s : String) :
    ∃ parts, Padded (listed s) parts ∧ String.intercalate "," parts = s := by
  refine ⟨(split ',' s.toList).map String.ofList,
    padded_entries fun part hpart => not_mem_of_mem_split hpart, ?_⟩
  apply String.toList_inj.1
  rw [String.toList_intercalate, List.map_map]
  have hid : String.toList ∘ String.ofList = id := funext fun _ => String.toList_ofList
  rw [hid, List.map_id]
  exact intercalate_split ',' s.toList

theorem entry_of_mem_listed {s x : String} (h : x ∈ listed s) : Entry x := by
  obtain ⟨parts, hpadded, -⟩ := padded_listed s
  exact hpadded.entries x h

/-- A text without an entry: there is nothing in it but commas and blanks. -/
def NoEntry (s : String) : Prop := ∀ c ∈ s.toList, c = ',' ∨ isBlank c = true

instance (s : String) : Decidable (NoEntry s) :=
  decidable_of_iff (s.toList.all (fun c => c = ',' || isBlank c) = true) (by simp [NoEntry])

theorem noEntry_append {a b : String} : NoEntry (a ++ b) ↔ NoEntry a ∧ NoEntry b := by
  simp only [NoEntry, String.toList_append, List.mem_append, or_imp, forall_and]

theorem noEntry_intercalate_cons {s : String} {parts : List String} :
    NoEntry (String.intercalate "," (s :: parts)) ↔
      NoEntry s ∧ NoEntry (String.intercalate "," parts) := by
  by_cases hparts : parts = []
  · subst hparts
    rw [String.intercalate_singleton, String.intercalate_nil]
    exact ⟨fun h => ⟨h, fun c hc => absurd hc List.not_mem_nil⟩, And.left⟩
  · have hcomma : NoEntry "," := fun c hc => .inl (List.mem_singleton.1 hc)
    rw [String.intercalate_cons_of_ne_nil hparts, noEntry_append, noEntry_append]
    exact ⟨fun h => ⟨h.1.1, h.2⟩, fun h => ⟨⟨h.1, hcomma⟩, h.2⟩⟩

/-- The first character of an entry is neither a comma nor a blank. -/
theorem Entry.not_noEntry {x : String} (h : Entry x) : ¬NoEntry x := by
  intro hno
  have hne : x.toList ≠ [] := fun hnil => h.ne_empty (String.toList_eq_nil_iff.1 hnil)
  obtain ⟨c, rest, hx⟩ := List.exists_cons_of_ne_nil hne
  have hmem : c ∈ x.toList := by
    rw [hx]
    exact List.mem_cons_self
  rcases hno c hmem with rfl | hblank
  · exact h.comma hmem
  · have hhead : x.toList.head? = some c := by rw [hx, List.head?_cons]
    exact Bool.noConfusion ((h.bare.head c hhead).symm.trans hblank)

theorem Padded.noEntry_iff {xs parts : List String} (h : Padded xs parts) :
    NoEntry (String.intercalate "," parts) ↔ xs = [] := by
  induction h with
  | nil => exact ⟨fun _ => rfl, fun _ c hc => absurd hc List.not_mem_nil⟩
  | blank hs _ ih =>
    rw [noEntry_intercalate_cons, ih]
    exact ⟨And.right, fun h => ⟨fun c hc => .inr (hs c hc), h⟩⟩
  | entry _ hx _ _ _ =>
    rw [noEntry_intercalate_cons, noEntry_append, noEntry_append]
    exact ⟨fun h => absurd h.1.1.2 hx.not_noEntry, fun h => absurd h (List.cons_ne_nil _ _)⟩

theorem listed_eq_nil_iff {s : String} : listed s = [] ↔ NoEntry s := by
  obtain ⟨parts, hpadded, hs⟩ := padded_listed s
  rw [← hpadded.noEntry_iff, hs]

end EventPipeline.Text
