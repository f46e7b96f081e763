import EventPipeline.Calendar.Pattern.Text
/-!
# A pattern is read piece by piece

The text of a pattern is a row of pieces: a character that stands for itself, or a `%` with
what belongs to it. A piece is read in the same way whatever stands behind it (`Piece`), so a
text that is read on its own can be cut off in front (`Pieces.reads`), and the lenient offset
is among the parts only where a piece `%#z` begins (`lenient_mem_iff`).
-/
namespace EventPipeline.Calendar.Pattern

variable {c d : Char} {padding : Padding} {parts p : Pattern} {piece cs : List Char}

/-- A piece of a text that is read in one go, whatever stands behind it. -/
structure Piece (piece : List Char) (parts : Pattern) : Prop where
  reads : ∀ rest, read? (piece ++ rest) = (parts ++ ·) <$> read? rest
  lenient : .form .offsetLenient ∈ parts ↔ piece = ['%', '#', 'z']

theorem Piece.literal (h : c ≠ '%') : Piece [c] [.literal c] where
  reads rest := by
    rw [List.singleton_append, read?]
    · rfl
    all_goals simp [h]
  lenient := by simp

/-- No letter is one of the characters that introduce a longer piece. -/
theorem Piece.letter (h : ofLetter? c = some parts) : Piece ['%', c] parts where
  reads rest := by
    have hne : ∀ s, ofLetter? s = none → c ≠ s := by
      rintro s hs rfl
      rw [hs] at h
      cases h
    have hnone : paddingOf? c = none := by
      unfold paddingOf?
      split
      · exact absurd rfl (hne '-' rfl)
      · exact absurd rfl (hne '0' rfl)
      · exact absurd rfl (hne '_' rfl)
      · rfl
    show read? ('%' :: c :: rest) = _
    rw [read?, h]
    · rfl
    · exact hnone
    all_goals exact fun _ hc _ => absurd hc (hne _ rfl)
  lenient := by
    have hmem : .form .offsetLenient ∉ parts := by
      unfold ofLetter? at h
      split at h <;> cases h <;> decide
    simp [hmem]

theorem Piece.padded (hc : paddingOf? c = some padding) (hd : repadded? padding d = some parts) :
    Piece ['%', c, d] parts where
  reads rest := by
    have hread : read? ('%' :: c :: d :: rest) =
        (· ++ ·) <$> repadded? padding d <*> read? rest := by
      unfold paddingOf? at hc
      split at hc <;> cases hc <;> rw [read?] <;> simp [paddingOf?]
    rw [hd] at hread
    exact hread
  lenient := by
    have hmem : .form .offsetLenient ∉ parts := by
      rw [repadded?] at hd
      split at hd <;> cases hd
      simp
    have hhash : c ≠ '#' := by
      rintro rfl
      cases hc
    simp [hmem, hhash]

/-- A text made of pieces, and the pattern they stand for. -/
inductive Pieces : List Char → Pattern → Prop
  | nil : Pieces [] []
  | cons {piece cs : List Char} {parts p : Pattern} (h : Piece piece parts) (hs : Pieces cs p) :
      Pieces (piece ++ cs) (parts ++ p)

theorem Pieces.reads (h : Pieces cs p) (rest : List Char) :
    read? (cs ++ rest) = (p ++ ·) <$> read? rest := by
  induction h with
  | nil => simp
  | cons hpiece _ ih =>
    rw [List.append_assoc, hpiece.reads, ih]
    cases read? rest with
    | none => rfl
    | some r => simp

theorem Pieces.read? (h : Pieces cs p) : read? cs = some p := by
  have hreads := h.reads []
  rw [List.append_nil] at hreads
  rw [hreads]
  simp [Pattern.read?]

theorem Pieces.of_read (hpiece : Piece piece parts)
    (h : (parts ++ ·) <$> Pattern.read? cs = some p)
    (ih : ∀ {q}, Pattern.read? cs = some q → Pieces cs q) : Pieces (piece ++ cs) p := by
  obtain ⟨q, hq, rfl⟩ := Option.map_eq_some_iff.1 h
  exact .cons hpiece (ih hq)

theorem pieces_of_read? (h : read? cs = some p) : Pieces cs p := by
  fun_induction read? cs generalizing p with
  | case1 =>
    cases h
    exact .nil
  | case2 rest ih =>
    exact .of_read (⟨fun _ => rfl, by decide⟩ : Piece ['%', '#', 'z'] [.form .offsetLenient]) h ih
  | case3 rest ih =>
    exact .of_read (⟨fun _ => rfl, by decide⟩ : Piece ['%', ':', 'z'] [.form .offsetColon]) h ih
  | case4 rest ih =>
    exact .of_read
      (⟨fun _ => rfl, by decide⟩ : Piece ['%', ':', ':', 'z'] [.form .offsetSeconds]) h ih
  | case5 rest ih =>
    exact .of_read
      (⟨fun _ => rfl, by decide⟩ : Piece ['%', ':', ':', ':', 'z'] [.form .offsetHours]) h ih
  | case6 rest ih =>
    exact .of_read (⟨fun _ => rfl, by decide⟩ : Piece ['%', '.', 'f'] [.form .fraction]) h ih
  | case7 rest ih =>
    exact .of_read
      (⟨fun _ => rfl, by decide⟩ : Piece ['%', '.', '3', 'f'] [.form (.dottedDigits 3)]) h ih
  | case8 rest ih =>
    exact .of_read
      (⟨fun _ => rfl, by decide⟩ : Piece ['%', '.', '6', 'f'] [.form (.dottedDigits 6)]) h ih
  | case9 rest ih =>
    exact .of_read
      (⟨fun _ => rfl, by decide⟩ : Piece ['%', '.', '9', 'f'] [.form (.dottedDigits 9)]) h ih
  | case10 rest ih =>
    exact .of_read (⟨fun _ => rfl, by decide⟩ : Piece ['%', '3', 'f'] [.form (.digits 3)]) h ih
  | case11 rest ih =>
    exact .of_read (⟨fun _ => rfl, by decide⟩ : Piece ['%', '6', 'f'] [.form (.digits 6)]) h ih
  | case12 rest ih =>
    exact .of_read (⟨fun _ => rfl, by decide⟩ : Piece ['%', '9', 'f'] [.form (.digits 9)]) h ih
  | case13 => cases h
  | case14 c padding d rest hc =>
    rename_i ih
    cases hd : repadded? padding d with
    | none =>
      rw [hd] at h
      cases h
    | some parts =>
      rw [hd] at h
      exact .of_read (.padded hc hd) h ih
  | case15 => cases h
  | case16 c rest =>
    rename_i ih
    cases hc : ofLetter? c with
    | none =>
      rw [hc] at h
      cases h
    | some parts =>
      rw [hc] at h
      exact .of_read (.letter hc) h ih
  | case17 c rest =>
    rename_i hlone hmore ih
    have hc : c ≠ '%' := by
      rintro rfl
      cases rest with
      | nil => exact hlone rfl rfl
      | cons d more => exact hmore d more rfl rfl
    exact .of_read (.literal hc) h ih

theorem Pieces.split (h : Pieces cs p) (hmem : .form .offsetLenient ∈ p) :
    ∃ before after q, cs = before ++ '%' :: '#' :: 'z' :: after ∧ Pieces before q := by
  induction h with
  | nil => cases hmem
  | @cons piece cs parts p hpiece _ ih =>
    rcases List.mem_append.1 hmem with hmem | hmem
    · rw [hpiece.lenient.1 hmem]
      exact ⟨[], cs, [], rfl, .nil⟩
    · obtain ⟨before, after, q, rfl, hbefore⟩ := ih hmem
      exact ⟨piece ++ before, after, parts ++ q, by simp, .cons hpiece hbefore⟩

/-- A pattern holds the lenient offset if its text has `%#z` behind what is read on its own. -/
theorem lenient_mem_iff (h : read? cs = some p) :
    .form .offsetLenient ∈ p ↔
      ∃ before after q, cs = before ++ '%' :: '#' :: 'z' :: after ∧ read? before = some q := by
  constructor
  · intro hmem
    obtain ⟨before, after, q, hcs, hbefore⟩ := (pieces_of_read? h).split hmem
    exact ⟨before, after, q, hcs, hbefore.read?⟩
  · rintro ⟨before, after, q, rfl, hq⟩
    rw [(pieces_of_read? hq).reads] at h
    obtain ⟨r, hr, rfl⟩ := Option.map_eq_some_iff.1 h
    obtain ⟨s, -, rfl⟩ := Option.map_eq_some_iff.1 hr
    simp

end EventPipeline.Calendar.Pattern
