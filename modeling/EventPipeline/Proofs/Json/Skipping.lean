import EventPipeline.Proofs.Json.Numbers
/-!
# Skipping values

A well-formed value is skipped as a whole, whatever it holds and whatever it stands in
(`skipValue_derives`). The proof follows the grammar: each form of text takes the frames that are
open to the frames it leaves open (`Skipped`), and each step of the machine has its lemma.
-/
namespace EventPipeline.Json

open Bytes (ofChars ofChars_cons_ascii ofChars_append ofChars_enclosed)

variable {bs more rest : Bytes} {frames : List Frame}

/-! ## Steps of the machine -/

theorem skipFrom_scalar {b : UInt8} (hb : skipBlank bs = b :: more) (hlist : b ≠ byte '[')
    (hobject : b ≠ byte '{') (hs : skipScalar b more = .ok rest) :
    skipFrom .value frames bs = skipFrom .after frames rest := by
  rw [skipFrom]
  split
  next h => rw [hb] at h; cases h
  next h =>
    rw [hb] at h
    cases h
    rw [if_neg hlist, if_neg hobject]
    split
    next h => rw [hs] at h; cases h
    next h => rw [hs] at h; cases h; rfl

theorem skipFrom_emptyList (hb : skipBlank bs = byte '[' :: more)
    (hr : skipBlank more = byte ']' :: rest) :
    skipFrom .value frames bs = skipFrom .after frames rest := by
  rw [skipFrom]
  split
  next h => rw [hb] at h; cases h
  next h =>
    rw [hb] at h
    cases h
    rw [if_pos rfl]
    split
    next h => rw [hr] at h; cases h
    next h => rw [hr] at h; cases h; exact if_pos rfl

theorem skipFrom_list {c : UInt8} (hb : skipBlank bs = byte '[' :: more)
    (hr : skipBlank more = c :: rest) (hc : c ≠ byte ']') :
    skipFrom .value frames bs = skipFrom .value (.list :: frames) more := by
  rw [skipFrom]
  split
  next h => rw [hb] at h; cases h
  next h =>
    rw [hb] at h
    cases h
    rw [if_pos rfl]
    split
    next h => rw [hr] at h; cases h
    next h => rw [hr] at h; cases h; exact if_neg hc

theorem skipFrom_emptyObject (hb : skipBlank bs = byte '{' :: more)
    (hr : skipBlank more = byte '}' :: rest) :
    skipFrom .value frames bs = skipFrom .after frames rest := by
  rw [skipFrom]
  split
  next h => rw [hb] at h; cases h
  next h =>
    rw [hb] at h
    cases h
    rw [if_neg (by decide), if_pos rfl]
    split
    next h => rw [hr] at h; cases h
    next h => rw [hr] at h; cases h; exact if_pos rfl

theorem skipFrom_object {c : UInt8} {r : Bytes} (hb : skipBlank bs = byte '{' :: more)
    (hr : skipBlank more = c :: r) (hc : c ≠ byte '}') (hk : skipKey more = .ok rest) :
    skipFrom .value frames bs = skipFrom .value (.object :: frames) rest := by
  rw [skipFrom]
  split
  next h => rw [hb] at h; cases h
  next h =>
    rw [hb] at h
    cases h
    rw [if_neg (by decide), if_pos rfl]
    split
    next h => rw [hr] at h; cases h
    next h =>
      rw [hr] at h
      cases h
      rw [if_neg hc]
      split
      next h => rw [hk] at h; cases h
      next h => rw [hk] at h; cases h; rfl

theorem skipFrom_nextElement (hb : skipBlank bs = byte ',' :: rest) :
    skipFrom .after (.list :: frames) bs = skipFrom .value (.list :: frames) rest := by
  rw [skipFrom]
  split
  next h => rw [hb] at h; cases h
  next h => rw [hb] at h; cases h; exact if_pos rfl

theorem skipFrom_nextMember (hb : skipBlank bs = byte ',' :: more) (hk : skipKey more = .ok rest) :
    skipFrom .after (.object :: frames) bs = skipFrom .value (.object :: frames) rest := by
  rw [skipFrom]
  split
  next h => rw [hb] at h; cases h
  next h =>
    rw [hb] at h
    cases h
    rw [if_pos rfl]
    dsimp only
    split
    next h => rw [hk] at h; cases h
    next h => rw [hk] at h; cases h; rfl

theorem skipFrom_close {frame : Frame} (hb : skipBlank bs = frame.close :: rest) :
    skipFrom .after (frame :: frames) bs = skipFrom .after frames rest := by
  have hcomma : frame.close ≠ byte ',' := by cases frame <;> decide
  rw [skipFrom]
  split
  next h => rw [hb] at h; cases h
  next h => rw [hb] at h; cases h; rw [if_neg hcomma, if_pos rfl]

/-! ## Members of an object -/

theorem ofChars_behindKey (g : Gaps) (value : List Char) (rest : Bytes) :
    ofChars (g.behindKey value) ++ rest = ofChars g.afterKey.chars ++ byte ':' ::
      (ofChars g.beforeValue.chars ++ (ofChars value ++ (ofChars g.afterValue.chars ++ rest))) := by
  simp only [Gaps.behindKey, ofChars_append, List.append_assoc,
    ofChars_cons_ascii (c := ':') (by decide), List.cons_append]

theorem ofChars_member (g : Gaps) (key value : List Char) (rest : Bytes) :
    ofChars (g.member key value) ++ rest = ofChars g.beforeKey.chars ++ byte '"' ::
      (ofChars key ++ byte '"' :: (ofChars (g.behindKey value) ++ rest)) := by
  simp only [Gaps.member, ofChars_append, List.append_assoc,
    ofChars_cons_ascii (c := '"') (by decide), List.cons_append]

theorem skipBlank_member (g : Gaps) (key value : List Char) (rest : Bytes) :
    skipBlank (ofChars (g.member key value) ++ rest) =
      byte '"' :: (ofChars key ++ byte '"' :: (ofChars (g.behindKey value) ++ rest)) := by
  rw [ofChars_member, skipBlank_blank, skipBlank_cons (by decide)]

theorem skipBlank_behindKey (g : Gaps) (value : List Char) (rest : Bytes) :
    skipBlank (ofChars (g.behindKey value) ++ rest) = byte ':' ::
      (ofChars g.beforeValue.chars ++ (ofChars value ++ (ofChars g.afterValue.chars ++ rest))) := by
  rw [ofChars_behindKey, skipBlank_blank, skipBlank_cons (by decide)]

/-- The key of a member is skipped with its colon. -/
theorem skipKey_member (g : Gaps) {key : List Char} (hkey : Content key) (value : List Char)
    (rest : Bytes) : skipKey (ofChars (g.member key value) ++ rest) =
      .ok (ofChars g.beforeValue.chars ++
        (ofChars value ++ (ofChars g.afterValue.chars ++ rest))) := by
  simp only [skipKey, skipBlank_member, if_true, skipContent_content hkey, skipBlank_behindKey]

/-! ## Well-formed values -/

theorem skipBlank_ascii {c : Char} (hascii : c.toNat < 128) (hblank : isBlank (byte c) = false)
    (cs : List Char) (rest : Bytes) :
    skipBlank (ofChars (c :: cs) ++ rest) = byte c :: (ofChars cs ++ rest) := by
  rw [ofChars_cons_ascii hascii, List.cons_append, skipBlank_cons hblank]

theorem Numeral.first {cs : List Char} (h : Numeral cs) :
    ∃ b bs, ofChars cs = b :: bs ∧ (b = byte '-' ∨ isDigit b = true) := by
  obtain ⟨rfl | rfl, hw, -, -⟩ := h
  · obtain ⟨b, bs, hbs, hb⟩ := hw.first
    rw [List.nil_append, ofChars_append, hbs, List.cons_append]
    exact ⟨b, _, rfl, .inr hb⟩
  · rw [List.singleton_append]
    exact ⟨_, _, ofChars_cons_ascii (by decide) _, .inl rfl⟩

/-- A value starts with a byte of its own, and one or more values or members with the first of
them: not with the end of a list or object. -/
theorem Derives.first {form : Form} {cs : List Char} (h : Derives form cs) (rest : Bytes) :
    ∃ b more, skipBlank (ofChars cs ++ rest) = b :: more ∧ b ≠ byte ']' ∧ b ≠ byte '}' := by
  induction h generalizing rest with
  | word h =>
    simp only [List.mem_cons, List.not_mem_nil, or_false] at h
    rcases h with rfl | rfl | rfl
    · exact ⟨_, _, skipBlank_ascii (by decide) (by decide) _ _, by decide, by decide⟩
    · exact ⟨_, _, skipBlank_ascii (by decide) (by decide) _ _, by decide, by decide⟩
    · exact ⟨_, _, skipBlank_ascii (by decide) (by decide) _ _, by decide, by decide⟩
  | number h =>
    obtain ⟨b, bs, hbs, hb⟩ := h.first
    rw [hbs, List.cons_append]
    rcases hb with rfl | hb
    · exact ⟨_, _, skipBlank_cons (by decide) _, by decide, by decide⟩
    · exact ⟨_, _, skipBlank_cons (isBlank_of_isDigit hb) _, ne_of_isDigit hb (by decide),
        ne_of_isDigit hb (by decide)⟩
  | string | emptyList | list | emptyObject | object =>
    exact ⟨_, _, skipBlank_ascii (by decide) (by decide) _ _, by decide, by decide⟩
  | lastElement b b' h ih =>
    rw [ofChars_append, List.append_assoc, skipBlank_blank, ofChars_append, List.append_assoc]
    exact ih _
  | element b b' h hs ih =>
    rw [ofChars_append, List.append_assoc, skipBlank_blank, ofChars_append, List.append_assoc]
    exact ih _
  | lastMember g hkey h => exact ⟨_, _, skipBlank_member .., by decide, by decide⟩
  | member g hkey h hs =>
    rw [ofChars_append, List.append_assoc]
    exact ⟨_, _, skipBlank_member .., by decide, by decide⟩

/-! ### Values without parts -/

theorem skipScalar_word {w : String} (h : w ∈ ["null", "true", "false"]) (rest : Bytes) :
    ∃ b more, ofChars w.toList ++ rest = b :: more ∧ isBlank b = false ∧ b ≠ byte '[' ∧
      b ≠ byte '{' ∧ skipScalar b more = .ok rest := by
  simp only [List.mem_cons, List.not_mem_nil, or_false] at h
  rcases h with rfl | rfl | rfl
  · exact ⟨_, _, rfl, by decide, by decide, by decide, rfl⟩
  · exact ⟨_, _, rfl, by decide, by decide, by decide, rfl⟩
  · exact ⟨_, _, rfl, by decide, by decide, by decide, rfl⟩

/-- A digit starts a number. -/
theorem skipScalar_digit {b : UInt8} (hb : isDigit b = true) (more : Bytes) :
    b ≠ byte '[' ∧ b ≠ byte '{' ∧ skipScalar b more = skipNumber (b :: more) := by
  have hne : ∀ c ∈ [byte 'n', byte 't', byte 'f', byte '-', byte '[', byte '{'], b ≠ c := by
    have hall : ∀ c ∈ [byte 'n', byte 't', byte 'f', byte '-', byte '[', byte '{'],
        isDigit c = false := List.all_iff_forall_prop.1 (by decide)
    exact fun c hc => ne_of_isDigit hb (hall c hc)
  simp only [List.forall_mem_cons] at hne
  obtain ⟨hn, ht, hf, hminus, hlist, hobject, -⟩ := hne
  refine ⟨hlist, hobject, ?_⟩
  rw [skipScalar, if_neg hn, if_neg ht, if_neg hf, if_neg hminus, if_pos hb]

theorem skipScalar_numeral {cs : List Char} (h : Numeral cs) (hrest : Ended rest) :
    ∃ b more, ofChars cs ++ rest = b :: more ∧ isBlank b = false ∧ b ≠ byte '[' ∧
      b ≠ byte '{' ∧ skipScalar b more = .ok rest := by
  obtain ⟨hsign, hw, hf, he⟩ := h
  have hskip := skipNumber_numeral hw hf he hrest
  rcases hsign with rfl | rfl
  · obtain ⟨b, bs, hbs, hb⟩ := hw.first
    rw [ofChars_append, hbs, List.cons_append, List.cons_append] at hskip
    obtain ⟨hlist, hobject, hdigit⟩ := skipScalar_digit hb (bs ++ ofChars _ ++ rest)
    rw [List.nil_append, ofChars_append, hbs, List.cons_append, List.cons_append]
    exact ⟨_, _, rfl, isBlank_of_isDigit hb, hlist, hobject, hdigit.trans hskip⟩
  · rw [List.singleton_append, ofChars_cons_ascii (by decide), List.cons_append]
    exact ⟨_, _, rfl, by decide, by decide, by decide, hskip⟩

theorem skipScalar_string {cs : List Char} (h : Content cs) (rest : Bytes) :
    ∃ b more, ofChars ('"' :: (cs ++ ['"'])) ++ rest = b :: more ∧ isBlank b = false ∧
      b ≠ byte '[' ∧ b ≠ byte '{' ∧ skipScalar b more = .ok rest := by
  rw [ofChars_enclosed (by decide) (by decide)]
  exact ⟨_, _, rfl, by decide, by decide, by decide, skipContent_content h rest⟩

/-! ### Values with parts -/

/-- What skipping does with a text of each form: behind a value the frames are as they were, and
behind the elements or members of a frame that frame is closed. -/
def Skipped : Form → List Char → Prop
  | .value, cs => ∀ (b : Blank) (frames : List Frame) (rest : Bytes), Ended rest →
    skipFrom .value frames (ofChars b.chars ++ (ofChars cs ++ rest)) = skipFrom .after frames rest
  | .elements, cs => ∀ (frames : List Frame) (rest : Bytes),
    skipFrom .value (.list :: frames) (ofChars cs ++ byte ']' :: rest) =
      skipFrom .after frames rest
  | .members, cs => ∀ (frames : List Frame) (rest : Bytes), ∃ more,
    skipKey (ofChars cs ++ byte '}' :: rest) = .ok more ∧
      skipFrom .value (.object :: frames) more = skipFrom .after frames rest

theorem skipped_scalar {cs : List Char}
    (h : ∀ rest, Ended rest → ∃ b more, ofChars cs ++ rest = b :: more ∧ isBlank b = false ∧
      b ≠ byte '[' ∧ b ≠ byte '{' ∧ skipScalar b more = .ok rest) : Skipped .value cs := by
  intro blank frames rest hrest
  obtain ⟨b, more, hbs, hb, hlist, hobject, hskip⟩ := h rest hrest
  refine skipFrom_scalar ?_ hlist hobject hskip
  rw [skipBlank_blank, hbs, skipBlank_cons hb]

/-- Text of every form is skipped as a whole. -/
theorem skipped_of_derives {form : Form} {cs : List Char} (h : Derives form cs) :
    Skipped form cs := by
  induction h with
  | word h => exact skipped_scalar fun rest _ => skipScalar_word h rest
  | number h => exact skipped_scalar fun rest hrest => skipScalar_numeral h hrest
  | string h => exact skipped_scalar fun rest _ => skipScalar_string h rest
  | emptyList b =>
    intro blank frames rest _
    have hempty : skipBlank (ofChars b.chars ++ byte ']' :: rest) = byte ']' :: rest := by
      rw [skipBlank_blank, skipBlank_cons (by decide)]
    rw [ofChars_enclosed (by decide) (by decide)]
    refine skipFrom_emptyList ?_ hempty
    rw [skipBlank_blank, skipBlank_cons (by decide)]
  | @list cs h ih =>
    intro blank frames rest _
    obtain ⟨b, more, hfirst, hb, -⟩ := h.first (byte ']' :: rest)
    rw [ofChars_enclosed (by decide) (by decide), skipFrom_list ?_ hfirst hb]
    · exact ih frames rest
    · rw [skipBlank_blank, skipBlank_cons (by decide)]
  | emptyObject b =>
    intro blank frames rest _
    have hempty : skipBlank (ofChars b.chars ++ byte '}' :: rest) = byte '}' :: rest := by
      rw [skipBlank_blank, skipBlank_cons (by decide)]
    rw [ofChars_enclosed (by decide) (by decide)]
    refine skipFrom_emptyObject ?_ hempty
    rw [skipBlank_blank, skipBlank_cons (by decide)]
  | @object cs h ih =>
    intro blank frames rest _
    obtain ⟨b, more, hfirst, -, hb⟩ := h.first (byte '}' :: rest)
    obtain ⟨r, hkey, hmembers⟩ := ih frames rest
    rw [ofChars_enclosed (by decide) (by decide), skipFrom_object ?_ hfirst hb hkey]
    · exact hmembers
    · rw [skipBlank_blank, skipBlank_cons (by decide)]
  | lastElement b b' h ih =>
    intro frames rest
    rw [ofChars_append, ofChars_append, List.append_assoc, List.append_assoc,
      ih b _ _ (ended_blank b' (by decide) rest)]
    refine skipFrom_close ?_
    rw [skipBlank_blank, skipBlank_cons (by decide)]
    rfl
  | @element cs ds b b' h hs ih ihs =>
    intro frames rest
    rw [ofChars_append, ofChars_append, ofChars_append, ofChars_cons_ascii (by decide),
      List.append_assoc, List.append_assoc, List.append_assoc, List.cons_append,
      ih b _ _ (ended_blank b' (by decide) _)]
    refine (skipFrom_nextElement ?_).trans (ihs frames rest)
    rw [skipBlank_blank, skipBlank_cons (by decide)]
  | lastMember g hkey h ih =>
    intro frames rest
    refine ⟨_, skipKey_member g hkey _ _, ?_⟩
    rw [ih _ _ _ (ended_blank g.afterValue (by decide) rest)]
    refine skipFrom_close ?_
    rw [skipBlank_blank, skipBlank_cons (by decide)]
    rfl
  | @member key cs ds g hkey h hs ih ihs =>
    intro frames rest
    obtain ⟨more, hkeys, hmembers⟩ := ihs frames rest
    rw [ofChars_append, List.append_assoc, ofChars_cons_ascii (by decide), List.cons_append]
    refine ⟨_, skipKey_member g hkey _ _, ?_⟩
    rw [ih _ _ _ (ended_blank g.afterValue (by decide) _)]
    refine (skipFrom_nextMember ?_ hkeys).trans hmembers
    rw [skipBlank_blank, skipBlank_cons (by decide)]

/-- A well-formed value is skipped up to what follows it, with white space before it. -/
theorem skipValue_derives {cs : List Char} (h : Derives .value cs) (b : Blank)
    (hrest : Ended rest) : skipValue (ofChars b.chars ++ (ofChars cs ++ rest)) = .ok rest := by
  rw [skipValue, skipped_of_derives h b [] rest hrest, skipFrom]

end EventPipeline.Json
