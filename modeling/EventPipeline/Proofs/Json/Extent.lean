import EventPipeline.Proofs.Json.Skipping
/-!
# Where values end

Readers and skipping agree on how far a value goes, on any bytes: what a reader takes off is what
skipping takes off (`skipValue_of_readValue`). A reader asks for more than skipping does, so this
holds in one direction only.
-/
namespace EventPipeline.Json

variable {bs rest : Bytes}

/-! ## Strings -/

theorem readHex_of_readTrailing {n : Nat} (h : readTrailing bs = .ok (n, rest)) :
    ∃ more, bs = byte '\\' :: byte 'u' :: more ∧ readHex more = .ok (n, rest) := by
  unfold readTrailing at h
  split at h
  · cases h
  · split at h
    next b bs hb =>
      split at h
      · cases h
      · split at h
        next hu => exact ⟨_, by rw [hb, hu], h⟩
        · cases h
    · cases h

theorem skipContent_number {n : Nat} {more : Bytes} (h : readHex bs = .ok (n, more)) :
    skipContent (byte '\\' :: byte 'u' :: bs) = skipContent more := by
  refine skipContent_escape ?_
  rw [skipEscape, if_pos rfl, h]
  rfl

/-- An escape is skipped as far as it is read: a pair of surrogates as two escapes. -/
theorem skipContent_of_readEscape {content : Bytes} (h : readEscape bs = .ok (content, rest)) :
    skipContent (byte '\\' :: bs) = skipContent rest := by
  unfold readEscape at h
  split at h
  · cases h
  next b more =>
    split at h
    next hu =>
      obtain ⟨⟨n, r⟩, hcode, heq⟩ := map_eq_ok h
      cases heq
      rw [hu]
      unfold readCodePoint at hcode
      split at hcode
      · cases hcode
      next m r' hhex =>
        rw [skipContent_number hhex]
        split at hcode
        · cases hcode
        · split at hcode
          · split at hcode
            · cases hcode
            next t r'' htrailing =>
              obtain ⟨digits, rfl, hhex'⟩ := readHex_of_readTrailing htrailing
              split at hcode
              · cases hcode
                exact skipContent_number hhex'
              · cases hcode
          · cases hcode
            rfl
    next hu =>
      split at h
      next c hc =>
        cases h
        refine skipContent_escape ?_
        rw [skipEscape, if_neg hu, hc]
        rfl
      · cases h

theorem skipContent_of_readContent {content : Bytes} (h : readContent bs = .ok (content, rest)) :
    skipContent bs = .ok rest := by
  fun_induction readContent bs generalizing content rest with
  | case1 => cases h
  | case2 =>
    cases h
    rw [skipContent, if_pos rfl]
  | case3 => cases h
  | case4 bs c more hescape _ _ ih =>
    obtain ⟨⟨tail, r⟩, hread, heq⟩ := map_eq_ok h
    cases heq
    rw [skipContent_of_readEscape hescape, ih hread]
  | case5 => cases h
  | case6 b bs hquote hslash hlow ih =>
    obtain ⟨⟨tail, r⟩, hread, heq⟩ := map_eq_ok h
    cases heq
    rw [skipContent, if_neg hquote, if_neg hslash, if_neg hlow, ih hread]

theorem skipContent_of_readString {s : String} (h : readString bs = .ok (s, rest)) :
    skipContent bs = .ok rest := by
  unfold readString at h
  split at h
  · cases h
  next hcontent =>
    split at h
    · cases h
    · cases h
      exact skipContent_of_readContent hcontent

/-! ## Numbers -/

theorem skipExponent_of_readExponent {s : Significand} {x : Decimal.Double}
    (h : readExponent s bs = .ok (x, rest)) : skipExponent bs = .ok rest := by
  unfold readExponent at h
  split at h
  · cases h
  next b ds hsign =>
    split at h
    next hb =>
      have hspan : (spanDigits (b :: ds)).2 = (spanDigits ds).2 := List.dropWhile_cons_of_pos hb
      have hrest : rest = (spanDigits ds).2 := by
        dsimp only at h
        split at h
        · split at h
          · cases h
          · cases h
            exact hspan
        · obtain ⟨y, -, heq⟩ := map_eq_ok h
          cases heq
          exact hspan
      simp only [skipExponent, hsign, hb, if_true, hrest]
    · cases h

theorem skipScale_of_readScale {s : Significand} {x : Decimal.Double}
    (h : readScale s bs = .ok (x, rest)) : skipScale bs = .ok rest := by
  unfold readScale at h
  split at h
  · obtain ⟨y, -, heq⟩ := map_eq_ok h
    cases heq
    rfl
  · split at h
    next hb => rw [skipScale, if_pos hb, skipExponent_of_readExponent h]
    next hb =>
      obtain ⟨y, -, heq⟩ := map_eq_ok h
      cases heq
      rw [skipScale, if_neg hb]

/-- A number is skipped as far as it is read. -/
theorem skipNumber_of_readNumber {negative : Bool} {n : Number}
    (h : readNumber negative bs = .ok (n, rest)) : skipNumber bs = .ok rest := by
  unfold readNumber at h
  split at h
  · cases h
  next ds more hwhole =>
    unfold readRest at h
    dsimp only at h
    simp only [skipNumber, hwhole]
    split at h
    · split at h
      · cases h
        rfl
      · obtain ⟨⟨y, r⟩, hscale, heq⟩ := map_eq_ok h
        cases heq
        exact skipScale_of_readScale hscale
    next b more =>
      split at h
      next hpoint =>
        obtain ⟨⟨y, r⟩, hfraction, heq⟩ := map_eq_ok h
        cases heq
        unfold readFraction at hfraction
        rw [if_pos hpoint]
        split at hfraction
        · split at hfraction <;> cases hfraction
        next hdigits =>
          have hscale := skipScale_of_readScale hfraction
          rcases hspan : spanDigits more with ⟨ds, r⟩
          rw [hspan] at hdigits hscale
          cases ds with
          | nil => exact absurd rfl hdigits
          | cons => exact hscale
      next hpoint =>
        rw [if_neg hpoint]
        split at h
        next hexponent =>
          obtain ⟨⟨y, r⟩, hread, heq⟩ := map_eq_ok h
          cases heq
          rw [skipScale, if_pos hexponent, skipExponent_of_readExponent hread]
        next hexponent =>
          split at h
          · cases h
            rw [skipScale, if_neg hexponent]
          · obtain ⟨⟨y, r⟩, hscale, heq⟩ := map_eq_ok h
            cases heq
            exact skipScale_of_readScale hscale

/-! ## Values of members -/

theorem nextKey_none {first : Bool} (h : nextKey first bs = .ok (none, rest)) :
    skipBlank bs = byte '}' :: rest := by
  have hsome : ∀ {r : Bytes}, (readString r).map (fun p => (some p.1, p.2)) ≠
      .ok ((none : Option String), rest) := by
    intro r hr
    obtain ⟨⟨s, r'⟩, -, heq⟩ := map_eq_ok hr
    cases heq
  unfold nextKey at h
  split at h
  · cases h
  next b r hblank =>
    split at h
    next hb =>
      cases h
      rw [hblank, hb]
    next hb =>
      split at h
      · split at h
        · exact absurd h hsome
        · cases h
      · split at h
        · split at h
          · cases h
          · split at h
            · exact absurd h hsome
            · split at h <;> cases h
        · cases h

/-- A key that was read is a string, behind a comma unless it is the first. -/
theorem nextKey_some {first : Bool} {key : String} (h : nextKey first bs = .ok (some key, rest)) :
    ∃ start r, (if first then start = bs else skipBlank bs = byte ',' :: start) ∧
      skipBlank start = byte '"' :: r ∧ readString r = .ok (key, rest) := by
  have hstring : ∀ {r : Bytes}, (readString r).map (fun p => (some p.1, p.2)) =
      .ok (some key, rest) → readString r = .ok (key, rest) := by
    intro r hr
    obtain ⟨⟨s, r'⟩, hs, heq⟩ := map_eq_ok hr
    cases heq
    exact hs
  unfold nextKey at h
  split at h
  · cases h
  next b r hblank =>
    split at h
    · cases h
    · split at h
      next hfirst =>
        split at h
        next hb => exact ⟨bs, r, by rw [if_pos hfirst], hb ▸ hblank, hstring h⟩
        · cases h
      next hfirst =>
        split at h
        next hb =>
          split at h
          · cases h
          next c r' hblank' =>
            split at h
            next hc => exact ⟨r, r', by rw [if_neg hfirst, hblank, hb], hc ▸ hblank', hstring h⟩
            · split at h <;> cases h
        · cases h

theorem readColon_ok (h : readColon bs = .ok rest) : skipBlank bs = byte ':' :: rest := by
  unfold readColon at h
  split at h
  · cases h
  next b r hblank =>
    split at h
    next hb =>
      cases h
      rw [hblank, hb]
    · cases h

/-- A key is skipped with its colon as far as they are read. -/
theorem skipKey_of_readString {key : String} {start r colon : Bytes}
    (hstart : skipBlank start = byte '"' :: r) (hkey : readString r = .ok (key, colon))
    (hcolon : readColon colon = .ok rest) : skipKey start = .ok rest := by
  simp only [skipKey, hstart, if_true, skipContent_of_readString hkey, readColon_ok hcolon]

theorem skipFrom_of_readText {s : String} (h : readText bs = .ok (s, rest)) (frames : List Frame) :
    skipFrom .value frames bs = skipFrom .after frames rest := by
  unfold readText at h
  split at h
  · cases h
  next b r hblank =>
    split at h
    next hb =>
      rw [hb] at hblank
      exact skipFrom_scalar hblank (by decide) (by decide) (skipContent_of_readString h)
    · cases h

theorem skipFrom_of_readInteger {expected : Expected} {bound : Nat} {i : Int}
    (h : readInteger expected bound bs = .ok (i, rest)) (frames : List Frame) :
    skipFrom .value frames bs = skipFrom .after frames rest := by
  unfold readInteger at h
  extract_lets inRange at h
  have hrange : ∀ n r, inRange (n, r) = .ok (i, rest) → r = rest := by
    intro n r hn
    cases n with
    | float x => cases hn
    | whole j =>
      simp only [inRange] at hn
      split at hn
      · cases hn
        rfl
      · cases hn
  split at h
  · cases h
  next b r hblank =>
    split at h
    next hb =>
      obtain ⟨⟨n, r'⟩, hn, heq⟩ := bind_eq_ok h
      obtain rfl := hrange n r' heq
      rw [hb] at hblank
      exact skipFrom_scalar hblank (by decide) (by decide) (skipNumber_of_readNumber hn)
    · split at h
      next hb =>
        obtain ⟨⟨n, r'⟩, hn, heq⟩ := bind_eq_ok h
        obtain rfl := hrange n r' heq
        obtain ⟨hlist, hobject, hdigit⟩ := skipScalar_digit hb r
        exact skipFrom_scalar hblank hlist hobject (hdigit.trans (skipNumber_of_readNumber hn))
      · cases h

/-- The entries of an object are skipped as far as they are read: with its opening brace, or
from behind an entry of it. -/
theorem skipFrom_of_readEntries {first : Bool} {done entries : List (String × String)}
    (h : readEntries first done bs = .ok (entries, rest)) (frames : List Frame) :
    if first then ∀ start, skipBlank start = byte '{' :: bs →
      skipFrom .value frames start = skipFrom .after frames rest
    else skipFrom .after (.object :: frames) bs = skipFrom .after frames rest := by
  fun_induction readEntries first done bs with
  | case1 => cases h
  | case2 first done bs r hkey =>
    cases h
    have hclose := nextKey_none hkey
    cases first with
    | true =>
      intro start hstart
      exact skipFrom_emptyObject hstart hclose
    | false => exact skipFrom_close hclose
  | case3 => cases h
  | case4 => cases h
  | case5 first done bs key colon hkey more hcolon value r hvalue _ _ _ ih =>
    obtain ⟨start, r', hfirst, hstart, hstring⟩ := nextKey_some hkey
    have hskip := skipKey_of_readString hstart hstring hcolon
    have hmore := (skipFrom_of_readText hvalue (.object :: frames)).trans (ih h)
    cases first with
    | true =>
      obtain rfl : start = bs := hfirst
      intro before hbefore
      rw [skipFrom_object hbefore hstart (by decide) hskip, hmore]
    | false => exact (skipFrom_nextMember hfirst hskip).trans hmore

/-- What a reader of values takes off is what skipping takes off. -/
theorem skipValue_of_readValue {k : Kind} {v : k.Value} (h : readValue k bs = .ok (v, rest)) :
    skipValue bs = .ok rest := by
  have hdone : skipFrom .after [] rest = .ok rest := by rw [skipFrom]
  rw [skipValue, ← hdone]
  cases k with
  | text => exact skipFrom_of_readText h []
  | int32 =>
    obtain ⟨⟨i, r⟩, hread, heq⟩ := map_eq_ok h
    cases heq
    exact skipFrom_of_readInteger hread []
  | int64 =>
    obtain ⟨⟨i, r⟩, hread, heq⟩ := map_eq_ok h
    cases heq
    exact skipFrom_of_readInteger hread []
  | properties =>
    simp only [readValue, readProperties] at h
    split at h
    · cases h
    next b r hblank =>
      split at h
      next hb =>
        obtain ⟨⟨entries, r'⟩, hread, heq⟩ := map_eq_ok h
        cases heq
        exact skipFrom_of_readEntries hread [] bs (hb ▸ hblank)
      · cases h

end EventPipeline.Json
