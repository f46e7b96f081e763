import EventPipeline.Json.Event
import EventPipeline.Proofs.Json.Strings
/-!
# Numbers of JSON texts

A number ends where no digit, point or exponent goes on (`Ended`). Up to there a whole number in
base 10 is read as it is (`readInteger_write`), and a number of any size is skipped
(`skipNumber_numeral`).
-/
namespace EventPipeline.Json

open Bytes (ofChars ofChars_cons_ascii ofChars_append)

variable {rest : Bytes}

/-! ## Where a number ends -/

/-- Some bytes do not start with a digit. -/
def NoDigit (bs : Bytes) : Prop := ∀ b ∈ bs.head?, isDigit b = false

/-- Some bytes go on as they may after a number. -/
def Ended (bs : Bytes) : Prop :=
  ∃ b more, bs = b :: more ∧ isDigit b = false ∧ b ≠ byte '.' ∧ startsExponent b = false

theorem Ended.noDigit {bs : Bytes} (h : Ended bs) : NoDigit bs := by
  obtain ⟨b, more, rfl, hb, -⟩ := h
  intro c hc
  rwa [← Option.some.inj hc]

/-- What follows a value in a list or object ends a number. -/
theorem ended_blank (b : Blank) {c : Char} (hc : c ∈ [',', ']', '}']) (rest : Bytes) :
    Ended (ofChars b.chars ++ byte c :: rest) := by
  have hall : ∀ c ∈ [' ', '\n', '\t', '\r'] ++ [',', ']', '}'], c.toNat < 128 ∧
      isDigit (byte c) = false ∧ byte c ≠ byte '.' ∧ startsExponent (byte c) = false :=
    List.all_iff_forall_prop.1 (by decide)
  obtain ⟨cs, hcs⟩ := b
  cases cs with
  | nil => exact ⟨_, _, rfl, (hall c (List.mem_append_right _ hc)).2⟩
  | cons d cs =>
    obtain ⟨hascii, hd⟩ := hall d (List.mem_append_left _ (hcs d List.mem_cons_self))
    exact ⟨_, _, by rw [ofChars_cons_ascii hascii, List.cons_append], hd⟩

/-! ## Digits -/

theorem decimal {c : Char} (h : c ∈ decimals) :
    c.toNat < 128 ∧ isDigit (byte c) = true ∧ (byte c = byte '0' → c = '0') := by
  have hall : ∀ c ∈ decimals, c.toNat < 128 ∧ isDigit (byte c) = true ∧
      (byte c = byte '0' → c = '0') := List.all_iff_forall_prop.1 (by decide)
  exact hall c h

theorem isDigit_of_mem_ofChars {cs : List Char} (h : ∀ c ∈ cs, c ∈ decimals) :
    ∀ b ∈ ofChars cs, isDigit b = true := by
  intro b hb
  obtain ⟨c, hc, hb⟩ := List.mem_flatMap.1 hb
  obtain ⟨hascii, hdigit, -⟩ := decimal (h c hc)
  rw [Bytes.utf8EncodeChar_ascii hascii, List.mem_singleton] at hb
  rw [hb, hdigit]

theorem spanDigits_append {ds : Bytes} (hds : ∀ b ∈ ds, isDigit b = true) (hrest : NoDigit rest) :
    spanDigits (ds ++ rest) = (ds, rest) := by
  rw [spanDigits, List.takeWhile_append_of_pos hds, List.dropWhile_append_of_pos hds]
  cases rest with
  | nil => rw [List.takeWhile_nil, List.dropWhile_nil, List.append_nil]
  | cons b rest =>
    have hb : isDigit b = false := hrest b rfl
    rw [List.takeWhile_cons_of_neg (by simp [hb]), List.dropWhile_cons_of_neg (by simp [hb]),
      List.append_nil]

theorem readWhole_whole {w : List Char} (h : Whole w) (hrest : NoDigit rest) :
    readWhole (ofChars w ++ rest) = .ok (ofChars w, rest) := by
  cases h with
  | zero =>
    rw [ofChars_cons_ascii (by decide), Bytes.ofChars_nil, List.singleton_append, readWhole.eq_def]
    cases rest with
    | nil => rfl
    | cons b rest =>
      have hb : isDigit b = false := hrest b rfl
      simp only [if_true, hb, Bool.false_eq_true, if_false]
  | digits hc hzero hcs =>
    obtain ⟨hascii, hdigit, hnonzero⟩ := decimal hc
    have hspan := spanDigits_append (isDigit_of_mem_ofChars hcs) hrest
    rw [ofChars_cons_ascii hascii, List.cons_append, readWhole.eq_def]
    simp only [if_neg fun h => hzero (hnonzero h), hdigit, if_true, hspan]

/-! ## Whole numbers in base 10 -/

/-- The first digit of a number is a zero only if it is the only one. -/
theorem digits_cases (n : Nat) :
    Decimal.digits n = [0] ∨ ∃ d ds, Decimal.digits n = d :: ds ∧ d ≠ 0 := by
  fun_induction Decimal.digits n with
  | case1 n hlt =>
    by_cases hn : n = 0
    · exact .inl (by rw [hn])
    · exact .inr ⟨n, [], rfl, hn⟩
  | case2 n hge ih =>
    rcases ih with hzero | ⟨d, ds, hds, hd⟩
    · have hn := Decimal.ofDigits_digits (n / 10)
      rw [hzero] at hn
      simp [Decimal.ofDigits] at hn
      omega
    · exact .inr ⟨d, ds ++ [n % 10], by rw [hds, List.cons_append], hd⟩

theorem digitChar_mem_decimals {d : Nat} (h : d < 10) : Decimal.digitChar d ∈ decimals := by
  have hall : ∀ d < 10, Decimal.digitChar d ∈ decimals := by decide
  exact hall d h

theorem natChars_mem_decimals (n : Nat) : ∀ c ∈ Decimal.natChars n, c ∈ decimals := by
  intro c hc
  obtain ⟨d, hd, rfl⟩ := List.mem_map.1 hc
  exact digitChar_mem_decimals (Decimal.lt_ten_of_mem_digits hd)

theorem whole_natChars (n : Nat) : Whole (Decimal.natChars n) := by
  have hmem := natChars_mem_decimals n
  rcases digits_cases n with hzero | ⟨d, ds, hds, hd⟩
  · rw [Decimal.natChars, hzero]
    exact .zero
  · have hnonzero : ∀ d < 10, d ≠ 0 → Decimal.digitChar d ≠ '0' := by decide
    have hlt : d < 10 := by
      refine Decimal.lt_ten_of_mem_digits (n := n) ?_
      rw [hds]
      exact List.mem_cons_self
    rw [Decimal.natChars, hds, List.map_cons] at hmem ⊢
    obtain ⟨hfirst, hmore⟩ := List.forall_mem_cons.1 hmem
    exact .digits hfirst (hnonzero d hlt hd) hmore

theorem digitsValue_natChars (n : Nat) : digitsValue (ofChars (Decimal.natChars n)) = n := by
  have hvalue : ∀ d < 10, digitValue (byte (Decimal.digitChar d)) = d := by decide
  have hlist : ∀ (ds : List Nat) k, (∀ d ∈ ds, d < 10) →
      (ofChars (ds.map Decimal.digitChar)).foldl (fun n d => 10 * n + digitValue d) k =
        ds.foldl (fun n d => 10 * n + d) k := by
    intro ds
    induction ds with
    | nil => intros; rfl
    | cons d ds ih =>
      intro k hds
      obtain ⟨hd, hds⟩ := List.forall_mem_cons.1 hds
      have hascii := (decimal (digitChar_mem_decimals hd)).1
      rw [List.map_cons, ofChars_cons_ascii hascii, List.foldl_cons, hvalue d hd, ih _ hds,
        List.foldl_cons]
  rw [digitsValue, Decimal.natChars, hlist _ _ fun _ => Decimal.lt_ten_of_mem_digits]
  exact Decimal.ofDigits_digits n

/-- Digits whose value is one of 64 bits are all kept. -/
theorem gather_eq {n : Nat} {ds : Bytes}
    (h : ds.foldl (fun n d => 10 * n + digitValue d) n < UInt64.size) :
    gather n ds = (ds.foldl (fun n d => 10 * n + digitValue d) n, []) := by
  have hgrows : ∀ (ds : Bytes) n, n ≤ ds.foldl (fun n d => 10 * n + digitValue d) n := by
    intro ds
    induction ds with
    | nil => exact fun n => Nat.le_refl n
    | cons d ds ih => exact fun n => Nat.le_trans (show n ≤ 10 * n + digitValue d by omega) (ih _)
  induction ds generalizing n with
  | nil => rfl
  | cons d ds ih =>
    have hfits : 10 * n + digitValue d < UInt64.size := Nat.lt_of_le_of_lt (hgrows ds _) h
    rw [gather, if_pos hfits, ih h, List.foldl_cons]

theorem readNumber_write {n : Nat} (hn : n < UInt64.size) (negative : Bool) (hrest : Ended rest) :
    readNumber negative (ofChars (Decimal.natChars n) ++ rest) =
      .ok (wholeNumber negative n, rest) := by
  have hvalue := digitsValue_natChars n
  have hkept : Significand.ofWhole (ofChars (Decimal.natChars n)) = ⟨n, 0⟩ := by
    rw [digitsValue] at hvalue
    rw [Significand.ofWhole, gather_eq (by rwa [hvalue]), hvalue]
    rfl
  rw [readNumber, readWhole_whole (whole_natChars n) hrest.noDigit]
  obtain ⟨c, more, rfl, -, hpoint, hexponent⟩ := hrest
  simp only [hkept, readRest, if_neg hpoint, hexponent, Bool.false_eq_true, if_false, if_true]

theorem isBlank_of_isDigit {b : UInt8} (h : isDigit b = true) : isBlank b = false := by
  refine Bool.eq_false_iff.2 fun hblank => ?_
  simp only [isBlank, Bool.or_eq_true, decide_eq_true_eq] at hblank
  rcases hblank with ((rfl | rfl) | rfl) | rfl <;> exact absurd h (by decide)

theorem ne_of_isDigit {b c : UInt8} (h : isDigit b = true) (hc : isDigit c = false) : b ≠ c := by
  rintro rfl
  rw [h] at hc
  cases hc

/-- The digits of a number start with a digit. -/
theorem Whole.first {w : List Char} (h : Whole w) :
    ∃ b bs, ofChars w = b :: bs ∧ isDigit b = true := by
  cases h with
  | zero => exact ⟨_, _, rfl, by decide⟩
  | digits hc =>
    obtain ⟨hascii, hdigit, -⟩ := decimal hc
    exact ⟨_, _, ofChars_cons_ascii hascii _, hdigit⟩

theorem readInteger_write {expected : Expected} {bound : Nat} {i : Int}
    (hlow : -(bound : Int) ≤ i) (hhigh : i < bound) (hbound : bound ≤ Int64.size / 2)
    (hrest : Ended rest) :
    readInteger expected bound (ofChars (Decimal.intChars i) ++ rest) = .ok (i, rest) := by
  have hsize : UInt64.size = 2 * (Int64.size / 2) := by decide
  cases i with
  | ofNat n =>
    have hfits : n < UInt64.size := by simp only [Int.ofNat_eq_natCast] at hhigh; omega
    obtain ⟨b, bs, hbs, hdigit⟩ := (whole_natChars n).first
    have hblank := isBlank_of_isDigit hdigit
    have hminus : b ≠ byte '-' := ne_of_isDigit hdigit (by decide)
    have hnumber := readNumber_write hfits false hrest
    rw [hbs, List.cons_append] at hnumber
    rw [Decimal.intChars, hbs, List.cons_append, readInteger, skipBlank_cons hblank]
    simp only [if_neg hminus, hdigit, if_true, hnumber, Except.bind, wholeNumber,
      Bool.false_eq_true, if_false]
    exact if_pos ⟨hlow, hhigh⟩
  | negSucc n =>
    have hfits : n + 1 ≤ Int64.size / 2 := by rw [Int.negSucc_eq] at hlow; omega
    have hnumber := readNumber_write (n := n + 1) (by omega) true hrest
    have hwhole : wholeNumber true (n + 1) = .whole (Int.negSucc n) := by
      rw [wholeNumber, if_pos rfl, if_neg (by omega), Int.negSucc_eq]
      rfl
    rw [Decimal.intChars, ofChars_cons_ascii (by decide), List.cons_append, readInteger,
      skipBlank_cons (by decide)]
    simp only [if_true, hnumber, hwhole, Except.bind]
    exact if_pos ⟨hlow, hhigh⟩

/-! ## Numbers of any size -/

theorem skipScale_exponent {e : List Char} (h : Exponent e) (hrest : Ended rest) :
    skipScale (ofChars e ++ rest) = .ok rest := by
  cases h with
  | none =>
    obtain ⟨b, more, rfl, -, -, hexponent⟩ := hrest
    simp only [Bytes.ofChars_nil, List.nil_append, skipScale, hexponent, Bool.false_eq_true,
      if_false]
  | @some e c sign cs he hsign hcs =>
    have hletter : e.toNat < 128 ∧ startsExponent (byte e) = true := by
      rcases he with rfl | rfl <;> decide
    obtain ⟨hascii, hdigit, -⟩ := decimal (hcs c List.mem_cons_self)
    have hsigned : (readSign (ofChars (sign ++ c :: cs) ++ rest)).2 =
        byte c :: (ofChars cs ++ rest) := by
      have hminus : byte c ≠ byte '-' := ne_of_isDigit hdigit (by decide)
      have hplus : byte c ≠ byte '+' := ne_of_isDigit hdigit (by decide)
      rcases hsign with rfl | rfl | rfl
      · rw [List.nil_append, ofChars_cons_ascii hascii, List.cons_append, readSign, if_neg hplus,
          if_neg hminus]
      · rw [List.singleton_append, ofChars_cons_ascii (by decide), ofChars_cons_ascii hascii]
        rfl
      · rw [List.singleton_append, ofChars_cons_ascii (by decide), ofChars_cons_ascii hascii]
        rfl
    have hspan := spanDigits_append
      (isDigit_of_mem_ofChars fun d hd => hcs d (List.mem_cons_of_mem _ hd)) hrest.noDigit
    rw [List.cons_append, ofChars_cons_ascii hletter.1, List.cons_append]
    simp only [skipScale, hletter.2, if_true, skipExponent, hsigned, hdigit, hspan]

/-- Neither an exponent nor what follows a number goes on with the digits before it or with a
point. -/
theorem Exponent.first {e : List Char} (h : Exponent e) (hrest : Ended rest) :
    ∃ b more, ofChars e ++ rest = b :: more ∧ isDigit b = false ∧ b ≠ byte '.' := by
  cases h with
  | none =>
    obtain ⟨b, more, rfl, hb, hpoint, -⟩ := hrest
    exact ⟨b, more, rfl, hb, hpoint⟩
  | some he =>
    rcases he with rfl | rfl
    · exact ⟨_, _, rfl, by decide, by decide⟩
    · exact ⟨_, _, rfl, by decide, by decide⟩

/-- A number of any size is skipped, from behind its sign. -/
theorem skipNumber_numeral {w f e : List Char} (hw : Whole w) (hf : Fraction f) (he : Exponent e)
    (hrest : Ended rest) : skipNumber (ofChars (w ++ (f ++ e)) ++ rest) = .ok rest := by
  have hscale := skipScale_exponent he hrest
  obtain ⟨b, more, hmore, hb, hpoint⟩ := he.first hrest
  have hnoDigit : NoDigit (ofChars e ++ rest) := by
    intro c hc
    rw [hmore] at hc
    rwa [← Option.some.inj hc]
  rw [ofChars_append, ofChars_append, List.append_assoc, List.append_assoc]
  cases hf with
  | none =>
    rw [Bytes.ofChars_nil, List.nil_append, skipNumber, readWhole_whole hw hnoDigit, hmore]
    rw [hmore] at hscale
    simp only [if_neg hpoint, hscale]
  | @some c cs hcs =>
    have hascii := (decimal (hcs c List.mem_cons_self)).1
    have hspan := spanDigits_append (isDigit_of_mem_ofChars hcs) hnoDigit
    rw [ofChars_cons_ascii hascii] at hspan
    rw [ofChars_cons_ascii (by decide), ofChars_cons_ascii hascii, List.cons_append, skipNumber,
      readWhole_whole hw]
    · simp only [if_true, hspan, hscale]
    · intro c hc
      rw [← Option.some.inj hc]
      decide

end EventPipeline.Json
