/-!
# Decimal digits

A natural number and the text of its digits, most significant first, without a
leading zero; `ofDigits_digits` says that the digits give the number back.
-/
namespace EventPipeline.Decimal

/-- The character of a digit. -/
def digitChar (d : Nat) : Char := Char.ofNat ('0'.toNat + d)

/-- The digits of `n`, most significant first. -/
def digits (n : Nat) : List Nat :=
  if n < 10 then [n] else digits (n / 10) ++ [n % 10]
termination_by n

/-- The number with the given digits. -/
def ofDigits (ds : List Nat) : Nat := ds.foldl (fun n d => 10 * n + d) 0

theorem ofDigits_append (ds : List Nat) (d : Nat) :
    ofDigits (ds ++ [d]) = 10 * ofDigits ds + d := by
  simp [ofDigits]

@[simp] theorem ofDigits_digits (n : Nat) : ofDigits (digits n) = n := by
  fun_induction digits n with
  | case1 n h => simp [ofDigits]
  | case2 n h ih => rw [ofDigits_append, ih]; omega

theorem lt_ten_of_mem_digits {n d : Nat} (h : d ∈ digits n) : d < 10 := by
  fun_induction digits n with
  | case1 n hn => simp at h; omega
  | case2 n hn ih =>
    rcases List.mem_append.1 h with h | h
    · exact ih h
    · simp at h; omega

/-- The text of a natural number. -/
def natChars (n : Nat) : List Char := (digits n).map digitChar

theorem digitChar_inj {a b : Nat} (ha : a < 10) (hb : b < 10) (h : digitChar a = digitChar b) :
    a = b := by
  have hall : ∀ a < 10, ∀ b < 10, digitChar a = digitChar b → a = b := by decide
  exact hall a ha b hb h

theorem natChars_ne_nil (n : Nat) : natChars n ≠ [] := by
  unfold natChars
  rw [digits]
  split <;> simp

theorem map_digitChar_inj {ds es : List Nat} (hd : ∀ d ∈ ds, d < 10) (he : ∀ e ∈ es, e < 10)
    (h : ds.map digitChar = es.map digitChar) : ds = es := by
  induction ds generalizing es with
  | nil => exact (List.map_eq_nil_iff.1 h.symm).symm
  | cons d ds ih =>
    cases es with
    | nil => cases h
    | cons e es =>
      obtain ⟨hfirst, hrest⟩ := List.cons.inj h
      rw [List.forall_mem_cons] at hd he
      rw [digitChar_inj hd.1 he.1 hfirst, ih hd.2 he.2 hrest]

theorem natChars_inj {m n : Nat} (h : natChars m = natChars n) : m = n := by
  have hdigits : digits m = digits n :=
    map_digitChar_inj (fun _ => lt_ten_of_mem_digits) (fun _ => lt_ten_of_mem_digits) h
  rw [← ofDigits_digits m, ← ofDigits_digits n, hdigits]

/-- The text of a natural number has digits only. -/
theorem isDigit_of_mem_natChars {n : Nat} {c : Char} (h : c ∈ natChars n) : c.isDigit := by
  obtain ⟨d, hd, rfl⟩ := List.mem_map.1 h
  have hall : ∀ d < 10, (digitChar d).isDigit := by decide
  exact hall d (lt_ten_of_mem_digits hd)

/-- The text of an integer: its digits, after a `-` if it is negative. -/
def intChars : Int → List Char
  | .ofNat n => natChars n
  | .negSucc n => '-' :: natChars (n + 1)

/-- `n` in decimal. -/
def nat (n : Nat) : String := String.ofList (natChars n)

/-- `i` in decimal. -/
def int (i : Int) : String := String.ofList (intChars i)

/-- `n` in decimal, filled up with `fill` in front to at least `width` characters. -/
def padded (fill : Char) (width n : Nat) : List Char :=
  let cs := natChars n
  List.replicate (width - cs.length) fill ++ cs

end EventPipeline.Decimal
