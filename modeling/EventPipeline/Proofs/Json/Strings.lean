import EventPipeline.Json.Skip
import EventPipeline.Proofs.Json.Grammar
import Mathlib.Data.Bool.AllAny
/-!
# Strings of JSON texts

A string is read as its text however it is spelled (`readString_spelled`), and skipped if only it
is well formed (`skipContent_content`), up to its closing quote and whatever comes after that.
-/
namespace EventPipeline

namespace Bytes

open Json (byte)

/-- The UTF-8 encoding of some characters. -/
def ofChars (cs : List Char) : Bytes := cs.flatMap String.utf8EncodeChar

theorem ofText_ofList (cs : List Char) : ofText (String.ofList cs) = ofChars cs := by
  simp [ofText, ofChars, String.toByteArray_ofList, List.utf8Encode]

theorem toText?_ofChars (s : String) : toText? (ofChars s.toList) = some s := by
  rw [← ofText_ofList, String.ofList_toList, toText?_ofText]

@[simp] theorem ofChars_nil : ofChars [] = [] := rfl

@[simp] theorem ofChars_append (cs ds : List Char) :
    ofChars (cs ++ ds) = ofChars cs ++ ofChars ds :=
  List.flatMap_append

theorem ofChars_cons (c : Char) (cs : List Char) :
    ofChars (c :: cs) = String.utf8EncodeChar c ++ ofChars cs := rfl

theorem utf8EncodeChar_ascii {c : Char} (h : c.toNat < 128) :
    String.utf8EncodeChar c = [byte c] := by
  unfold String.utf8EncodeChar
  exact if_pos (Nat.le_of_lt_succ h)

@[simp] theorem ofChars_cons_ascii {c : Char} (h : c.toNat < 128) (cs : List Char) :
    ofChars (c :: cs) = byte c :: ofChars cs := by
  rw [ofChars_cons, utf8EncodeChar_ascii h, List.singleton_append]

theorem ofChars_enclosed {c d : Char} (hc : c.toNat < 128) (hd : d.toNat < 128) (cs : List Char)
    (rest : Bytes) :
    ofChars (c :: (cs ++ [d])) ++ rest = byte c :: (ofChars cs ++ byte d :: rest) := by
  rw [ofChars_cons_ascii hc, List.cons_append, ofChars_append, List.append_assoc,
    ofChars_cons_ascii hd, ofChars_nil, List.singleton_append]

/-- A byte of an encoded character is the character or none of ASCII. -/
theorem of_mem_utf8EncodeChar {c : Char} {b : UInt8} (h : b ∈ String.utf8EncodeChar c) :
    c.toNat < 128 ∧ b = byte c ∨ 128 ≤ b.toNat := by
  by_cases hc : c.toNat < 128
  · rw [utf8EncodeChar_ascii hc] at h
    exact .inl ⟨hc, List.mem_singleton.1 h⟩
  · right
    have hv : ¬c.val.toNat ≤ 127 := fun hle => hc (Nat.lt_succ_of_le hle)
    unfold String.utf8EncodeChar at h
    simp only [if_neg hv] at h
    split at h
    · simp at h; rcases h with rfl | rfl <;> simp <;> omega
    · split at h
      · simp at h; rcases h with rfl | rfl | rfl <;> simp <;> omega
      · simp at h; rcases h with rfl | rfl | rfl | rfl <;> simp <;> omega

end Bytes

namespace Json

open Bytes (ofChars ofChars_cons ofChars_cons_ascii ofChars_append)

variable {content more rest : Bytes}

/-! ## White space -/

theorem skipBlank_cons {b : UInt8} (h : isBlank b = false) (bs : Bytes) :
    skipBlank (b :: bs) = b :: bs :=
  List.dropWhile_cons_of_neg (by simp [h])

@[simp] theorem skipBlank_blank (b : Blank) (bs : Bytes) :
    skipBlank (ofChars b.chars ++ bs) = skipBlank bs := by
  obtain ⟨cs, hcs⟩ := b
  have hall : ∀ c ∈ [' ', '\n', '\t', '\r'], c.toNat < 128 ∧ isBlank (byte c) = true :=
    List.all_iff_forall_prop.1 (by decide)
  induction cs with
  | nil => rfl
  | cons c cs ih =>
    obtain ⟨hc, hcs⟩ := List.forall_mem_cons.1 hcs
    obtain ⟨hascii, hblank⟩ := hall c hc
    show skipBlank (ofChars (c :: cs) ++ bs) = _
    rw [ofChars_cons_ascii hascii, List.cons_append, skipBlank, List.dropWhile_cons_of_pos hblank]
    exact ih hcs

/-! ## Escapes -/

theorem HexDigit.hexDigit? {d : Nat} {c : Char} (h : HexDigit d c) :
    c.toNat < 128 ∧ Json.hexDigit? (byte c) = some d := by
  have hsmall : ∀ d, (hd : d < "0123456789abcdef".toList.length) →
      "0123456789abcdef".toList[d].toNat < 128 ∧
        Json.hexDigit? (byte "0123456789abcdef".toList[d]) = some d := by decide
  have hcapital : ∀ d, (hd : d < "0123456789ABCDEF".toList.length) →
      "0123456789ABCDEF".toList[d].toNat < 128 ∧
        Json.hexDigit? (byte "0123456789ABCDEF".toList[d]) = some d := by decide
  rcases h with h | h
  · obtain ⟨hd, rfl⟩ := List.getElem?_eq_some_iff.1 h
    exact hsmall d hd
  · obtain ⟨hd, rfl⟩ := List.getElem?_eq_some_iff.1 h
    exact hcapital d hd

theorem FourHex.readHex {n : Nat} {ds : List Char} (h : FourHex n ds) (more : Bytes) :
    Json.readHex (ofChars ds ++ more) = .ok (n, more) := by
  cases h with
  | @digits d₁ d₂ d₃ d₄ c₁ c₂ c₃ c₄ h₁ h₂ h₃ h₄ =>
    obtain ⟨ha₁, hv₁⟩ := h₁.hexDigit?
    obtain ⟨ha₂, hv₂⟩ := h₂.hexDigit?
    obtain ⟨ha₃, hv₃⟩ := h₃.hexDigit?
    obtain ⟨ha₄, hv₄⟩ := h₄.hexDigit?
    have hvalue : hexValue? (byte c₁) (byte c₂) (byte c₃) (byte c₄) =
        some (4096 * d₁ + 256 * d₂ + 16 * d₃ + d₄) := by
      have hsum : (d₁ * 16 + d₂) * 256 + d₃ * 16 + d₄ = 4096 * d₁ + 256 * d₂ + 16 * d₃ + d₄ := by
        omega
      rw [← hsum, hexValue?, hv₁, hv₂, hv₃, hv₄]
      rfl
    rw [ofChars_cons_ascii ha₁, ofChars_cons_ascii ha₂, ofChars_cons_ascii ha₃,
      ofChars_cons_ascii ha₄, Bytes.ofChars_nil]
    simp only [List.cons_append, List.nil_append, Json.readHex, hvalue]

/-- A letter behind a backslash is read as the character it stands for. -/
theorem simpleEscape?_letter {c l : Char} (h : (c, l) ∈ letterEscapes) :
    c.toNat < 128 ∧ l.toNat < 128 ∧ byte l ≠ byte 'u' ∧ simpleEscape? (byte l) = some (byte c) := by
  have hall : ∀ p ∈ letterEscapes, p.1.toNat < 128 ∧ p.2.toNat < 128 ∧ byte p.2 ≠ byte 'u' ∧
      simpleEscape? (byte p.2) = some (byte p.1) := by decide
  exact hall _ h

/-! ## Reading -/

theorem readContent_quote (rest : Bytes) : readContent (byte '"' :: rest) = .ok ([], rest) := by
  rw [readContent, if_pos rfl]

theorem readContent_escape {bs escape : Bytes} (hescape : readEscape bs = .ok (escape, more))
    (hmore : readContent more = .ok (content, rest)) :
    readContent (byte '\\' :: bs) = .ok (escape ++ content, rest) := by
  rw [readContent, if_neg (by decide), if_pos rfl]
  split
  next h => rw [hescape] at h; cases h
  next h =>
    rw [hescape] at h
    cases h
    rw [hmore]
    rfl

theorem readContent_plain {bs : Bytes}
    (hplain : ∀ b ∈ bs, 0x20 ≤ b.toNat ∧ b ≠ byte '"' ∧ b ≠ byte '\\')
    (hmore : readContent more = .ok (content, rest)) :
    readContent (bs ++ more) = .ok (bs ++ content, rest) := by
  induction bs with
  | nil => exact hmore
  | cons b bs ih =>
    obtain ⟨⟨hlow, hquote, hslash⟩, hplain⟩ := List.forall_mem_cons.1 hplain
    rw [List.cons_append, readContent, if_neg hquote, if_neg hslash, if_neg (by omega),
      ih hplain]
    rfl

/-- The bytes of a character that needs no escape are none that end a string or stand for others. -/
theorem utf8EncodeChar_plain {c : Char} (hc : Plain c) {b : UInt8}
    (hb : b ∈ String.utf8EncodeChar c) : 0x20 ≤ b.toNat ∧ b ≠ byte '"' ∧ b ≠ byte '\\' := by
  obtain ⟨hlow, hquote, hslash⟩ := hc
  rcases Bytes.of_mem_utf8EncodeChar hb with ⟨hascii, rfl⟩ | hhigh
  · have hbyte : ∀ d : Char, d.toNat < 128 → byte c = byte d → c = d := by
      intro d hd heq
      have htoNat : c.toNat % 256 = d.toNat % 256 := by
        simpa [byte] using congrArg UInt8.toNat heq
      exact Char.toNat_inj.1 (by omega)
    refine ⟨by simp [byte]; omega, fun h => hquote (hbyte _ (by decide) h),
      fun h => hslash (hbyte _ (by decide) h)⟩
  · have hne : ∀ d : Char, d.toNat < 128 → b ≠ byte d := by
      rintro d hd rfl
      simp [byte] at hhigh
      omega
    exact ⟨by omega, hne _ (by decide), hne _ (by decide)⟩

/-- A character is read as itself, however it is written. -/
theorem readContent_charSpelled {c : Char} {raw : List Char} (h : CharSpelled c raw)
    (hmore : readContent more = .ok (content, rest)) :
    readContent (ofChars raw ++ more) = .ok (String.utf8EncodeChar c ++ content, rest) := by
  have hnumber : ∀ {ds : List Char}, ofChars ('\\' :: 'u' :: ds) =
      byte '\\' :: byte 'u' :: ofChars ds := fun {ds} => by
    rw [ofChars_cons_ascii (by decide), ofChars_cons_ascii (by decide)]
  cases h with
  | plain h =>
    rw [ofChars_cons, Bytes.ofChars_nil, List.append_nil]
    exact readContent_plain (fun b hb => utf8EncodeChar_plain h hb) hmore
  | letter h =>
    obtain ⟨hc, hl, hu, hescape⟩ := simpleEscape?_letter h
    rw [ofChars_cons_ascii (by decide), ofChars_cons_ascii hl, Bytes.utf8EncodeChar_ascii hc,
      Bytes.ofChars_nil, List.cons_append, List.cons_append, List.nil_append]
    refine readContent_escape ?_ hmore
    simp only [readEscape, if_neg hu, hescape]
  | number h =>
    -- the number of a character is none of a surrogate
    have hvalid : c.toNat < 0xD800 ∨ 0xDFFF < c.toNat := c.valid.imp_right fun h => h.1
    have htrailing : isTrailing c.toNat = false := by simp [isTrailing]; omega
    have hleading : isLeading c.toNat = false := by simp [isLeading]; omega
    rw [hnumber, List.cons_append, List.cons_append]
    refine readContent_escape ?_ hmore
    simp only [readEscape, if_true, readCodePoint, h.readHex, htrailing, hleading,
      Bool.false_eq_true, if_false, Except.map, Char.ofNat_toNat]
  | @surrogates m n ds es hm hn hleading htrailing hc =>
    have hm' : isTrailing m = false := by simp [isTrailing]; omega
    have hm'' : isLeading m = true := by simp [isLeading]; omega
    have hn' : isTrailing n = true := by simp [isTrailing]; omega
    have hpair : pairValue m n = c.toNat := by rw [pairValue]; omega
    rw [ofChars_append, hnumber, hnumber, List.append_assoc, List.cons_append, List.cons_append,
      List.cons_append, List.cons_append]
    refine readContent_escape ?_ hmore
    simp only [readEscape, if_true, readCodePoint, hm.readHex,
      hm', hm'', Bool.false_eq_true, if_false, readTrailing, hn.readHex, hn', hpair, Except.map,
      Char.ofNat_toNat]

/-- A string is read as its text, from behind the quote before it. -/
theorem readString_spelled {s : String} {raw : List Char} (h : Spelled s.toList raw)
    (rest : Bytes) : readString (ofChars raw ++ byte '"' :: rest) = .ok (s, rest) := by
  have hcontent : ∀ {cs raw}, Spelled cs raw →
      readContent (ofChars raw ++ byte '"' :: rest) = .ok (ofChars cs, rest) := by
    intro cs raw h
    induction h with
    | nil => exact readContent_quote rest
    | cons h hs ih =>
      rw [ofChars_append, List.append_assoc, ofChars_cons]
      exact readContent_charSpelled h ih
  rw [readString, hcontent h]
  simp only [Bytes.toText?_ofChars]

/-! ## Skipping -/

theorem skipContent_plain {bs : Bytes}
    (hplain : ∀ b ∈ bs, 0x20 ≤ b.toNat ∧ b ≠ byte '"' ∧ b ≠ byte '\\') :
    skipContent (bs ++ more) = skipContent more := by
  induction bs with
  | nil => rfl
  | cons b bs ih =>
    obtain ⟨⟨hlow, hquote, hslash⟩, hplain⟩ := List.forall_mem_cons.1 hplain
    rw [List.cons_append, skipContent, if_neg hquote, if_neg hslash, if_neg (by omega), ih hplain]

theorem skipContent_escape {bs : Bytes} (hescape : skipEscape bs = .ok more) :
    skipContent (byte '\\' :: bs) = skipContent more := by
  rw [skipContent, if_neg (by decide), if_pos rfl]
  split
  next h => rw [hescape] at h; cases h
  next h => rw [hescape] at h; cases h; rfl

theorem skipContent_piece {cs : List Char} (h : Piece cs) :
    skipContent (ofChars cs ++ more) = skipContent more := by
  cases h with
  | plain h =>
    rw [ofChars_cons, Bytes.ofChars_nil, List.append_nil]
    exact skipContent_plain fun b hb => utf8EncodeChar_plain h hb
  | letter h =>
    obtain ⟨-, hl, hu, hescape⟩ := simpleEscape?_letter h
    rw [ofChars_cons_ascii (by decide), ofChars_cons_ascii hl, Bytes.ofChars_nil, List.cons_append,
      List.cons_append, List.nil_append]
    refine skipContent_escape ?_
    simp only [skipEscape, if_neg hu, hescape,
      Option.isSome_some, if_true]
  | number h =>
    rw [ofChars_cons_ascii (by decide), ofChars_cons_ascii (by decide), List.cons_append,
      List.cons_append]
    refine skipContent_escape ?_
    simp only [skipEscape, if_true, h.readHex, Except.map]

/-- What stands in a string is skipped up to the closing quote. -/
theorem skipContent_content {cs : List Char} (h : Content cs) (rest : Bytes) :
    skipContent (ofChars cs ++ byte '"' :: rest) = .ok rest := by
  induction h with
  | nil => rw [Bytes.ofChars_nil, List.nil_append, skipContent, if_pos rfl]
  | cons h hs ih => rw [ofChars_append, List.append_assoc, skipContent_piece h, ih]

end Json

end EventPipeline
