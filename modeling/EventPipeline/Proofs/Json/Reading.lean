import EventPipeline.Marshaler
import EventPipeline.Proofs.Json.Documents
/-!
# Lines of JSON can be read back

What the writer of documents writes is one of the texts that stand for an event: strings are a
spelling of their texts (`string_spelled`), objects have their members in order and no white space
(`object_written`), and a written event is a document that gives every member
(`event_document`). No written character is below the blank, so a line feed stands at the end of a
record and nowhere else, and the lines of an output are its records.
-/
namespace EventPipeline

namespace Json

open Bytes (ofChars ofChars_append)

variable {rest : Bytes}

/-! ## Strings -/

/-- A character inside a string is written as an escape or as it is. -/
theorem stringChar_spelled (c : Char) : CharSpelled c (stringChar c) := by
  by_cases hshort : c = '"' ∨ c = '\\' ∨ c = '\x08' ∨ c = '\x0c' ∨ c = '\n' ∨ c = '\r' ∨ c = '\t'
  · rcases hshort with rfl | rfl | rfl | rfl | rfl | rfl | rfl <;> exact .letter (by decide)
  obtain ⟨hquote, hslash, hletter⟩ : c ≠ '"' ∧ c ≠ '\\' ∧
      ¬(c = '\x08' ∨ c = '\x0c' ∨ c = '\n' ∨ c = '\r' ∨ c = '\t') := by
    simpa only [not_or] using hshort
  simp only [not_or] at hletter
  by_cases hlow : c.toNat < 0x20
  · have hdigits : ∀ n < 0x20, HexDigit (n / 16) (hexChar (n / 16)) ∧
        HexDigit (n % 16) (hexChar (n % 16)) := by decide
    obtain ⟨hhigh, hlow'⟩ := hdigits _ hlow
    have hnumber : FourHex c.toNat ['0', '0', hexChar (c.toNat / 16), hexChar (c.toNat % 16)] := by
      have hsum : 4096 * 0 + 256 * 0 + 16 * (c.toNat / 16) + c.toNat % 16 = c.toNat := by omega
      have hzero : HexDigit 0 '0' := .inl rfl
      have hfour := FourHex.digits hzero hzero hhigh hlow'
      rwa [hsum] at hfour
    simpa [stringChar, hquote, hslash, hletter, hlow] using CharSpelled.number hnumber
  · have hplain : CharSpelled c [c] := .plain ⟨by omega, hquote, hslash⟩
    simpa [stringChar, hquote, hslash, hletter, hlow] using hplain

theorem string_spelled (cs : List Char) : Spelled cs (cs.flatMap stringChar) := by
  induction cs with
  | nil => exact .nil
  | cons c cs ih => exact .cons (stringChar_spelled c) ih

/-! ## Objects -/

theorem member_empty (name : String) (value : List Char) :
    string name ++ ':' :: value = Gaps.empty.member (name.toList.flatMap stringChar) value := by
  simp [string, Gaps.member, Gaps.behindKey, Gaps.empty, Blank.empty]

theorem listed_commaSeparated {α : Type} {Written : α → List Char → Prop} {f : α → List Char}
    (x : α) (xs : List α) (h : ∀ y ∈ x :: xs, Written y (f y)) :
    Listed Written (x :: xs) (commaSeparated ((x :: xs).map f)) := by
  induction xs generalizing x with
  | nil => exact .last (h x List.mem_cons_self)
  | cons y ys ih =>
    obtain ⟨hx, hrest⟩ := List.forall_mem_cons.1 h
    exact .cons hx (ih y hrest)

theorem listed_map {α β : Type} {Written : β → List Char → Prop} (item : α → β)
    {xs : List α} {cs : List Char} (h : Listed (fun x => Written (item x)) xs cs) :
    Listed Written (xs.map item) cs := by
  induction h with
  | last h => exact .last h
  | cons h hs ih => exact .cons h ih

/-- Members that are written one by one make up a written object. -/
theorem object_written {α β : Type} {Written : β → List Char → Prop} (xs : List α) (item : α → β)
    (member : α → String × List Char)
    (h : ∀ x ∈ xs, Written (item x) (string (member x).1 ++ ':' :: (member x).2)) :
    Object Written (xs.map item) (object (xs.map member)) := by
  have hmembers : object (xs.map member) = '{' :: (commaSeparated
      (xs.map fun x => string (member x).1 ++ ':' :: (member x).2) ++ ['}']) := by
    rw [object, List.map_map]
    rfl
  rw [hmembers]
  cases xs with
  | nil => exact .empty .empty
  | cons x xs => exact .members (listed_map item (listed_commaSeparated x xs h))

/-- A written value stands for the value, whatever its kind. -/
theorem value_valued {k : Kind} (v : k.Value) : Valued k v (value k v) := by
  cases k with
  | text => exact ⟨_, string_spelled _, rfl⟩
  | int32 => rfl
  | int64 => rfl
  | properties =>
    have hobject : Object EntryWritten (v.entries.map id) (properties v) :=
      object_written v.entries id _ fun entry _ =>
        ⟨.empty, _, _, string_spelled _, string_spelled _, member_empty _ _⟩
    rw [List.map_id] at hobject
    exact ⟨v.entries, .refl _, hobject⟩

/-! ## Events -/

/-- A written event gives every member, with any white space behind it. -/
theorem event_document (e : Event) (b : Blank) :
    Document (Item.Written e) (Member.all.map .known) (event e ++ b.chars) :=
  .object .empty b <| object_written Member.all Item.known _ fun m _ =>
    ⟨.empty, _, _, string_spelled _, value_valued (e.value m), member_empty _ _⟩

/-- Bytes that are all skipped are white space. -/
theorem exists_blank {bs : Bytes} (h : skipBlank bs = []) : ∃ b : Blank, ofChars b.chars = bs := by
  induction bs with
  | nil => exact ⟨.empty, rfl⟩
  | cons x bs ih =>
    rw [skipBlank, List.dropWhile_cons] at h
    split at h
    next hx =>
      obtain ⟨b, hb⟩ := ih h
      have hblank : ∃ c ∈ [' ', '\n', '\t', '\r'], ofChars [c] = [x] := by
        simp only [isBlank, Bool.or_eq_true, decide_eq_true_eq] at hx
        rcases hx with ((rfl | rfl) | rfl) | rfl
        · exact ⟨' ', by decide, rfl⟩
        · exact ⟨'\n', by decide, rfl⟩
        · exact ⟨'\t', by decide, rfl⟩
        · exact ⟨'\r', by decide, rfl⟩
      obtain ⟨c, hc, hx⟩ := hblank
      refine ⟨⟨c :: b.chars, List.forall_mem_cons.2 ⟨hc, b.blank⟩⟩, ?_⟩
      show ofChars ([c] ++ b.chars) = _
      rw [ofChars_append, hx, hb]
      rfl
    · cases h

/-- A written event is read as it was, whatever blanks come after it. -/
theorem decode_write (e : Event) (hblank : skipBlank rest = []) :
    decode (ofChars (event e) ++ rest) = .ok e := by
  obtain ⟨b, rfl⟩ := exists_blank hblank
  have honce : (Item.members (Member.all.map .known)).Nodup := by decide +kernel
  have hall : ∀ m, Item.known m ∈ Member.all.map Item.known := fun m =>
    List.mem_map_of_mem (Member.mem_all m)
  rw [← ofChars_append, decode_document (event_document e b) honce]
  simp only [hall, if_true]

/-! ## Lines -/

/-- None of the characters is a control character. -/
def Clean (cs : List Char) : Prop := ∀ c ∈ cs, 0x20 ≤ c.toNat

theorem Clean.nil : Clean [] := fun _ h => absurd h List.not_mem_nil

theorem Clean.cons {c : Char} {cs : List Char} (hc : 0x20 ≤ c.toNat) (h : Clean cs) :
    Clean (c :: cs) :=
  List.forall_mem_cons.2 ⟨hc, h⟩

theorem Clean.append {cs ds : List Char} (h : Clean cs) (h' : Clean ds) : Clean (cs ++ ds) := by
  intro c hc
  rcases List.mem_append.1 hc with hc | hc
  · exact h c hc
  · exact h' c hc

theorem charSpelled_clean {c : Char} {raw : List Char} (h : CharSpelled c raw) : Clean raw := by
  have hdigit : ∀ {d : Nat} {c : Char}, HexDigit d c → 0x20 ≤ c.toNat := by
    have hall : ∀ c ∈ "0123456789abcdef".toList ++ "0123456789ABCDEF".toList, 0x20 ≤ c.toNat :=
      List.all_iff_forall_prop.1 (by decide)
    intro d c h
    rcases h with h | h
    · exact hall c (List.mem_append_left _ (List.mem_of_getElem? h))
    · exact hall c (List.mem_append_right _ (List.mem_of_getElem? h))
  have hhex : ∀ {n : Nat} {ds : List Char}, FourHex n ds → Clean ds := by
    rintro _ _ ⟨h₁, h₂, h₃, h₄⟩
    exact .cons (hdigit h₁) (.cons (hdigit h₂) (.cons (hdigit h₃) (.cons (hdigit h₄) .nil)))
  cases h with
  | plain h => exact .cons h.1 .nil
  | letter h =>
    have hall : ∀ p ∈ letterEscapes, 0x20 ≤ p.2.toNat := by decide
    exact .cons (by decide) (.cons (hall _ h) .nil)
  | number h => exact .cons (by decide) (.cons (by decide) (hhex h))
  | surrogates hm hn =>
    exact .append (.cons (by decide) (.cons (by decide) (hhex hm)))
      (.cons (by decide) (.cons (by decide) (hhex hn)))

theorem string_clean (s : String) : Clean (string s) := by
  have hchars : Clean (s.toList.flatMap stringChar) := by
    intro c hc
    obtain ⟨d, -, hd⟩ := List.mem_flatMap.1 hc
    exact charSpelled_clean (stringChar_spelled d) c hd
  exact .append (.cons (by decide) hchars) (.cons (by decide) .nil)

theorem commaSeparated_clean {ms : List (List Char)} (h : ∀ m ∈ ms, Clean m) :
    Clean (commaSeparated ms) := by
  fun_induction commaSeparated ms with
  | case1 => exact .nil
  | case2 m => exact h m List.mem_cons_self
  | case3 m ms _ ih =>
    obtain ⟨hm, hms⟩ := List.forall_mem_cons.1 h
    exact hm.append (.cons (by decide) (ih hms))

theorem object_clean {members : List (String × List Char)} (h : ∀ m ∈ members, Clean m.2) :
    Clean (object members) := by
  have hmembers : Clean (commaSeparated (members.map (fun m => string m.1 ++ ':' :: m.2))) := by
    refine commaSeparated_clean fun m hm => ?_
    obtain ⟨n, hn, rfl⟩ := List.mem_map.1 hm
    exact (string_clean n.1).append (.cons (by decide) (h n hn))
  exact .append (.cons (by decide) hmembers) (.cons (by decide) .nil)

theorem intChars_clean (i : Int) : Clean (Decimal.intChars i) := by
  have hnat : ∀ n, Clean (Decimal.natChars n) := by
    intro n c hc
    have hdigit := Decimal.isDigit_of_mem_natChars hc
    simp only [Char.isDigit, Bool.and_eq_true, decide_eq_true_eq] at hdigit
    exact Nat.le_trans (by decide) (UInt32.le_iff_toNat_le.1 hdigit.1)
  cases i with
  | ofNat n => exact hnat n
  | negSucc n => exact .cons (by decide) (hnat _)

theorem value_clean {k : Kind} (v : k.Value) : Clean (value k v) := by
  cases k with
  | text => exact string_clean v
  | int32 => exact intChars_clean _
  | int64 => exact intChars_clean _
  | properties =>
    refine object_clean fun m hm => ?_
    obtain ⟨entry, -, rfl⟩ := List.mem_map.1 hm
    exact string_clean entry.2

/-- No character of a written event is a control character. -/
theorem event_clean (e : Event) : Clean (event e) := by
  refine object_clean fun m hm => ?_
  obtain ⟨n, -, rfl⟩ := List.mem_map.1 hm
  exact value_clean (e.value n)

theorem Clean.lineFeed_not_mem {cs : List Char} (h : Clean cs) : byte '\n' ∉ ofChars cs := by
  intro hmem
  obtain ⟨c, hc, hb⟩ := List.mem_flatMap.1 hmem
  have hlow := h c hc
  rcases Bytes.of_mem_utf8EncodeChar hb with ⟨hascii, heq⟩ | hhigh
  · have htoNat : 10 = c.toNat % 256 := by simpa [byte] using congrArg UInt8.toNat heq
    omega
  · exact absurd hhigh (by decide)

end Json

/-- Pieces that hold no separator, each with one behind it, are found by cutting there; behind the
last one nothing is left. -/
theorem splitOn_ended {sep : UInt8} {pieces : List Bytes} (h : ∀ p ∈ pieces, sep ∉ p) :
    (pieces.flatMap (· ++ [sep])).splitOn sep = pieces ++ [[]] := by
  induction pieces with
  | nil => rfl
  | cons p pieces ih =>
    obtain ⟨hp, hpieces⟩ := List.forall_mem_cons.1 h
    rw [List.flatMap_cons, List.append_assoc, List.singleton_append,
      List.splitOn_append_cons_self_of_not_mem hp, ih hpieces, List.cons_append]

namespace Marshaler

open Json (byte)

theorem record_json (e : Event) :
    json.record e = Bytes.ofChars (Json.event e) ++ [byte '\n'] := by
  rw [record, chars, Bytes.ofText_ofList, Bytes.ofChars_append]
  rfl

/-- The line of a record is read back as its event, with blanks after it or without. -/
theorem decode_line (e : Event) (rest : Bytes) (hblank : Json.skipBlank rest = []) :
    Decoder.json.decode (Bytes.ofChars (Json.event e) ++ rest) = .ok e := by
  have hnonempty : Bytes.ofChars (Json.event e) ++ rest ≠ [] := by
    rw [Json.event, Json.object, List.cons_append, Bytes.ofChars_cons_ascii (by decide)]
    exact List.cons_ne_nil _ _
  rw [Decoder.decode, if_neg hnonempty]
  exact congrArg (Except.mapError DecodeError.json) (Json.decode_write e hblank)

/-- An output of JSON records is cut at its line feeds into one line for each event, in order, and
each line is read back as its event, with its line feed and without. -/
theorem lines_read_back (events : List Event) : ∃ lines : List Bytes,
    (events.flatMap json.record).splitOn (byte '\n') = lines ++ [[]] ∧
    events.map json.record = lines.map (· ++ [byte '\n']) ∧
    (∀ line ∈ lines, byte '\n' ∉ line) ∧
    lines.map Decoder.json.decode = events.map .ok ∧
    (lines.map (· ++ [byte '\n'])).map Decoder.json.decode = events.map .ok := by
  have hclean : ∀ line ∈ events.map (fun e => Bytes.ofChars (Json.event e)), byte '\n' ∉ line := by
    intro line hline
    obtain ⟨e, -, rfl⟩ := List.mem_map.1 hline
    exact (Json.event_clean e).lineFeed_not_mem
  have hrecords : events.flatMap json.record =
      (events.map (fun e => Bytes.ofChars (Json.event e))).flatMap (· ++ [byte '\n']) := by
    rw [List.flatMap_map]
    exact congrArg (events.flatMap ·) (funext record_json)
  refine ⟨events.map (fun e => Bytes.ofChars (Json.event e)), ?_, ?_, hclean, ?_, ?_⟩
  · rw [hrecords, splitOn_ended hclean]
  · rw [List.map_map]
    exact List.map_congr_left fun e _ => record_json e
  · rw [List.map_map]
    refine List.map_congr_left fun e _ => ?_
    have hread := decode_line e [] rfl
    rwa [List.append_nil] at hread
  · rw [List.map_map, List.map_map]
    exact List.map_congr_left fun e _ => decode_line e _ rfl

end Marshaler

end EventPipeline
