import EventPipeline.Decoder
/-!
# Messages can be read back

Each reader of the wire format takes off what the writer put in front of any other bytes:
varints, keys, lengths, texts and properties (`readVarint_write`, `readKey_write`,
`readText_write`, `readProperty_write`). So the records written for some members are read
as edits that give these members their values again (`records_member`), and a message is
read as the event it was written for. Lengths are numbers of 64 bits, so a message that
is longer than any of them cannot be read back.
-/
namespace EventPipeline

namespace Protobuf

variable {rest : Bytes}

/-! ## Varints, keys and lengths -/

/-- A varint of which `i` bytes are read may have as many bits as the rest of 64. -/
theorem readVarintFrom_write {i n : Nat} (hi : i ≤ 9) (hn : Nat.pow 128 i * n < UInt64.size)
    (rest : Bytes) : readVarintFrom i (writeVarint n ++ rest) = .ok (n, rest) := by
  fun_induction writeVarint n generalizing i with
  | case1 n hlt =>
    have hbyte : (UInt8.ofNat n).toNat = n := by simp; omega
    have hroom : ¬(i = 9 ∧ 2 ≤ n) := by
      rintro ⟨rfl, htwo⟩
      have hten : Nat.pow 128 9 = 9223372036854775808 := rfl
      rw [hten, UInt64.size] at hn
      omega
    rw [List.singleton_append, readVarintFrom, hbyte, if_pos hlt, if_neg hroom]
  | case2 n hge ih =>
    have hbyte : (UInt8.ofNat (n % 128 + 128)).toNat = n % 128 + 128 := by simp; omega
    have hmore : i ≠ 9 := by
      rintro rfl
      have hten : Nat.pow 128 9 = 9223372036854775808 := rfl
      rw [hten, UInt64.size] at hn
      omega
    have hnext : Nat.pow 128 (i + 1) * (n / 128) < UInt64.size := by
      have hpow : Nat.pow 128 (i + 1) = Nat.pow 128 i * 128 := rfl
      rw [hpow, Nat.mul_assoc]
      exact Nat.lt_of_le_of_lt (Nat.mul_le_mul_left _ (by omega)) hn
    rw [List.cons_append, readVarintFrom, hbyte, if_neg (by omega), if_neg hmore,
      ih (by omega) hnext]
    have hsum : n % 128 + 128 - 128 + 128 * (n / 128) = n := by omega
    simp only [hsum]

theorem readVarint_write {n : Nat} (hn : n < UInt64.size) (rest : Bytes) :
    readVarint (writeVarint n ++ rest) = .ok (n, rest) :=
  readVarintFrom_write (by omega) (by rw [show Nat.pow 128 0 = 1 from rfl]; omega) rest

theorem writeVarint_ne_nil (n : Nat) : writeVarint n ≠ [] := by
  rw [writeVarint]
  split <;> simp

theorem readKey_write {k : Key} (hpos : k.number ≠ 0) (hk : 8 * k.number + 8 ≤ UInt32.size)
    (rest : Bytes) : readKey (writeKey k ++ rest) = .ok (k, rest) := by
  have hcode : k.wireType.code < 8 := by cases k.wireType <;> decide
  have hlt : 8 * k.number + k.wireType.code < UInt32.size := by omega
  have hsize : UInt32.size ≤ UInt64.size := by decide
  rw [readKey, writeKey, readVarint_write (by omega)]
  have hdiv : (8 * k.number + k.wireType.code) / 8 = k.number := by omega
  have hmod : (8 * k.number + k.wireType.code) % 8 = k.wireType.code := by omega
  simp only [if_neg (show ¬UInt32.size ≤ 8 * k.number + k.wireType.code by omega), hmod, hdiv,
    WireType.ofCode?_code, if_neg hpos]

theorem readDelimited_write {content : Bytes} (hsize : content.length < UInt64.size)
    (rest : Bytes) : readDelimited (writeDelimited content ++ rest) = .ok (content, rest) := by
  rw [readDelimited, writeDelimited, List.append_assoc, readVarint_write hsize]
  simp

/-! ## Texts and properties -/

theorem readText_write {s : String} (hsize : (Bytes.ofText s).length < UInt64.size)
    (rest : Bytes) : readText .lengthDelimited (writeDelimited (Bytes.ofText s) ++ rest) =
      .ok (s, rest) := by
  simp only [readText, expectWireType, if_true, readDelimited_write hsize, Bytes.toText?_ofText]

/-- Within a property, a text under number 1 is its name and one under number 2 its value. -/
theorem readPropertyFields_text {limit number : Nat} {name value s : String} {bs more : Bytes}
    (hkey : readKey bs = .ok (⟨number, .lengthDelimited⟩, more))
    (htext : readText .lengthDelimited more = .ok (s, rest))
    (hnumber : number = 1 ∨ number = 2) (hlimit : limit ≤ rest.length) :
    readPropertyFields limit name value bs =
      if number = 1 then readPropertyFields limit s value rest
      else readPropertyFields limit name s rest := by
  have hlong : ¬bs.length ≤ limit := by
    have hkeyShorter := readKey_length hkey
    have htextShorter := readText_length htext
    omega
  rw [readPropertyFields, if_neg hlong]
  split
  next hk => rw [hkey] at hk; cases hk
  next hk =>
    rw [hkey] at hk
    cases hk
    rcases hnumber with rfl | rfl
    · rw [if_pos rfl, if_pos rfl]
      split
      next ht => rw [htext] at ht; cases ht
      next ht => rw [htext] at ht; cases ht; rfl
    · rw [if_neg (by decide), if_pos rfl, if_neg (by decide)]
      split
      next ht => rw [htext] at ht; cases ht
      next ht => rw [htext] at ht; cases ht; rfl

theorem readPropertyFields_write {limit number : Nat} {name value s : String}
    (hnumber : number = 1 ∨ number = 2) (hsize : (Bytes.ofText s).length < UInt64.size)
    (hlimit : limit ≤ rest.length) :
    readPropertyFields limit name value (writeText number s ++ rest) =
      if number = 1 then readPropertyFields limit s value rest
      else readPropertyFields limit name s rest := by
  refine readPropertyFields_text ?_ (readText_write hsize rest) hnumber hlimit
  have hsmall : 8 * number + 8 ≤ UInt32.size := by rw [UInt32.size]; omega
  rw [writeText, List.append_assoc]
  exact readKey_write (k := ⟨number, .lengthDelimited⟩) (by simp; omega) hsmall _

/-- The bytes of a property, which may leave out its name or its value. -/
def propertyFields (entry : String × String) : Bytes :=
  (if entry.1 = "" then [] else writeText 1 entry.1) ++
    if entry.2 = "" then [] else writeText 2 entry.2

theorem writeText_length (number : Nat) (s : String) :
    (Bytes.ofText s).length ≤ (writeText number s).length := by
  simp [writeText, writeDelimited]
  omega

theorem readPropertyFields_end (name value : String) (rest : Bytes) :
    readPropertyFields rest.length name value rest = .ok ((name, value), rest) := by
  rw [readPropertyFields, if_pos (Nat.le_refl _), if_pos rfl]

theorem readPropertyFields_propertyFields {name value : String}
    (hsize : (propertyFields (name, value)).length < UInt64.size) (rest : Bytes) :
    readPropertyFields rest.length "" "" (propertyFields (name, value) ++ rest) =
      .ok ((name, value), rest) := by
  have hvalue : ∀ n, readPropertyFields rest.length n ""
      ((if value = "" then [] else writeText 2 value) ++ rest) = .ok ((n, value), rest) := by
    intro n
    by_cases hv : value = ""
    · rw [if_pos hv, List.nil_append, readPropertyFields_end, hv]
    · have hlength := writeText_length 2 value
      have hfit : (Bytes.ofText value).length < UInt64.size := by
        simp [propertyFields, hv] at hsize
        omega
      rw [if_neg hv, readPropertyFields_write (.inr rfl) hfit (Nat.le_refl _),
        if_neg (by decide), readPropertyFields_end]
  rw [propertyFields, List.append_assoc]
  by_cases hn : name = ""
  · rw [if_pos hn, List.nil_append, hvalue, hn]
  · have hlength := writeText_length 1 name
    have hfit : (Bytes.ofText name).length < UInt64.size := by
      simp [propertyFields, hn] at hsize
      omega
    rw [if_neg hn, readPropertyFields_write (.inl rfl) hfit (by simp), if_pos rfl, hvalue]

theorem readProperty_write {entry : String × String}
    (hsize : (propertyFields entry).length < UInt64.size) (rest : Bytes) :
    readProperty (writeDelimited (propertyFields entry) ++ rest) = .ok (entry, rest) := by
  rw [readProperty, writeDelimited, List.append_assoc, readVarint_write hsize]
  simp [readPropertyFields_propertyFields hsize]

/-! ## Records -/

/-- The bytes are records that stand for these edits, whatever follows them. -/
def Records (bs : Bytes) (edits : List Edit) : Prop :=
  ∀ rest, readEdits (bs ++ rest) = (readEdits rest).map (edits ++ ·)

theorem Records.nil : Records [] [] := by
  intro rest
  cases hr : readEdits rest <;> simp [hr, Except.map]

theorem Records.append {bs more : Bytes} {edits moreEdits : List Edit} (h : Records bs edits)
    (h' : Records more moreEdits) : Records (bs ++ more) (edits ++ moreEdits) := by
  intro rest
  rw [List.append_assoc, h, h']
  cases readEdits rest <;> simp [Except.map]

theorem Records.flatMap {α : Type} {f : α → Bytes} {g : α → List Edit} {l : List α}
    (h : ∀ x ∈ l, Records (f x) (g x)) : Records (l.flatMap f) (l.flatMap g) := by
  induction l with
  | nil => exact .nil
  | cons x l ih =>
    rw [List.flatMap_cons, List.flatMap_cons]
    exact (h x List.mem_cons_self).append (ih fun y hy => h y (List.mem_cons_of_mem _ hy))

/-- A record stands for what it is read as. -/
theorem Records.of_read {bs : Bytes} {edit : Option Edit}
    (h : ∀ rest, readRecord (bs ++ rest) = .ok (edit, rest)) : Records bs edit.toList := by
  intro rest
  have hread := h rest
  cases hbytes : bs ++ rest with
  | nil => simp [hbytes, readRecord, readKey, readVarint, readVarintFrom] at hread
  | cons b more =>
    rw [hbytes] at hread
    rw [readEdits]
    split
    next hr => rw [hread] at hr; cases hr
    next hr => rw [hread] at hr; cases hr; rfl

/-- A record with the number of a member stands for what its value is read as. -/
theorem Records.of_member {m : Member} {t : WireType} {value : Bytes} {edit : Edit}
    (h : ∀ rest, readMember m t (value ++ rest) = .ok (edit, rest)) :
    Records (writeKey ⟨m.tag, t⟩ ++ value) [edit] := by
  suffices hread : ∀ rest, readRecord (writeKey ⟨m.tag, t⟩ ++ value ++ rest) =
      .ok (some edit, rest) from .of_read hread
  intro rest
  have hsmall : 8 * m.tag + 8 ≤ UInt32.size := by cases m <;> decide
  have hpos : m.tag ≠ 0 := Nat.succ_ne_zero _
  rw [List.append_assoc, readRecord, readKey_write (k := ⟨m.tag, t⟩) hpos hsmall]
  simp only [Member.ofTag?_tag, h]

/-! ## Members -/

section
variable {m : Member} (t : WireType) (bs : Bytes)

theorem readMember_of_text (hm : m.kind = .text) : readMember m t bs =
    (readText t bs).map (fun p => (.assign m (hm ▸ p.1), p.2)) := by
  unfold readMember
  split
  next => rfl
  all_goals next hother => cases hm.symm.trans hother

theorem readMember_of_int32 (hm : m.kind = .int32) : readMember m t bs =
    (readNumber t bs).map (fun p => (.assign m (hm ▸ Int32.ofInt p.1), p.2)) := by
  unfold readMember
  split
  next hother => cases hm.symm.trans hother
  next => rfl
  all_goals next hother => cases hm.symm.trans hother

theorem readMember_of_int64 (hm : m.kind = .int64) : readMember m t bs =
    (readNumber t bs).map (fun p => (.assign m (hm ▸ Int64.ofInt p.1), p.2)) := by
  unfold readMember
  split
  next hother => cases hm.symm.trans hother
  next hother => cases hm.symm.trans hother
  next => rfl
  next hother => cases hm.symm.trans hother

theorem readMember_of_properties (hm : m.kind = .properties) : readMember m t bs =
    (readProperty bs).map (fun p => (.putProperty p.1.1 p.1.2, p.2)) := by
  unfold readMember
  split
  next hother => cases hm.symm.trans hother
  next hother => cases hm.symm.trans hother
  next hother => cases hm.symm.trans hother
  next => rfl

end

theorem readNumber_write (i : Int) (rest : Bytes) :
    readNumber .varint (writeVarint (i % UInt64.size).toNat ++ rest) =
      .ok ((i % UInt64.size).toNat, rest) := by
  have hsize : (i % UInt64.size).toNat < UInt64.size := by rw [UInt64.size]; omega
  simp only [readNumber, expectWireType, if_true, readVarint_write hsize]

/-- The low 32 bits of the complement of a number of 32 bits are that number. -/
theorem ofInt_complement32 (i : Int32) :
    Int32.ofInt ((i.toInt % UInt64.size).toNat : Nat) = i := by
  have hlow := Int32.le_toInt i
  have hhigh := Int32.toInt_lt i
  apply Int32.toInt_inj.1
  rw [Int32.toInt_ofInt, Int.bmod_def, UInt64.size, Int32.size]
  omega

theorem ofInt_complement64 (i : Int64) :
    Int64.ofInt ((i.toInt % UInt64.size).toNat : Nat) = i := by
  have hlow := Int64.le_toInt i
  have hhigh := Int64.toInt_lt i
  apply Int64.toInt_inj.1
  rw [Int64.toInt_ofInt, Int.bmod_def, UInt64.size, Int64.size]
  omega

theorem length_le_flatMap {α : Type} {f : α → Bytes} {l : List α} {x : α} (h : x ∈ l) :
    (f x).length ≤ (l.flatMap f).length := by
  rw [List.flatMap_def]
  exact (List.sublist_flatten_of_mem (List.mem_map_of_mem h)).length_le

/-- A member without properties is one record, or none if it has its default. -/
theorem records_plain {m : Member} {k : Kind} (hm : m.kind = k) (hk : k ≠ .properties)
    {v : k.Value} (hsize : (writeMember m.tag k v).length < UInt64.size) :
    Records (writeMember m.tag k v) (if v = k.default then [] else [.assign m (hm ▸ v)]) := by
  by_cases hv : v = k.default
  · rw [if_pos hv, hv]
    cases k with
    | properties => exact absurd rfl hk
    | _ => exact .nil
  rw [if_neg hv]
  cases k with
  | properties => exact absurd rfl hk
  | text =>
    have hwrite : writeMember m.tag .text v = writeText m.tag v := if_neg hv
    have hlength := writeText_length m.tag v
    rw [hwrite] at hsize ⊢
    refine .of_member fun rest => ?_
    rw [readMember_of_text _ _ hm, readText_write (by omega), Except.map]
  | int32 =>
    have hwrite : writeMember m.tag .int32 v = writeInteger m.tag (Int32.toInt v) := if_neg hv
    rw [hwrite]
    refine .of_member fun rest => ?_
    rw [readMember_of_int32 _ _ hm, readNumber_write, Except.map, ofInt_complement32]
  | int64 =>
    have hwrite : writeMember m.tag .int64 v = writeInteger m.tag (Int64.toInt v) := if_neg hv
    rw [hwrite]
    refine .of_member fun rest => ?_
    rw [readMember_of_int64 _ _ hm, readNumber_write, Except.map, ofInt_complement64]

/-- Properties are one record each. -/
theorem records_properties {m : Member} (hm : m.kind = .properties) {d : Properties}
    (hsize : (writeMember m.tag .properties d).length < UInt64.size) :
    Records (writeMember m.tag .properties d)
      (d.entries.flatMap (fun p => [.putProperty p.1 p.2])) := by
  refine .flatMap fun p hp => .of_member fun rest => ?_
  have hfit : (propertyFields p).length < UInt64.size := by
    have hone : (propertyFields p).length ≤ (writeProperty m.tag p).length := by
      show _ ≤ (writeKey ⟨m.tag, .lengthDelimited⟩ ++ writeDelimited (propertyFields p)).length
      rw [writeDelimited, List.length_append, List.length_append]
      omega
    have hall := length_le_flatMap (f := writeProperty m.tag) hp
    exact Nat.lt_of_le_of_lt (Nat.le_trans hone hall) hsize
  exact (readMember_of_properties _ _ hm).trans
    (congrArg (Except.map _) (readProperty_write hfit rest))

/-! ## Messages -/

/-- What the records of a member are read as. -/
def editsOf (e : Event) (m : Member) : List Edit :=
  if m = .extendInfo then e.properties.entries.flatMap (fun p => [.putProperty p.1 p.2])
  else if e.value m = m.kind.default then [] else [.assign m (e.value m)]

theorem records_member (e : Event) (m : Member)
    (hsize : (writeMember m.tag m.kind (e.value m)).length < UInt64.size) :
    Records (writeMember m.tag m.kind (e.value m)) (editsOf e m) := by
  rw [editsOf]
  by_cases hm : m = .extendInfo
  · subst hm
    exact records_properties rfl hsize
  · have hkind : m.kind ≠ .properties := by cases m <;> simp_all
    rw [if_neg hm]
    exact records_plain rfl hkind hsize

/-- A message is the records of all members in turn, if its length is one of 64 bits. -/
theorem records_encode {e : Event} (hsize : (encode e).length < UInt64.size) :
    Records (encode e) (Member.all.flatMap (editsOf e)) := by
  refine .flatMap fun m hm => records_member e m ?_
  exact Nat.lt_of_le_of_lt
    (length_le_flatMap (f := fun m => writeMember m.tag m.kind (e.value m)) hm) hsize

/-- Records by themselves are read as the edits they stand for. -/
theorem Records.readEdits {bs : Bytes} {edits : List Edit} (h : Records bs edits) :
    readEdits bs = .ok edits := by
  have hread := h []
  rw [List.append_nil, Protobuf.readEdits] at hread
  rw [hread, Except.map, List.append_nil]

/-! ## Events -/

theorem foldl_putProperty (l : List (String × String)) (d : Event) :
    (l.flatMap (fun p => [Edit.putProperty p.1 p.2])).foldl Event.edit d =
      d.set .extendInfo (l.foldl (fun d p => d.insert p.1 p.2) d.properties) := by
  induction l generalizing d with
  | nil => exact (d.set_value .extendInfo).symm
  | cons p l ih =>
    rw [List.flatMap_cons, List.foldl_append, ih, List.foldl_cons, List.foldl_cons, List.foldl_nil,
      Event.edit, Event.set_set, Event.properties, Event.set_self]

/-- The edits of some members give each of them its value, unless that is the default. -/
theorem value_foldl_edits (e d : Event) (l : List Member) {m : Member} (hm : m ≠ .extendInfo) :
    ((l.flatMap (editsOf e)).foldl Event.edit d).value m =
      if m ∈ l ∧ e.value m ≠ m.kind.default then e.value m else d.value m := by
  induction l generalizing d with
  | nil => simp
  | cons n l ih =>
    rw [List.flatMap_cons, List.foldl_append, ih]
    have hfirst : ((editsOf e n).foldl Event.edit d).value m =
        if m = n ∧ e.value m ≠ m.kind.default then e.value m else d.value m := by
      rw [editsOf]
      by_cases hn : n = .extendInfo
      · subst hn
        rw [if_pos rfl, foldl_putProperty, Event.set_ne _ _ hm, if_neg fun h => hm h.1]
      · rw [if_neg hn]
        by_cases hmn : m = n
        · subst hmn
          by_cases hv : e.value m = m.kind.default <;> simp [hv, Event.edit]
        · by_cases hv : e.value n = n.kind.default <;> simp [hv, hmn, Event.edit, Event.set_ne]
    rw [hfirst]
    by_cases hv : e.value m = m.kind.default
    · simp [hv]
    · by_cases hmn : m = n <;> by_cases hl : m ∈ l <;> simp [hv, hmn, hl]

/-- The edits of all members put the properties over those that were there. -/
theorem find?_foldl_edits (e d : Event) (name : String) :
    ((Member.all.flatMap (editsOf e)).foldl Event.edit d).properties.find? name =
      (e.properties.find? name).or (d.properties.find? name) := by
  have hother : ∀ l : List Member, .extendInfo ∉ l → ∀ d : Event,
      ((l.flatMap (editsOf e)).foldl Event.edit d).properties = d.properties := by
    intro l hl
    induction l with
    | nil => exact fun d => rfl
    | cons n l ih =>
      intro d
      obtain ⟨hn, hl⟩ := List.ne_and_not_mem_of_not_mem_cons hl
      rw [List.flatMap_cons, List.foldl_append, ih hl, editsOf, if_neg hn.symm]
      by_cases hv : e.value n = n.kind.default
      · rw [if_pos hv, List.foldl_nil]
      · rw [if_neg hv]
        exact Event.set_ne d _ hn
  -- the properties are the last member
  have hall : Member.all = Member.all.dropLast ++ [.extendInfo] := rfl
  rw [hall, List.flatMap_append, List.foldl_append, List.flatMap_singleton, editsOf, if_pos rfl,
    foldl_putProperty, Event.properties, Event.set_self, hother _ (by decide)]
  exact Dict.find?_foldl_insert e.properties.increasing d.properties name

theorem ofEdits_editsOf (e : Event) : Event.ofEdits (Member.all.flatMap (editsOf e)) = e := by
  ext m
  by_cases hm : m = .extendInfo
  · subst hm
    refine Dict.ext_find? fun name => ?_
    exact (find?_foldl_edits e .default name).trans Option.or_none
  · rw [Event.ofEdits, value_foldl_edits e _ _ hm]
    by_cases hv : e.value m = m.kind.default
    · rw [if_neg fun h => h.2 hv, hv]
      rfl
    · rw [if_pos ⟨Member.mem_all m, hv⟩]

/-! ## The empty message -/

theorem writeKey_append_ne_nil (k : Key) (value : Bytes) : writeKey k ++ value ≠ [] := by
  intro h
  exact writeVarint_ne_nil _ (List.append_eq_nil_iff.1 h).1

theorem ite_eq_nil_iff {p : Prop} [Decidable p] {bs : Bytes} (h : bs ≠ []) :
    (if p then [] else bs) = [] ↔ p := by
  by_cases hp : p <;> simp [hp, h]

theorem writeMember_eq_nil_iff {number : Nat} {k : Kind} {v : k.Value} :
    writeMember number k v = [] ↔ v = k.default := by
  cases k with
  | text => exact ite_eq_nil_iff (writeKey_append_ne_nil _ _)
  | int32 => exact ite_eq_nil_iff (writeKey_append_ne_nil _ _)
  | int64 => exact ite_eq_nil_iff (writeKey_append_ne_nil _ _)
  | properties =>
    obtain ⟨entries, hincreasing⟩ := v
    cases entries with
    | nil => exact iff_of_true rfl rfl
    | cons p rest =>
      refine iff_of_false (fun h => ?_) (fun h => by cases h)
      exact writeKey_append_ne_nil _ _ (List.append_eq_nil_iff.1 h).1

/-- Only the event whose members all have their default has an empty message. -/
theorem encode_eq_nil_iff {e : Event} : encode e = [] ↔ e = .default := by
  rw [encode, List.flatMap_eq_nil_iff]
  constructor
  · intro h
    ext m
    exact writeMember_eq_nil_iff.1 (h m (Member.mem_all m))
  · rintro rfl m -
    exact writeMember_eq_nil_iff.2 rfl

end Protobuf

namespace Decoder

/-- The decoder of messages gives back the event that a message was written for. The event whose
members all have their default, and it alone, is written as nothing, and nothing holds no event.
The length of the message has to be a number of 64 bits, as that of anything in memory is. -/
theorem decode_encode {e : Event} (hsize : (Protobuf.encode e).length < UInt64.size) :
    protobuf.decode (Protobuf.encode e) = (if e = .default then .error .empty else .ok e) ∧
      (Protobuf.encode e = [] ↔ e = .default) := by
  refine ⟨?_, Protobuf.encode_eq_nil_iff⟩
  by_cases he : e = .default
  · rw [if_pos he, decode, if_pos (Protobuf.encode_eq_nil_iff.2 he)]
  · have hdecode : Protobuf.decode (Protobuf.encode e) = .ok e := by
      rw [Protobuf.decode, (Protobuf.records_encode hsize).readEdits, Except.map,
        Protobuf.ofEdits_editsOf]
    rw [if_neg he, decode, if_neg fun h => he (Protobuf.encode_eq_nil_iff.1 h), hdecode]
    rfl

/-- An event with the least numbers, text beyond ASCII, and properties without a name and without
a value. -/
def extremeEvent : Event :=
  (((Event.default.set .screenWidth (Int32.minValue : Int32)).set .eventTime
    (Int64.minValue : Int64)).set .referer "é\x00😀").set .extendInfo
      (.ofList [("", "b"), ("a", ""), ("", "c"), ("d", "e")])

theorem decode_encode_extreme :
    (Protobuf.encode extremeEvent).length < UInt64.size ∧ extremeEvent ≠ .default ∧
      protobuf.decode (Protobuf.encode extremeEvent) = .ok extremeEvent := by
  have hsize : (Protobuf.encode extremeEvent).length < UInt64.size := by decide +kernel
  have hne : extremeEvent ≠ .default := by decide +kernel
  exact ⟨hsize, hne, (decode_encode hsize).1.trans (if_neg hne)⟩

end Decoder

end EventPipeline
