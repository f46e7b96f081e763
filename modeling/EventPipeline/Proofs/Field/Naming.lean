import EventPipeline.Marshaler
/-!
# Names of fields and what they show

A column is named by hand beside the members of an event. `ofPlainName?_name` checks the table of
names against the members: each one's own name leads to it. Names that differ only in the case of
their letters and in `_` and `-` have one key (`Respelled.key_eq`), so any spelling does, and
what a column shows is what the JSON format has for that member (`shown_value`).
-/
namespace EventPipeline

namespace Text

/-- A character that is no letter is the lowercase form of itself only. -/
theorem toLower_eq_iff {c d : Char} (hd : ¬('A' ≤ d ∧ d ≤ 'Z')) (hd' : ¬('a' ≤ d ∧ d ≤ 'z')) :
    c.toLower = d ↔ c = d := by
  by_cases hc : 'A' ≤ c ∧ c ≤ 'Z'
  · -- a capital letter and its small form are both letters, which `d` is not
    have hlow : 65 ≤ c.toNat := UInt32.le_iff_toNat_le.1 hc.1
    have hhigh : c.toNat ≤ 90 := UInt32.le_iff_toNat_le.1 hc.2
    have hsum : (c.val + ('a'.val - 'A'.val)).toNat = c.toNat + 32 := by
      show (c.toNat + 32) % 4294967296 = _
      omega
    have hlower : c.toLower.val = c.val + ('a'.val - 'A'.val) := congrArg Char.val (dif_pos hc)
    constructor
    · rintro rfl
      refine absurd ⟨UInt32.le_iff_toNat_le.2 ?_, UInt32.le_iff_toNat_le.2 ?_⟩ hd'
      · rw [hlower, hsum]
        show 97 ≤ _
        omega
      · rw [hlower, hsum]
        show _ ≤ 122
        omega
    · rintro rfl
      exact absurd hc hd
  · have hsame : c.toLower = c := dif_neg hc
    rw [hsame]

/-- The lowercase form depends on the lowercase form within ASCII. -/
theorem lower_eq_of_toLower {c d : Char} (h : c.toLower = d.toLower) : lower c = lower d := by
  have hkelvin : ∀ c : Char, c.toLower = '\u212A' ↔ c = '\u212A' := fun c =>
    toLower_eq_iff (by decide) (by decide)
  have hiff : c = '\u212A' ↔ d = '\u212A' := by rw [← hkelvin c, ← hkelvin d, h]
  by_cases hc : c = '\u212A'
  · rw [hc, hiff.1 hc]
  · rw [lower, lower, if_neg hc, if_neg fun hd => hc (hiff.2 hd), h]

end Text

namespace Field

/-- The second name is the first in another spelling: letters of ASCII may change their case, and
`_` and `-` may be put in and left out anywhere. -/
inductive Respelled : List Char → List Char → Prop
  | nil : Respelled [] []
  | keep {c d : Char} {cs ds : List Char} (hcase : c.toLower = d.toLower) (h : Respelled cs ds) :
      Respelled (c :: cs) (d :: ds)
  | putIn {d : Char} {cs ds : List Char} (hd : d = '_' ∨ d = '-') (h : Respelled cs ds) :
      Respelled cs (d :: ds)
  | leaveOut {c : Char} {cs ds : List Char} (hc : c = '_' ∨ c = '-') (h : Respelled cs ds) :
      Respelled (c :: cs) ds

namespace Respelled

variable {cs ds : List Char}

theorem key_eq (h : Respelled cs ds) : key cs = key ds := by
  have hskip : ∀ {c : Char} (hc : c = '_' ∨ c = '-') (cs : List Char), key (c :: cs) = key cs := by
    rintro c (rfl | rfl) cs <;> rfl
  induction h with
  | nil => rfl
  | @keep c d cs ds hcase h ih =>
    have hiff : ∀ {x : Char}, ¬('A' ≤ x ∧ x ≤ 'Z') → ¬('a' ≤ x ∧ x ≤ 'z') → (c = x ↔ d = x) := by
      intro x hx hx'
      rw [← Text.toLower_eq_iff hx hx', hcase, Text.toLower_eq_iff hx hx']
    have hlow : c = '_' ↔ d = '_' := hiff (by decide) (by decide)
    have hdash : c = '-' ↔ d = '-' := hiff (by decide) (by decide)
    by_cases hc : c = '_' ∨ c = '-'
    · rw [hskip hc, hskip (hc.imp hlow.1 hdash.1), ih]
    · have hd : ¬(d = '_' ∨ d = '-') := fun hd => hc (hd.imp hlow.2 hdash.2)
      have hcons : ∀ {c : Char} (hc : ¬(c = '_' ∨ c = '-')) (cs : List Char),
          key (c :: cs) = Text.lower c :: key cs := by
        intro c hc cs
        rw [key, List.filter_cons_of_pos (by simpa using hc)]
        rfl
      rw [hcons hc, hcons hd, Text.lower_eq_of_toLower hcase, ih]
  | putIn hd h ih => rw [ih, hskip hd]
  | leaveOut hc h ih => rw [hskip hc, ih]

/-- Another spelling brings in no dot. -/
theorem dot_not_mem (h : Respelled cs ds) (hdot : '.' ∉ cs) : '.' ∉ ds := by
  induction h with
  | nil => exact hdot
  | keep hcase h ih =>
    obtain ⟨hc, hrest⟩ := List.ne_and_not_mem_of_not_mem_cons hdot
    rw [List.mem_cons, not_or]
    refine ⟨fun hd => hc ?_, ih hrest⟩
    rw [← hd] at hcase
    exact ((Text.toLower_eq_iff (by decide) (by decide)).1 hcase).symm
  | putIn hd h ih =>
    rw [List.mem_cons, not_or]
    refine ⟨?_, ih hdot⟩
    rcases hd with rfl | rfl <;> decide
  | leaveOut hc h ih => exact ih (List.ne_and_not_mem_of_not_mem_cons hdot).2

end Respelled

/-! ## Names of members -/

/-- The table agrees with the members: the name of each leads to it. -/
theorem ofPlainName?_name (m : Member) : ofPlainName? m.name.toList = some (.member m) := by
  have hall : ∀ m ∈ Member.all, ofPlainName? m.name.toList = some (.member m) := by decide +kernel
  exact hall m (Member.mem_all m)

theorem dot_not_mem_name (m : Member) : '.' ∉ m.name.toList := by
  have hall : ∀ m ∈ Member.all, '.' ∉ m.name.toList := by decide +kernel
  exact hall m (Member.mem_all m)

theorem ofName?_respelled {m : Member} {name : String}
    (h : Respelled m.name.toList name.toList) : ofName? name = some (.member m) := by
  have hdot := h.dot_not_mem (dot_not_mem_name m)
  have hplain : ofPlainName? name.toList = ofPlainName? m.name.toList := by
    rw [ofPlainName?, ofPlainName?, h.key_eq]
  rw [ofName?, Text.splitOnce_of_not_mem hdot]
  exact hplain.trans (ofPlainName?_name m)

theorem ofName?_property {owner key : String}
    (h : Respelled Member.extendInfo.name.toList owner.toList) (hne : key ≠ "")
    (hdot : '.' ∉ key.toList) : ofName? (owner ++ "." ++ key) = some (.property key) := by
  have howner := h.dot_not_mem (dot_not_mem_name .extendInfo)
  have hparts : (owner ++ "." ++ key).toList = owner.toList ++ '.' :: key.toList := by simp
  have hkey : Field.key owner.toList = "extendinfo".toList :=
    h.key_eq.symm.trans (by decide +kernel)
  have hsome : key.toList ≠ [] := by simpa using hne
  rw [ofName?, hparts, Text.splitOnce_append howner]
  simp only [if_neg hdot, hkey, ne_eq, not_true_eq_false, if_false, if_neg hsome,
    String.ofList_toList]

/-! ## What columns show -/

/-- How a value stands in the JSON format and in a column: a text as a string and as it is, a
number in base 10 in both, and properties as an object of strings in both. -/
def Shown : (k : Kind) → k.Value → List Char → List Char → Prop
  | .text, s, rendered, column => rendered = Json.string s ∧ column = s.toList
  | .int32, i, rendered, column =>
    rendered = Decimal.intChars i.toInt ∧ column = Decimal.intChars i.toInt
  | .int64, i, rendered, column =>
    rendered = Decimal.intChars i.toInt ∧ column = Decimal.intChars i.toInt
  | .properties, d, rendered, column =>
    rendered = Json.object (d.entries.map fun a => (a.1, Json.string a.2)) ∧ column = rendered

theorem shown_value (k : Kind) (v : k.Value) : Shown k v (Json.value k v) (plainChars k v) := by
  cases k <;> exact ⟨rfl, rfl⟩

/-- The columns and the JSON format agree on every event. Each member is found under any spelling of
its name, and its column shows what the format has under that name: a text itself, and a number or
the properties as they stand there. A property is found under any spelling of its owner's name, a
dot and its own name, and its column shows the text that the object of properties has under that
name, or nothing. -/
theorem columns_agree (e : Event) : ∃ members : List (String × List Char),
    Marshaler.json.chars e = Json.object members ++ ['\n'] ∧
    (members.map fun a => a.1).Nodup ∧
    (∀ (m : Member) (name : String), Respelled m.name.toList name.toList →
      ∃ f rendered, ofName? name = some f ∧ (m.name, rendered) ∈ members ∧
        Shown m.kind (e.value m) rendered (f.chars e)) ∧
    ∀ owner key : String, Respelled "extend_info".toList owner.toList → key ≠ "" →
      '.' ∉ key.toList →
      ∃ (f : Field) (entries : List (String × String)),
        ofName? (owner ++ "." ++ key) = some f ∧
        ("extend_info", Json.object (entries.map fun a => (a.1, Json.string a.2))) ∈ members ∧
        (entries.map fun a => a.1).Nodup ∧
        (∀ v : String, (key, v) ∈ entries → f.chars e = v.toList) ∧
        ((∀ v : String, (key, v) ∉ entries) → f.chars e = []) := by
  have hmem : ∀ m : Member, (m.name, Json.value m.kind (e.value m)) ∈
      Member.all.map fun m => (m.name, Json.value m.kind (e.value m)) := fun m =>
    List.mem_map.2 ⟨m, Member.mem_all m, rfl⟩
  refine ⟨_, rfl, ?_, fun m name h => ?_, fun owner key h hne hdot => ?_⟩
  · rw [List.map_map]
    show (Member.all.map Member.name).Nodup
    decide +kernel
  · exact ⟨_, _, ofName?_respelled h, hmem m, shown_value _ _⟩
  · have hchars : ∀ o, e.properties.find? key = o →
        (property key).chars e = (o.getD "").toList := by
      intro o ho
      rw [chars, ho]
    refine ⟨_, e.properties.entries, ofName?_property h hne hdot, hmem .extendInfo, ?_, ?_, ?_⟩
    · exact e.properties.nodup_keys
    · intro v hv
      rw [hchars _ (Dict.mem_entries_iff.1 hv)]
      rfl
    · intro hnone
      have hfind : e.properties.find? key = none := by
        cases hv : e.properties.find? key with
        | none => rfl
        | some v => exact absurd (Dict.mem_entries_iff.2 hv) (hnone v)
      rw [hchars _ hfind]
      rfl

/-- An event with a text that has a quote, and with one property. -/
def quotedEvent : Event :=
  (Event.default.set .eventId "a\"b").set .extendInfo (Dict.empty.insert "K_1" "é")

theorem columns_agree_quoted :
    Respelled "event_id".toList "E-vent__ID".toList ∧
      Respelled "extend_info".toList "eXtendInfo-".toList ∧ "K_1" ≠ "" ∧ '.' ∉ "K_1".toList ∧
      ∃ members, Marshaler.json.chars quotedEvent = Json.object members ++ ['\n'] ∧
        (∃ f, ofName? "E-vent__ID" = some f ∧
          ("event_id", Json.string "a\"b") ∈ members ∧ f.chars quotedEvent = "a\"b".toList) ∧
        ∃ (f : Field) (entries : List (String × String)),
          ofName? ("eXtendInfo-" ++ "." ++ "K_1") = some f ∧
          ("extend_info", Json.object (entries.map fun a => (a.1, Json.string a.2))) ∈ members ∧
          ("K_1", "é") ∈ entries ∧ f.chars quotedEvent = "é".toList := by
  have hevent : Respelled "event_id".toList "E-vent__ID".toList := by
    refine .keep rfl (.putIn (.inr rfl) (.keep rfl (.keep rfl (.keep rfl (.keep rfl ?_)))))
    exact .keep rfl (.putIn (.inl rfl) (.keep rfl (.keep rfl .nil)))
  have howner : Respelled "extend_info".toList "eXtendInfo-".toList := by
    refine .keep rfl (.keep rfl (.keep rfl (.keep rfl (.keep rfl (.keep rfl ?_)))))
    refine .leaveOut (.inl rfl) (.keep rfl (.keep rfl (.keep rfl (.keep rfl ?_))))
    exact .putIn (.inr rfl) .nil
  have hne : "K_1" ≠ "" := by decide
  have hdot : '.' ∉ "K_1".toList := by decide
  have hshown : (property "K_1").chars quotedEvent = "é".toList := by decide +kernel
  obtain ⟨members, hline, -, hmember, hproperty⟩ := columns_agree quotedEvent
  obtain ⟨f, rendered, hf, hmem, hrendered, hcolumn⟩ := hmember .eventId _ hevent
  obtain ⟨g, entries, hg, hobject, -, hgiven, hnone⟩ := hproperty _ _ howner hne hdot
  have hkey : g = property "K_1" := Option.some.inj (hg.symm.trans (by decide +kernel))
  have hentry : ("K_1", "é") ∈ entries := by
    refine Decidable.byContradiction fun hnot => ?_
    have hempty := hnone fun v hv => hnot <| by
      have hv' := hgiven v hv
      rw [hkey, hshown] at hv'
      rwa [String.toList_inj.1 hv']
    rw [hkey, hshown] at hempty
    cases hempty
  have hquoted : quotedEvent.value .eventId = "a\"b" := by decide +kernel
  rw [hquoted] at hrendered hcolumn
  exact ⟨hevent, howner, hne, hdot, members, hline, ⟨f, hf, hrendered ▸ hmem, hcolumn⟩,
    g, entries, hg, hobject, hentry, hgiven _ hentry⟩

end Field

end EventPipeline
