import EventPipeline.Proofs.Text.Listing
import EventPipeline.Storage.Target
/-!
# Arguments of targets

The arguments of a file are cut at their first three colons, and the name and the limits among them
are trimmed. So a name without a colon, limits in digits and any suffix at all come back as they
were put in (`openFile_limits`, `openFile_aged`, `openFile_suffixed`), and the target behaves as
the rolling file opened with them (`used_rolling`). What is refused is refused before a file is
touched (`tryOpen_error`).
-/
namespace EventPipeline

/-! ## Numbers -/

namespace Text

theorem digit?_digitChar {n : Nat} (h : n < 10) : digit? (Decimal.digitChar n) = some n := by
  have hall : ∀ n < 10, digit? (Decimal.digitChar n) = some n := by decide
  exact hall n h

theorem readDigits_map_digitChar {ds : List Nat} (h : ∀ d ∈ ds, d < 10) (acc : Nat) :
    readDigits acc (ds.map Decimal.digitChar) =
      some (ds.foldl (fun n d => 10 * n + d) acc) := by
  induction ds generalizing acc with
  | nil => rfl
  | cons d rest ih =>
    obtain ⟨hd, hrest⟩ := List.forall_mem_cons.1 h
    rw [List.map_cons, readDigits, digit?_digitChar hd, Option.bind_some, ih hrest, List.foldl_cons]

theorem readDigits_natChars (n : Nat) : readDigits 0 (Decimal.natChars n) = some n := by
  rw [Decimal.natChars, readDigits_map_digitChar fun _ => Decimal.lt_ten_of_mem_digits]
  exact congrArg some (Decimal.ofDigits_digits n)

theorem natural?_natChars {size n : Nat} (h : n < size) :
    natural? size (Decimal.natChars n) = some n := by
  have hread := readDigits_natChars n
  obtain ⟨c, rest, hn⟩ := List.exists_cons_of_ne_nil (Decimal.natChars_ne_nil n)
  have hdigit : c.isDigit := Decimal.isDigit_of_mem_natChars (hn ▸ List.mem_cons_self)
  have hplus : c ≠ '+' := by
    rintro rfl
    exact absurd hdigit (by decide)
  rw [hn] at hread ⊢
  simp only [natural?]
  split
  next hcons => exact absurd (List.cons.inj hcons).1 hplus
  · rw [if_neg (List.cons_ne_nil c rest), hread, Option.filter_some, if_pos (decide_eq_true h)]

theorem isBlank_of_isDigit {c : Char} (h : c.isDigit) : isBlank c = false := by
  have hrange : 48 ≤ c.toNat ∧ c.toNat ≤ 57 := by
    simpa [Char.isDigit, UInt32.le_iff_toNat_le] using h
  simp only [isBlank, Bool.or_eq_false_iff, Bool.and_eq_false_iff, decide_eq_false_iff_not]
  omega

theorem bare_natChars (n : Nat) : Bare (Decimal.natChars n) where
  head _ hc := isBlank_of_isDigit (Decimal.isDigit_of_mem_natChars (List.mem_of_mem_head? hc))
  last _ hc := isBlank_of_isDigit (Decimal.isDigit_of_mem_natChars (List.mem_of_mem_getLast? hc))

/-! ## Cutting at colons -/

theorem splitTimes_of_not_mem {sep : Char} {cs : List Char} (h : sep ∉ cs) (n : Nat) :
    splitTimes sep n cs = [cs] := by
  cases n with
  | zero => rfl
  | succ n => rw [splitTimes, splitOnce_of_not_mem h]

theorem splitTimes_append {sep : Char} {cs : List Char} (h : sep ∉ cs) (n : Nat)
    (ds : List Char) : splitTimes sep (n + 1) (cs ++ sep :: ds) = cs :: splitTimes sep n ds := by
  rw [splitTimes, splitOnce_append h]

end Text

namespace Storage

open Text (Blank)

namespace RollingFile

theorem tryOpen_error {d d' : Disk} {path : String} {maxSize maxAge : Nat}
    {suffix : Option String} {now : Calendar.Moment} {e : OpenError}
    (h : tryOpen d path maxSize maxAge suffix now = (.error e, d')) : d' = d := by
  rw [tryOpen] at h
  split at h
  · exact (congrArg Prod.snd h).symm
  · exact (congrArg Prod.snd h).symm
  · split at h
    · exact (congrArg Prod.snd h).symm
    · exact absurd (congrArg Prod.fst h) (by simp)

/-- The default suffix is what is meant by none. -/
theorem tryOpen_suffix (d : Disk) (path : String) (maxSize maxAge : Nat) (suffix : Option String)
    (now : Calendar.Moment) : tryOpen d path maxSize maxAge suffix now =
      tryOpen d path maxSize maxAge (some (suffix.getD defaultSuffix)) now := by
  simp only [tryOpen, Option.getD_some]

end RollingFile

namespace Target

variable {d d' : Disk} {now : Calendar.Moment} {args filename : String} {size : List Char}
  {rest : List (List Char)} {e : TargetError}

/-! ## Refused without a trace -/

theorem ofRolling_error {r : Except OpenError RollingFile × Disk}
    (h : ofRolling r = (.error e, d')) : ∃ cause, r = (.error cause, d') := by
  obtain ⟨result, disk⟩ := r
  cases result with
  | error cause =>
    have hdisk : (ofRolling (.error cause, disk)).2 = d' := congrArg Prod.snd h
    exact ⟨cause, Prod.ext rfl hdisk⟩
  | ok f => exact absurd (congrArg Prod.fst h) (by simp [ofRolling])

theorem openRolling_error (h : openRolling d now args filename size rest = (.error e, d')) :
    d' = d := by
  rw [openRolling] at h
  split at h
  · exact (congrArg Prod.snd h).symm
  · split at h
    · exact (congrArg Prod.snd h).symm
    · obtain ⟨cause, hopen⟩ := ofRolling_error h
      exact RollingFile.tryOpen_error hopen

theorem openFile_error (h : openFile d now args = (.error e, d')) : d' = d := by
  simp only [openFile] at h
  split at h
  · exact (congrArg Prod.snd h).symm
  · split at h
    · split at h
      · exact (congrArg Prod.snd h).symm
      · exact absurd (congrArg Prod.fst h) (by simp)
    · exact openRolling_error h

/-- A target that is not opened leaves the disk as it is. -/
theorem tryOpen_error {name : String} (h : tryOpen d now name args = (.error e, d')) : d' = d := by
  rw [tryOpen] at h
  split at h
  · exact absurd (congrArg Prod.fst h) (by simp)
  · split at h
    · exact openFile_error h
    · split at h
      · split at h
        · exact openFile_error h
        · exact (congrArg Prod.snd h).symm
      · exact (congrArg Prod.snd h).symm

/-! ## A required limit -/

/-- There is a part behind the first colon, up to the next one if there is a next, and it is not
blank. -/
def HasLimit (args : String) : Prop :=
  ∃ name size rest, args.toList = name ++ ':' :: (size ++ rest) ∧ ':' ∉ name ∧ ':' ∉ size ∧
    (rest = [] ∨ ∃ more, rest = ':' :: more) ∧ ¬Blank size

/-- The parts of a text begin with the one before its first separator. -/
theorem split_first {sep : Char} {part rest : List Char} (hpart : sep ∉ part)
    (hrest : rest = [] ∨ ∃ more, rest = sep :: more) :
    ∃ parts, Text.split sep (part ++ rest) = part :: parts := by
  rcases hrest with rfl | ⟨more, rfl⟩
  · exact ⟨[], by rw [List.append_nil, Text.split_of_not_mem hpart]⟩
  · exact ⟨_, by rw [Text.split_append_cons, Text.split_of_not_mem hpart, List.singleton_append]⟩

theorem exists_first (sep : Char) (cs : List Char) :
    ∃ part rest, cs = part ++ rest ∧ sep ∉ part ∧ (rest = [] ∨ ∃ more, rest = sep :: more) := by
  by_cases hmem : sep ∈ cs
  · obtain ⟨part, more, hcs, hpart⟩ := List.eq_append_cons_of_mem hmem
    exact ⟨part, sep :: more, hcs, hpart, .inr ⟨more, rfl⟩⟩
  · exact ⟨cs, [], (List.append_nil cs).symm, hmem, .inl rfl⟩

theorem hasSize_of_parts {name size rest : List Char}
    (hargs : args.toList = name ++ ':' :: (size ++ rest)) (hname : ':' ∉ name) (hsize : ':' ∉ size)
    (hrest : rest = [] ∨ ∃ more, rest = ':' :: more) : hasSize args = true ↔ ¬Blank size := by
  obtain ⟨parts, hparts⟩ := split_first hsize hrest
  have hsplit : Text.split ':' args.toList = name :: size :: parts := by
    rw [hargs, Text.split_append_cons, Text.split_of_not_mem hname, hparts, List.singleton_append]
  rw [hasSize, hsplit, ← Text.trim_eq_nil_iff]
  simp

/-- The check for a limit looks at the part between the first colon and the second. -/
theorem hasSize_iff : hasSize args = true ↔ HasLimit args := by
  constructor
  · intro h
    obtain ⟨name, behind, hargs, hname, rfl | ⟨after, rfl⟩⟩ := exists_first ':' args.toList
    · rw [hasSize, hargs, List.append_nil, Text.split_of_not_mem hname] at h
      exact Bool.noConfusion h
    · obtain ⟨size, rest, rfl, hsize, hrest⟩ := exists_first ':' after
      exact ⟨name, size, rest, hargs, hname, hsize, hrest,
        (hasSize_of_parts hargs hname hsize hrest).1 h⟩
  · rintro ⟨name, size, rest, hargs, hname, hsize, hrest, hblank⟩
    exact (hasSize_of_parts hargs hname hsize hrest).2 hblank

theorem tryOpen_file : tryOpen d now "file" args = openFile d now args := by
  rw [tryOpen, if_neg (by decide), if_pos rfl]

theorem tryOpen_rollingFile : tryOpen d now "rollingfile" args =
    if hasSize args then openFile d now args
    else (.error (.invalidArgs args .sizeMissing), d) := by
  rw [tryOpen, if_neg (by decide), if_neg (by decide), if_pos rfl]

end Target

/-! ## Later uses -/

/-- What happens to what is written to: a write at some moment, or a change of the disk by
others. -/
inductive Use
  | write (bs : Bytes) (now : Calendar.Moment)
  | outside (change : Disk → Disk)

/-- The answers to the writes among some uses, and how things stand after them. What fails to be
written leaves what it was written to. -/
def used {α : Type} (writeAt : α → Disk → Bytes → Calendar.Moment → Except RollError α × Disk)
    (a : α) (d : Disk) : List Use → List (Option RollError) × α × Disk
  | [] => ([], a, d)
  | .outside change :: rest => used writeAt a (change d) rest
  | .write bs now :: rest =>
    match writeAt a d bs now with
    | (.error e, d) => ((some e :: (used writeAt a d rest).1), (used writeAt a d rest).2)
    | (.ok a, d) => ((none :: (used writeAt a d rest).1), (used writeAt a d rest).2)

namespace Target

/-- A target that a rolling file is takes every use as the file does. -/
theorem used_rolling (f : RollingFile) (d : Disk) (uses : List Use) :
    used writeAt (.rolling f) d uses =
      ((used RollingFile.writeAt f d uses).1, .rolling (used RollingFile.writeAt f d uses).2.1,
        (used RollingFile.writeAt f d uses).2.2) := by
  induction uses generalizing f d with
  | nil => rfl
  | cons use rest ih =>
    cases use with
    | outside change => exact ih f (change d)
    | write bs now =>
      rw [used, used, writeAt]
      obtain ⟨result, e⟩ := f.writeAt d bs now
      cases result with
      | error cause => simp only [ih]
      | ok g => simp only [ih]

/-- The target gives the answers of a rolling file and leaves the disks it leaves, in every use. -/
def ActsAs (t : Target) (f : RollingFile) : Prop :=
  ∀ d uses, (used writeAt t d uses).1 = (used RollingFile.writeAt f d uses).1 ∧
    (used writeAt t d uses).2.2 = (used RollingFile.writeAt f d uses).2.2

/-- The arguments open what a rolling file with some name, limits and suffix is: either target by
name does, and fails as it fails. -/
def OpensAs (d : Disk) (now : Calendar.Moment) (args path : String) (maxSize maxAge : Nat)
    (suffix : String) : Prop :=
  ∀ name, name = "file" ∨ name = "rollingfile" →
    (∀ f e, RollingFile.tryOpen d path maxSize maxAge (some suffix) now = (.ok f, e) →
      ∃ t, tryOpen d now name args = (.ok t, e) ∧ t.ActsAs f) ∧
    ∀ cause e, RollingFile.tryOpen d path maxSize maxAge (some suffix) now = (.error cause, e) →
      tryOpen d now name args = (.error (.notOpened cause), e)

theorem OpensAs.of_openFile {path suffix : String} {maxSize maxAge : Nat}
    (hlimit : HasLimit args) (h : openFile d now args =
      ofRolling (RollingFile.tryOpen d path maxSize maxAge (some suffix) now)) :
    OpensAs d now args path maxSize maxAge suffix := by
  intro name hname
  have hopen : tryOpen d now name args =
      ofRolling (RollingFile.tryOpen d path maxSize maxAge (some suffix) now) := by
    rw [← h]
    rcases hname with rfl | rfl
    · exact tryOpen_file
    · rw [tryOpen_rollingFile, if_pos (hasSize_iff.2 hlimit)]
  refine ⟨fun f e hf => ⟨.rolling f, ?_, fun d uses => ?_⟩, fun cause e hf => ?_⟩
  · rw [hopen, hf]
    rfl
  · rw [used_rolling]
    exact ⟨rfl, rfl⟩
  · rw [hopen, hf]
    rfl

/-! ## Limits and suffix -/

/-- A limit as it may be written: in decimal digits, with or without blanks around them. -/
def LimitText (n : Nat) (s : String) : Prop :=
  ∃ l r, Blank l ∧ Blank r ∧ s.toList = l ++ Decimal.natChars n ++ r

theorem Blank.colon_not_mem {cs : List Char} (h : Blank cs) : ':' ∉ cs :=
  fun hmem => absurd (h ':' hmem) (by decide)

theorem LimitText.colon_not_mem {n : Nat} {s : String} (h : LimitText n s) : ':' ∉ s.toList := by
  obtain ⟨l, r, hl, hr, hs⟩ := h
  rw [hs]
  intro hmem
  rcases List.mem_append.1 hmem with hmem | hmem
  · rcases List.mem_append.1 hmem with hmem | hmem
    · exact Blank.colon_not_mem hl hmem
    · exact absurd (Decimal.isDigit_of_mem_natChars hmem) (by decide)
  · exact Blank.colon_not_mem hr hmem

theorem LimitText.trim {n : Nat} {s : String} (h : LimitText n s) :
    Text.trim s.toList = Decimal.natChars n := by
  obtain ⟨l, r, hl, hr, hs⟩ := h
  rw [hs, Text.trim_append hl (Text.bare_natChars n) hr]

theorem LimitText.not_blank {n : Nat} {s : String} (h : LimitText n s) : ¬Blank s.toList := by
  rw [← Text.trim_eq_nil_iff, h.trim]
  exact Decimal.natChars_ne_nil n

theorem LimitText.number? {n : Nat} {s : String} (h : LimitText n s) (hn : n < UInt64.size) :
    Target.number? s.toList = some n := by
  rw [Target.number?, h.trim, Text.natural?_natChars hn]

/-- A limit in its own digits. -/
theorem limitText_nat (n : Nat) : LimitText n (Decimal.nat n) :=
  ⟨[], [], fun _ hc => absurd hc List.not_mem_nil, fun _ hc => absurd hc List.not_mem_nil, by
    rw [Decimal.nat, String.toList_ofList, List.nil_append, List.append_nil]⟩

theorem openFile_of_parts {name : List Char}
    (hparts : Text.splitTimes ':' 3 args.toList = name :: size :: rest) (hname : ¬Blank name) :
    openFile d now args =
      openRolling d now args (String.ofList (Text.trim name)) size rest := by
  have hne : String.ofList (Text.trim name) ≠ "" := by
    rw [Ne, String.ofList_eq_empty_iff, Text.trim_eq_nil_iff]
    exact hname
  simp only [openFile, hparts, List.headD_cons, List.tail_cons, if_neg hne]

theorem toList_colon (a b : String) : (a ++ ":" ++ b).toList = a.toList ++ ':' :: b.toList := by
  rw [String.toList_append, String.toList_append, List.append_assoc]
  rfl

theorem toList_aged (name size age : String) : (name ++ ":" ++ size ++ ":" ++ age).toList =
    name.toList ++ ':' :: (size.toList ++ ':' :: age.toList) := by
  rw [toList_colon, toList_colon, List.append_assoc, List.cons_append]

theorem toList_suffixed (name size age suffix : String) :
    (name ++ ":" ++ size ++ ":" ++ age ++ ":" ++ suffix).toList =
      name.toList ++ ':' :: (size.toList ++ ':' :: (age.toList ++ ':' :: suffix.toList)) := by
  rw [toList_colon, toList_aged, List.append_assoc, List.cons_append, List.append_assoc,
    List.cons_append]

/-- Parts that are a name and limits open the rolling file of the trimmed name. -/
theorem opensAs_of_parts {name sizeText suffix : String} {maxSize maxAge : Nat}
    (hlimit : HasLimit args)
    (hparts : Text.splitTimes ':' 3 args.toList = name.toList :: sizeText.toList :: rest)
    (hname : ¬Blank name.toList) (hsize : LimitText maxSize sizeText)
    (hlt : maxSize < UInt64.size) (hage : age? rest = some maxAge)
    (hsuffix : (rest[1]?.map String.ofList).getD RollingFile.defaultSuffix = suffix) :
    OpensAs d now args (String.ofList (Text.trim name.toList)) maxSize maxAge suffix := by
  apply OpensAs.of_openFile hlimit
  rw [openFile_of_parts hparts hname]
  simp only [openRolling, hsize.number? hlt, hage]
  rw [RollingFile.tryOpen_suffix, hsuffix]

section

variable {name sizeText ageText : String} {maxSize maxAge : Nat}
  (hcolon : ':' ∉ name.toList) (hname : ¬Blank name.toList)
  (hsize : LimitText maxSize sizeText) (hlt : maxSize < UInt64.size)

include hcolon hname hsize hlt

/-- Without an age there is no such limit, and without a suffix it is the default one. -/
theorem opensAs_sized : OpensAs d now (name ++ ":" ++ sizeText)
    (String.ofList (Text.trim name.toList)) maxSize 0 RollingFile.defaultSuffix := by
  have hargs := toList_colon name sizeText
  have hlimit : HasLimit (name ++ ":" ++ sizeText) :=
    ⟨_, _, [], by rw [hargs, List.append_nil], hcolon, hsize.colon_not_mem, .inl rfl,
      hsize.not_blank⟩
  have hparts : Text.splitTimes ':' 3 (name ++ ":" ++ sizeText).toList =
      [name.toList, sizeText.toList] := by
    rw [hargs, Text.splitTimes_append hcolon, Text.splitTimes_of_not_mem hsize.colon_not_mem]
  exact opensAs_of_parts hlimit hparts hname hsize hlt rfl rfl

variable (hage : LimitText maxAge ageText) (hagelt : maxAge < UInt64.size)

include hage hagelt

theorem opensAs_aged : OpensAs d now (name ++ ":" ++ sizeText ++ ":" ++ ageText)
    (String.ofList (Text.trim name.toList)) maxSize maxAge RollingFile.defaultSuffix := by
  have hargs := toList_aged name sizeText ageText
  have hlimit : HasLimit (name ++ ":" ++ sizeText ++ ":" ++ ageText) :=
    ⟨_, _, _, hargs, hcolon, hsize.colon_not_mem, .inr ⟨_, rfl⟩, hsize.not_blank⟩
  have hparts : Text.splitTimes ':' 3 (name ++ ":" ++ sizeText ++ ":" ++ ageText).toList =
      [name.toList, sizeText.toList, ageText.toList] := by
    rw [hargs, Text.splitTimes_append hcolon, Text.splitTimes_append hsize.colon_not_mem,
      Text.splitTimes_of_not_mem hage.colon_not_mem]
  have hread : age? [ageText.toList] = some maxAge := hage.number? hagelt
  exact opensAs_of_parts hlimit hparts hname hsize hlt hread rfl

/-- The suffix is all that follows the third colon, with the blanks and colons in it. -/
theorem opensAs_suffixed (suffix : String) :
    OpensAs d now (name ++ ":" ++ sizeText ++ ":" ++ ageText ++ ":" ++ suffix)
      (String.ofList (Text.trim name.toList)) maxSize maxAge suffix := by
  have hargs := toList_suffixed name sizeText ageText suffix
  have hlimit : HasLimit (name ++ ":" ++ sizeText ++ ":" ++ ageText ++ ":" ++ suffix) :=
    ⟨_, _, _, hargs, hcolon, hsize.colon_not_mem, .inr ⟨_, rfl⟩, hsize.not_blank⟩
  have hparts : Text.splitTimes ':' 3
      (name ++ ":" ++ sizeText ++ ":" ++ ageText ++ ":" ++ suffix).toList =
      [name.toList, sizeText.toList, ageText.toList, suffix.toList] := by
    rw [hargs, Text.splitTimes_append hcolon, Text.splitTimes_append hsize.colon_not_mem,
      Text.splitTimes_append hage.colon_not_mem]
    rfl
  have hread : age? [ageText.toList, suffix.toList] = some maxAge := hage.number? hagelt
  exact opensAs_of_parts hlimit hparts hname hsize hlt hread String.ofList_toList

end

/-- **The arguments of targets.** A rolling file is the file with the same arguments if there is a
limit among them, and else refused. A name without a colon, limits that fit in 64 bits and any
suffix open the rolling file they describe. Whatever is refused leaves the disk as it is. -/
theorem arguments_faithful (d : Disk) (now : Calendar.Moment) :
    (∀ args, HasLimit args → tryOpen d now "rollingfile" args = tryOpen d now "file" args) ∧
    (∀ args, ¬HasLimit args →
      tryOpen d now "rollingfile" args = (.error (.invalidArgs args .sizeMissing), d)) ∧
    (∀ name sizeText ageText suffix : String, ∀ maxSize < UInt64.size, ∀ maxAge < UInt64.size,
      ':' ∉ name.toList → ¬Blank name.toList →
      LimitText maxSize sizeText → LimitText maxAge ageText →
      OpensAs d now (name ++ ":" ++ sizeText) (String.ofList (Text.trim name.toList)) maxSize 0
        RollingFile.defaultSuffix ∧
      OpensAs d now (name ++ ":" ++ sizeText ++ ":" ++ ageText)
        (String.ofList (Text.trim name.toList)) maxSize maxAge RollingFile.defaultSuffix ∧
      OpensAs d now (name ++ ":" ++ sizeText ++ ":" ++ ageText ++ ":" ++ suffix)
        (String.ofList (Text.trim name.toList)) maxSize maxAge suffix) ∧
    (∀ name args e d', tryOpen d now name args = (.error e, d') → d' = d) := by
  refine ⟨fun args hlimit => ?_, fun args hlimit => ?_, ?_, fun name args e d' h => tryOpen_error h⟩
  · rw [tryOpen_rollingFile, if_pos (hasSize_iff.2 hlimit), tryOpen_file]
  · rw [tryOpen_rollingFile, if_neg fun h => hlimit (hasSize_iff.1 h)]
  · intro name sizeText ageText suffix maxSize hlt maxAge hagelt hcolon hname hsize hage
    exact ⟨opensAs_sized hcolon hname hsize hlt,
      opensAs_aged hcolon hname hsize hlt hage hagelt,
      opensAs_suffixed hcolon hname hsize hlt hage hagelt suffix⟩

/-- A blank before the name, and a suffix with a colon and a blank in it. -/
def spacedArguments : String :=
  " out.log" ++ ":" ++ Decimal.nat 8 ++ ":" ++ Decimal.nat 60 ++ ":" ++ "%H:%M part"

theorem arguments_faithful_spaced :
    (∃ t e, tryOpen .empty ⟨0⟩ "rollingfile" spacedArguments = (.ok t, e)) ∧
    OpensAs .empty ⟨0⟩ spacedArguments "out.log" 8 60 "%H:%M part" ∧
    tryOpen .empty ⟨0⟩ "rollingfile" "out.log: :5" =
      (.error (.invalidArgs "out.log: :5" .sizeMissing), .empty) := by
  obtain ⟨-, hmissing, hopens, -⟩ := arguments_faithful .empty ⟨0⟩
  obtain ⟨-, -, hspaced⟩ := hopens " out.log" (Decimal.nat 8) (Decimal.nat 60) "%H:%M part"
    8 (by decide) 60 (by decide) (by decide) (by decide) (limitText_nat 8) (limitText_nat 60)
  have htrim : String.ofList (Text.trim " out.log".toList) = "out.log" := by decide
  rw [htrim] at hspaced
  refine ⟨?_, hspaced, hmissing _ fun h => ?_⟩
  · cases hr : RollingFile.tryOpen .empty "out.log" 8 60 (some "%H:%M part") ⟨0⟩ with
    | mk result e =>
      cases result with
      | ok f =>
        obtain ⟨t, ht, -⟩ := (hspaced "rollingfile" (.inr rfl)).1 f e hr
        exact ⟨t, e, ht⟩
      | error cause =>
        have hok : (RollingFile.tryOpen .empty "out.log" 8 60 (some "%H:%M part")
          ⟨0⟩).1.toOption.isSome = true := by decide
        rw [hr] at hok
        exact Bool.noConfusion hok
  · exact absurd (hasSize_iff.2 h) (by decide)

end Target
end Storage
end EventPipeline
