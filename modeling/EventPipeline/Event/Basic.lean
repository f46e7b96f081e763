import EventPipeline.Event.Member
/-!
# Events

An event gives every member a value. Decoders do not build an event at once: they
read off edits, one for each value met, and apply them in the order read, so that
of two values for one member the later stays.
-/
namespace EventPipeline

/-- A decoded record: a value for every member. -/
@[ext] structure Event where
  value : (m : Member) → m.kind.Value

/-- One value read from a payload: of a member, or of one named property. -/
inductive Edit
  | assign (m : Member) (v : m.kind.Value)
  | putProperty (name value : String)

namespace Event

/-- The event whose members all have the default of their kind. -/
def default : Event := ⟨fun m => m.kind.default⟩

instance : Inhabited Event := ⟨default⟩

instance : DecidableEq Event := fun a b =>
  if h : ∀ m ∈ Member.all, a.value m = b.value m then
    isTrue (Event.ext (funext fun m => h m (Member.mem_all m)))
  else
    isFalse (fun e => h (fun m _ => by rw [e]))

/-- The event `e` with another value for one member. -/
def set (e : Event) (m : Member) (v : m.kind.Value) : Event :=
  ⟨fun n => if h : n = m then h ▸ v else e.value n⟩

@[simp] theorem set_self (e : Event) (m : Member) (v : m.kind.Value) : (e.set m v).value m = v := by
  simp [set]

theorem set_ne (e : Event) {m n : Member} (v : m.kind.Value) (h : n ≠ m) :
    (e.set m v).value n = e.value n := by
  simp [set, h]

@[simp] theorem set_value (e : Event) (m : Member) : e.set m (e.value m) = e := by
  ext n
  by_cases h : n = m
  · subst h; simp
  · simp [set_ne e _ h]

@[simp] theorem set_set (e : Event) (m : Member) (v w : m.kind.Value) :
    (e.set m v).set m w = e.set m w := by
  ext n
  by_cases h : n = m
  · subst h; simp
  · simp [set_ne _ _ h]

theorem value_foldl_set (e d : Event) (l : List Member) (m : Member) :
    (l.foldl (fun d m => d.set m (e.value m)) d).value m =
      if m ∈ l then e.value m else d.value m := by
  induction l generalizing d with
  | nil => rfl
  | cons n l ih =>
    rw [List.foldl_cons, ih]
    by_cases hl : m ∈ l
    · rw [if_pos hl, if_pos (List.mem_cons_of_mem _ hl)]
    · rw [if_neg hl]
      by_cases hn : m = n
      · subst hn
        simp
      · rw [set_ne d _ hn, if_neg (by simp [hn, hl])]

/-- The free-form properties of an event. -/
def properties (e : Event) : Properties := e.value .extendInfo

/-- Apply one edit. -/
def edit (e : Event) : Edit → Event
  | .assign m v => e.set m v
  | .putProperty name value => e.set .extendInfo (e.properties.insert name value)

/-- The event that results from edits applied in order to the default event. -/
def ofEdits (edits : List Edit) : Event := edits.foldl edit default

end Event

end EventPipeline
