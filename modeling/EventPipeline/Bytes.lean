/-!
# Bytes

Payloads, records and file contents are lists of bytes. Text goes in and out as
UTF-8, and `toText?_ofText` says that nothing is lost on the way.
-/
namespace EventPipeline

/-- A sequence of bytes. -/
abbrev Bytes := List UInt8

namespace Bytes

/-- The UTF-8 encoding of `s`. -/
def ofText (s : String) : Bytes := s.toByteArray.data.toList

/-- The text whose UTF-8 encoding is `bs`, if there is one. -/
def toText? (bs : Bytes) : Option String := String.fromUTF8? ⟨bs.toArray⟩

@[simp] theorem toText?_ofText (s : String) : toText? (ofText s) = some s := by
  simp [toText?, ofText, String.fromUTF8?, String.fromUTF8, s.isValidUTF8]

end Bytes

end EventPipeline
