/-
Text as octets, and octets as text.

A document arrives as octets that need not be text, and everything read from it
as text has passed `ofOctets?`, which accepts exactly the well-formed encodings:
no overlong form, no surrogate, nothing above U+10FFFF.
-/

namespace FleetPlan

/-- What a file or a message holds before anything is read from it. -/
abbrev Octets := List UInt8

namespace Text

/-- The octets of a text. -/
def octets (s : String) : Octets := s.toByteArray.data.toList

/-- The text that has these octets, or none when they are no text. -/
def ofOctets? (bytes : Octets) : Option String := String.fromUTF8? ⟨bytes.toArray⟩

theorem octets_append (s t : String) : octets (s ++ t) = octets s ++ octets t := by
  simp [octets, String.toByteArray_append]

/-- Reading the octets of a text gives the text back. -/
theorem ofOctets?_octets (s : String) : ofOctets? (octets s) = some s := by
  have h : (⟨(s.toByteArray.data.toList).toArray⟩ : ByteArray) = s.toByteArray := by simp
  rw [ofOctets?, octets, h, String.fromUTF8?, dif_pos s.isValidUTF8]
  rfl

end Text

end FleetPlan
