/-! # Texts as bytes

Outside the program a text is the UTF-8 encoding of its characters. Every text has exactly one
encoding, and bytes that are no encoding are no text.
-/

namespace Entitlement.Text

/-- The bytes of a text. -/
def bytes (text : String) : List UInt8 :=
  text.toUTF8.data.toList

/-- The text of some bytes, if they are text. -/
def ofBytes? (encoded : List UInt8) : Option String :=
  String.fromUTF8? ⟨encoded.toArray⟩

/-- Whether a byte is a decimal digit. -/
def isDigit (b : UInt8) : Bool :=
  '0'.toUInt8 ≤ b && b ≤ '9'.toUInt8

theorem bytes_ofList (cs : List Char) :
    bytes (String.ofList cs) = cs.flatMap String.utf8EncodeChar := by
  simp [bytes, String.toUTF8, String.toByteArray_ofList, List.utf8Encode]

theorem bytes_eq_flatMap (text : String) :
    bytes text = text.toList.flatMap String.utf8EncodeChar := by
  rw [← bytes_ofList, String.ofList_toList]

@[simp] theorem bytes_append (a b : String) : bytes (a ++ b) = bytes a ++ bytes b := by
  simp [bytes_eq_flatMap]

@[simp] theorem ofBytes?_bytes (text : String) : ofBytes? (bytes text) = some text := by
  have hdata : (⟨text.toByteArray.data⟩ : ByteArray) = text.toByteArray := rfl
  simp [ofBytes?, bytes, String.fromUTF8?, String.toUTF8, hdata, text.isValidUTF8,
    String.fromUTF8]

theorem bytes_inj {a b : String} : bytes a = bytes b ↔ a = b := by
  refine ⟨fun h => ?_, congrArg bytes⟩
  have hread := ofBytes?_bytes b
  rw [← h, ofBytes?_bytes] at hread
  exact Option.some.inj hread

theorem ofBytes?_eq_some_iff {encoded : List UInt8} {text : String} :
    ofBytes? encoded = some text ↔ encoded = bytes text := by
  refine ⟨fun h => ?_, fun h => h ▸ ofBytes?_bytes text⟩
  unfold ofBytes? String.fromUTF8? at h
  split at h
  · simp only [Option.some.injEq] at h
    subst h
    simp [bytes, String.toUTF8, String.fromUTF8]
  · simp at h

end Entitlement.Text
