import CameraLogs.Lib.Base64
import CameraLogs.Lib.Json

/-!
# Values as texts of a URL

A value is written as JSON in ASCII, in base64 and without `=`, and read back from there
(`decodeText_encodeText`). The text is at least as long as the strings in the value
(`length_encodeText`).
-/

namespace CameraLogs.Lib

variable {text : List Char} {value : Json}

/-- `text.encode()` -/
def encodeUtf8 (text : List Char) : List UInt8 := text.flatMap String.utf8EncodeChar

/-- `data.decode()` -/
def decodeUtf8 (data : List UInt8) : Option (List Char) :=
  data.toByteArray.utf8Decode?.map Array.toList

theorem decodeUtf8_encodeUtf8 (text : List Char) : decodeUtf8 (encodeUtf8 text) = some text := by
  show Option.map _ text.utf8Encode.utf8Decode? = _
  rw [List.utf8Decode?_utf8Encode]
  rfl

theorem encodeUtf8_injective {text text' : List Char} (h : encodeUtf8 text = encodeUtf8 text') :
    text = text' := by
  have hread := decodeUtf8_encodeUtf8 text
  rw [h, decodeUtf8_encodeUtf8] at hread
  exact (Option.some.inj hread).symm

theorem length_le_encodeUtf8 (text : List Char) : text.length ≤ (encodeUtf8 text).length := by
  induction text with
  | nil => exact Nat.le_refl _
  | cons c text ih =>
    have hc := c.utf8Size_pos
    rw [encodeUtf8, List.flatMap_cons, List.length_append, String.length_utf8EncodeChar,
      List.length_cons]
    rw [encodeUtf8] at ih
    omega

/-- `base64.urlsafe_b64encode(json.dumps(value, sort_keys=True).encode()).decode().rstrip("=")` -/
def encodeText (value : Json) : List Char :=
  Base64.unpad (Base64.encode (encodeUtf8 (value.dumps true)))

/-- The value of a text, where there is one. -/
def decodeText (text : List Char) : Option Json := do
  let data ← Base64.decode (Base64.repad text)
  let text ← decodeUtf8 data
  Json.loads text

theorem decodeText_encodeText (value : Json) :
    decodeText (encodeText value) = some value.sortKeys := by
  simp only [decodeText, encodeText, Base64.decode_repad, Option.bind_eq_bind, Option.bind_some,
    decodeUtf8_encodeUtf8, Json.loads_dumps]

theorem dot_not_mem_encodeText (value : Json) : '.' ∉ encodeText value :=
  Base64.dot_not_mem_unpad _

theorem length_encodeText (value : Json) :
    value.sortKeys.characters ≤ (encodeText value).length := by
  have hrender := Json.characters_le_render true value.sortKeys
  have hbytes := length_le_encodeUtf8 (value.dumps true)
  have htext := (Base64.length_unpad (encodeUtf8 (value.dumps true))).1
  rw [Json.dumps] at hbytes htext
  rw [encodeText, Json.dumps]
  omega

end CameraLogs.Lib
