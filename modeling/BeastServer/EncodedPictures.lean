import BeastServer.DecoderBounds
import BeastServer.Rfc4648

/-!
The data string of an encoded picture.
It is the RFC 4648 encoding of the bytes of the picture: the letters come from
the regrouped bits, and the padding that to_json counts for itself is what the
last group is short of.
-/
namespace BeastServer.EncodedPictures

open ByteStrings Exceptions JsonValues PostedPictures PictureJson DecoderBounds Rfc4648

variable {picture : PostPicture} {bytes : Bytes}

theorem getData_eq_rfcEncode (h : picture.Holds bytes) : getData picture = rfcEncode bytes := by
  rw [getData_eq h, rfcEncode_eq]
  rfl

/-- The member that to_json writes, and how long it is. -/
theorem toJson_data (picture : PostPicture) (bytes : Bytes) (h : picture.Holds bytes) :
    (toJson picture).atKey (ascii "data") = .ok (.string (rfcEncode bytes)) ∧
      (rfcEncode bytes).length = 4 * ((bytes.length + 2) / 3) := by
  have hmember : (toJson picture).atKey (ascii "data") = .ok (.string (getData picture)) := rfl
  rw [hmember, getData_eq_rfcEncode h]
  exact ⟨rfl, rfcEncode_length bytes⟩

/-- Four bytes, some of them with the sign bit set. -/
theorem toJson_data_four :
    (toJson { createPicture with size := 4, data := .live [255, 128, 0, 254] }).atKey
        (ascii "data") = .ok (.string (rfcEncode [255, 128, 0, 254])) ∧
      (rfcEncode [255, 128, 0, 254]).length = 8 :=
  toJson_data { createPicture with size := 4, data := .live [255, 128, 0, 254] }
    [255, 128, 0, 254] ⟨by simp, rfl, rfl⟩

end BeastServer.EncodedPictures
