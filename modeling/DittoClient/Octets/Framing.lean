import DittoClient.Octets.BigEndian

/-!
# Length-prefixed frames

A frame is a payload behind its length as a 4-byte big-endian number. A payload
therefore has fewer than `2 ^ 32` bytes, which `Payload` carries as a field. The
stream of a list of payloads is the concatenation of their frames; the stream is cut
at the boundary after its first `m` frames by dropping the length of those frames
(`drop_frames_take`), and the frame at the front of a stream is recovered by reading
four bytes and then as many as they say.
-/

namespace DittoClient

namespace Octets

/-- A byte string whose length fits in the 4-byte prefix. -/
structure Payload where
  bytes : List UInt8
  length_lt : bytes.length < 2 ^ 32

/-- The frame of a payload. -/
def frame (p : Payload) : List UInt8 :=
  bigEndian 4 p.bytes.length ++ p.bytes

/-- The frames of a list of payloads, one after the other. -/
def frames (ps : List Payload) : List UInt8 :=
  ps.flatMap frame

@[simp] theorem length_frame (p : Payload) : (frame p).length = 4 + p.bytes.length := by
  simp [frame]

@[simp] theorem frames_nil : frames [] = [] := rfl

@[simp] theorem frames_cons (p : Payload) (ps : List Payload) :
    frames (p :: ps) = frame p ++ frames ps := rfl

@[simp] theorem frames_append (ps qs : List Payload) :
    frames (ps ++ qs) = frames ps ++ frames qs := by
  simp [frames]

/-- The frame at the front of a stream: its first four bytes are the length of the
payload. -/
theorem ofBigEndian_take_frame (p : Payload) (rest : List UInt8) :
    ofBigEndian ((frame p ++ rest).take 4) = p.bytes.length := by
  have hlen : (bigEndian 4 p.bytes.length).length = 4 := length_bigEndian 4 _
  rw [frame, List.append_assoc, List.take_append_of_le_length (le_of_eq hlen.symm),
    List.take_of_length_le (le_of_eq hlen)]
  exact ofBigEndian_bigEndian_of_lt (by simpa using p.length_lt)

/-- What follows the length at the front of a stream. -/
theorem drop_frame (p : Payload) (rest : List UInt8) :
    (frame p ++ rest).drop 4 = p.bytes ++ rest := by
  have hlen : (bigEndian 4 p.bytes.length).length = 4 := length_bigEndian 4 _
  rw [frame, List.append_assoc, List.drop_append_of_le_length (le_of_eq hlen.symm),
    List.drop_of_length_le (le_of_eq hlen), List.nil_append]

/-- Dropping the first `m` frames of a stream leaves the stream of the others. -/
theorem drop_frames_take (ps : List Payload) (m : ℕ) :
    (frames ps).drop (frames (ps.take m)).length = frames (ps.drop m) := by
  conv_lhs => rw [← List.take_append_drop m ps, frames_append]
  simp

end Octets

end DittoClient
