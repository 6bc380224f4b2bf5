import BeastServer.DecoderBounds
import Mathlib.Algebra.BigOperators.Group.List.Basic

/-!
Reading a buffer of several segments through a pointer to the first.
The bytes of a multi_buffer lie in segments of their own. A string that is made
from a pointer into the first segment and the number of bytes of all of them is
the message exactly when the later segments are empty.
-/
namespace BeastServer.MultiBuffers

open ByteStrings PictureJson DecoderBounds

/-- The readable bytes, segment by segment, and the memory at the distance i
from the beginning of the first segment, where it lies beyond that segment. -/
structure MultiBuffer where
  data : List Bytes
  beyond : ℕ → UInt8

namespace MultiBuffer

/-- boost::beast::buffers_front, empty when there is no segment -/
def buffersFront (buffer : MultiBuffer) : Bytes := buffer.data.headD []

/-- boost::asio::buffer_size -/
def bufferSize (buffer : MultiBuffer) : ℕ := (buffer.data.map List.length).sum

def charAt (buffer : MultiBuffer) (i : ℕ) : UInt8 := buffer.buffersFront.getD i (buffer.beyond i)

/-- The string made from the pointer and the size. -/
def msg (buffer : MultiBuffer) : Bytes := (List.range buffer.bufferSize).map buffer.charAt

/-- What making the string reads of the first segment. -/
def msgAccesses (buffer : MultiBuffer) : List Access :=
  (List.range buffer.bufferSize).map (fun i => .read i buffer.buffersFront.length)

/-- The string is the whole message, and making it reads no byte beyond the
end of the segment it reads from. -/
def Intact (buffer : MultiBuffer) : Prop :=
  buffer.msg = buffer.data.flatten ∧ InBounds buffer.msgAccesses

def OneSegment (buffer : MultiBuffer) : Prop := ∀ segment ∈ buffer.data.tail, segment = []

variable {buffer : MultiBuffer}

theorem bufferSize_eq (buffer : MultiBuffer) :
    buffer.bufferSize = buffer.buffersFront.length + buffer.data.tail.flatten.length := by
  unfold bufferSize buffersFront
  cases buffer.data with
  | nil => rfl
  | cons front rest =>
    rw [List.map_cons, List.sum_cons, List.tail_cons, List.length_flatten]
    rfl

theorem flatten_data (buffer : MultiBuffer) :
    buffer.data.flatten = buffer.buffersFront ++ buffer.data.tail.flatten := by
  unfold buffersFront
  cases buffer.data <;> rfl

theorem oneSegment_iff : buffer.OneSegment ↔ buffer.data.tail.flatten.length = 0 := by
  unfold OneSegment
  rw [List.length_eq_zero_iff, List.flatten_eq_nil_iff]

theorem inBounds_msgAccesses :
    InBounds buffer.msgAccesses ↔ buffer.bufferSize ≤ buffer.buffersFront.length := by
  constructor
  · intro h
    by_contra hlong
    have hread : Access.read buffer.buffersFront.length buffer.buffersFront.length ∈
        buffer.msgAccesses :=
      List.mem_map.mpr ⟨buffer.buffersFront.length, List.mem_range.mpr (by omega), rfl⟩
    exact absurd (h _ hread) (Nat.lt_irrefl _)
  · intro hshort access hmem
    obtain ⟨i, hi, rfl⟩ := List.mem_map.mp hmem
    have hlt := List.mem_range.mp hi
    show i < buffer.buffersFront.length
    omega

theorem msg_of_size (h : buffer.bufferSize = buffer.buffersFront.length) :
    buffer.msg = buffer.buffersFront := by
  apply List.ext_getElem
  · rw [msg, List.length_map, List.length_range, h]
  · intro i hi hi'
    simp [msg, charAt, List.getD, hi']

/-- The size is right for the first segment when it holds the whole message. -/
theorem intact_iff_oneSegment : buffer.Intact ↔ buffer.OneSegment := by
  have hsize := bufferSize_eq buffer
  unfold Intact
  rw [inBounds_msgAccesses, oneSegment_iff]
  constructor
  · intro ⟨_, hbounds⟩
    omega
  · intro hempty
    refine ⟨?_, by omega⟩
    rw [msg_of_size (by omega), flatten_data, List.eq_nil_of_length_eq_zero hempty,
      List.append_nil]

end MultiBuffer

end BeastServer.MultiBuffers
