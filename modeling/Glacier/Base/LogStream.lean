/-
FixedBuffer<SIZE> of logstream.h: the byte buffer under every log line and under the asynchronous back-end. The
model keeps the bytes between `data_` and `cur_`; `avail` is the distance from `cur_` to `end()`.
`append` copies the whole piece or nothing: `append_of_lt` and `append_of_le` are its two cases.
-/
import Mathlib.Tactic
import Glacier.Lib.ByteString

namespace Glacier

open Cxx

def kSmallBuffer : ℕ := 4000
def kLargeBuffer : ℕ := 4000 * 1000

structure FixedBuffer (SIZE : ℕ) where
  data : Bytes
deriving DecidableEq, Repr

namespace FixedBuffer

variable {SIZE : ℕ}

/-- a new buffer: `cur_` stands at `data_` -/
def new : FixedBuffer SIZE := ⟨[]⟩

def length (b : FixedBuffer SIZE) : ℕ := b.data.length

def avail (b : FixedBuffer SIZE) : ℤ := (SIZE : ℤ) - (b.length : ℤ)

def reset (_ : FixedBuffer SIZE) : FixedBuffer SIZE := ⟨[]⟩

/-- `len` is a size_t: the comparison converts `avail()` to size_t first -/
def append (b : FixedBuffer SIZE) (buf : Bytes) (len : ℕ) : FixedBuffer SIZE :=
  if len < toSizeT b.avail then ⟨b.data ++ buf.take len⟩ else b

@[simp] theorem reset_data (b : FixedBuffer SIZE) : b.reset.data = [] := rfl

@[simp] theorem new_data : (new : FixedBuffer SIZE).data = [] := rfl

theorem toSizeT_avail {b : FixedBuffer SIZE} (hsize : SIZE < 2 ^ 64) (hb : b.length ≤ SIZE) :
    toSizeT b.avail = SIZE - b.length := by
  unfold avail
  rw [toSizeT_of_nonneg (by omega) (by omega)]
  omega

/-- a piece shorter than the room left is copied whole -/
theorem append_of_lt {b : FixedBuffer SIZE} {buf : Bytes} (hsize : SIZE < 2 ^ 64)
    (h : (buf.length : ℤ) < b.avail) : (b.append buf buf.length).data = b.data ++ buf := by
  have hroom : b.length ≤ SIZE := by unfold avail at h; omega
  have hlt : buf.length < toSizeT b.avail := by
    rw [toSizeT_avail hsize hroom]; unfold avail at h; omega
  simp [append, hlt]

/-- a piece that does not fit is skipped -/
theorem append_of_le {b : FixedBuffer SIZE} {buf : Bytes} {len : ℕ} (hsize : SIZE < 2 ^ 64) (hb : b.length ≤ SIZE)
    (h : b.avail ≤ len) : b.append buf len = b := by
  have hle : ¬ len < toSizeT b.avail := by
    rw [toSizeT_avail hsize hb]; unfold avail at h; omega
  simp [append, hle]

end FixedBuffer

end Glacier
