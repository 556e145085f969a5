/-
LogStream over its char array (base/logstream.h, base/logstream.cc): every operator<<, append(data, len) and
resetBuffer, with the bytes that they store behind the text.

A piece is admitted as a whole or skipped. Bytes are admitted if they leave at least one byte free; numbers if
kMaxNumericSize bytes are free, before their length is known. `snprintf12g` is what snprintf prints for "%.12g".
- `append_text`: the buffer over its array does what FixedBuffer does with the text alone;
- `put_spec`: what one operator<< does, by the rendering of its piece;
- `stream_safe`: over any sequence of operations nothing is stored outside the array, and the text is made of whole
  pieces in order.
-/
import Glacier.Base.Convert
import Glacier.Base.LogStream

namespace Glacier

open Cxx

/-! ## FixedBuffer with its array -/

/-- data_, and cur_ as its distance from data_ -/
structure RawBuffer (SIZE : ℕ) where
  data : CharArray
  cur : ℕ

namespace RawBuffer

variable {SIZE : ℕ}

/-- a new buffer, in memory with whatever bytes -/
def new (byte : ℕ → UInt8) : RawBuffer SIZE := ⟨⟨byte, []⟩, 0⟩

def avail (b : RawBuffer SIZE) : ℤ := (SIZE : ℤ) - (b.cur : ℤ)

def add (b : RawBuffer SIZE) (len : ℕ) : RawBuffer SIZE := { b with cur := b.cur + len }

def reset (b : RawBuffer SIZE) : RawBuffer SIZE := { b with cur := 0 }

def append (b : RawBuffer SIZE) (buf : ℕ → UInt8) (len : ℕ) : RawBuffer SIZE :=
  if len < toSizeT b.avail then { b with data := b.data.memcpy b.cur (bytesAt buf 0 len) }.add len else b

/-- the text between data_ and cur_ -/
def text (b : RawBuffer SIZE) : FixedBuffer SIZE := ⟨b.data.load 0 b.cur⟩

/-- every store was inside the array, and one byte of it is free -/
structure Inv (b : RawBuffer SIZE) : Prop where
  cur : b.cur < SIZE
  stores : ∀ a ∈ b.data.stores, a < SIZE

@[simp] theorem text_length (b : RawBuffer SIZE) : b.text.length = b.cur := CharArray.load_length _ _ _

@[simp] theorem text_avail (b : RawBuffer SIZE) : b.text.avail = b.avail := by
  rw [FixedBuffer.avail, text_length]; rfl

theorem Inv.avail_pos {b : RawBuffer SIZE} (h : Inv b) : 1 ≤ b.avail := by
  have := h.cur
  unfold avail
  omega

theorem inv_new (h : 0 < SIZE) (byte : ℕ → UInt8) : Inv (new byte : RawBuffer SIZE) := ⟨h, by simp [new]⟩

theorem Inv.reset {b : RawBuffer SIZE} (h : Inv b) : Inv b.reset := ⟨(Nat.zero_le _).trans_lt h.cur, h.stores⟩

/-- **Growth.** Code that stores in the free part only, and leaves a piece at its beginning that does not fill it -/
theorem Inv.grow {b : RawBuffer SIZE} (h : Inv b) {data : CharArray} {piece : Bytes} {q : ℕ}
    (hload : data.load b.cur piece.length = piece) (hwithin : b.data.Within data b.cur q) (hq : q ≤ SIZE)
    (hlen : (piece.length : ℤ) < b.avail) :
    Inv (add ⟨data, b.cur⟩ piece.length : RawBuffer SIZE) ∧
      (add ⟨data, b.cur⟩ piece.length : RawBuffer SIZE).text.data = b.text.data ++ piece := by
  refine ⟨⟨?_, ?_⟩, ?_⟩
  · unfold avail at hlen
    change b.cur + piece.length < SIZE
    omega
  · intro a ha
    rcases hwithin.stores a ha with ha | ha
    · exact h.stores a ha
    · omega
  · change data.load 0 (b.cur + piece.length) = b.data.load 0 b.cur ++ piece
    rw [CharArray.load_add, hwithin.load_eq (by omega), Nat.zero_add, hload]

/-- the copy keeps to the text what FixedBuffer does -/
theorem append_text {b : RawBuffer SIZE} (buf : ℕ → UInt8) (len : ℕ) :
    (b.append buf len).text = b.text.append (bytesAt buf 0 len) len := by
  unfold append FixedBuffer.append
  rw [text_avail]
  split_ifs with hfit
  · have hload := b.data.load_memcpy b.cur (bytesAt buf 0 len)
    have hwithin := b.data.memcpy_within b.cur (bytesAt buf 0 len)
    rw [bytesAt_length] at hload
    have htake : (bytesAt buf 0 len).take len = bytesAt buf 0 len := List.take_of_length_le (by simp)
    change (⟨(b.data.memcpy b.cur (bytesAt buf 0 len)).load 0 (b.cur + len)⟩ : FixedBuffer SIZE) =
      ⟨b.data.load 0 b.cur ++ (bytesAt buf 0 len).take len⟩
    rw [CharArray.load_add, hwithin.load_eq (by omega), Nat.zero_add, hload, htake]
  · rfl

/-- append copies the whole piece or nothing -/
theorem Inv.append (hsize : SIZE < 2 ^ 64) {b : RawBuffer SIZE} (h : Inv b) (buf : ℕ → UInt8) (len : ℕ) :
    Inv (b.append buf len) ∧
      (b.append buf len).text.data = b.text.data ++ if (len : ℤ) < b.avail then bytesAt buf 0 len else [] := by
  have hcur := h.cur
  have hroom : toSizeT b.avail = SIZE - b.cur := by
    rw [← text_avail, FixedBuffer.toSizeT_avail hsize (by rw [text_length]; omega), text_length]
  have havail : b.avail = (SIZE : ℤ) - (b.cur : ℤ) := rfl
  by_cases hfit : (len : ℤ) < b.avail
  · have hlt : len < toSizeT b.avail := by omega
    have hgrow := h.grow (b.data.load_memcpy b.cur (bytesAt buf 0 len)) (b.data.memcpy_within b.cur (bytesAt buf 0 len))
      (by rw [bytesAt_length]; omega) (by rw [bytesAt_length]; exact hfit)
    rw [bytesAt_length] at hgrow
    rw [RawBuffer.append, if_pos hlt, if_pos hfit]; exact hgrow
  · have hle : b.text.avail ≤ len := by rw [text_avail]; exact not_lt.1 hfit
    have hskip : b.append buf len = b := if_neg (by omega)
    rw [append_text, FixedBuffer.append_of_le hsize (by rw [text_length]; omega) hle, hskip, if_neg hfit, List.append_nil]
    exact ⟨h, rfl⟩

end RawBuffer

/-! ## LogStream -/

abbrev LogStream := RawBuffer kSmallBuffer

/-- the right operand of an operator<<, or the arguments of append(data, len); a null pointer is `none` -/
inductive Piece where
  | bool (v : Bool)
  | short (v : Int16)
  | unsignedShort (v : UInt16)
  | int (v : Int32)
  | unsignedInt (v : UInt32)
  | long (v : Int64)
  | unsignedLong (v : UInt64)
  | longLong (v : Int64)
  | unsignedLongLong (v : UInt64)
  | pointer (p : UInt64)
  | float (v : Float32)
  | double (v : Float)
  | char (v : UInt8)
  | cString (str : Option Bytes)
  | unsignedCString (str : Option Bytes)
  | string (v : Bytes)
  | buffer (v : FixedBuffer kSmallBuffer)
  | append (data : ℕ → UInt8) (len : Int32)

namespace LogStream

def kMaxNumericSize : ℕ := 32

/-- append(data, len): the int `len` becomes a size_t -/
def append (s : LogStream) (data : ℕ → UInt8) (len : ℤ) : LogStream := RawBuffer.append s data (toSizeT len)

def formatInteger (s : LogStream) (v : ℤ) : LogStream :=
  if s.avail ≥ kMaxNumericSize then
    let (data, len) := convert s.data s.cur v
    { s with data := data }.add len
  else s

def putPointer (s : LogStream) (p : UInt64) : LogStream :=
  if s.avail ≥ kMaxNumericSize then
    let data := (s.data.store s.cur 48).store (s.cur + 1) 120
    let (data, len) := convertHex data (s.cur + 2) p.toNat
    { s with data := data }.add (2 + len)
  else s

variable (snprintf12g : Float → Bytes)

def putDouble (s : LogStream) (v : Float) : LogStream :=
  if s.avail ≥ kMaxNumericSize then
    let (data, len) := s.data.snprintf s.cur kMaxNumericSize (snprintf12g v)
    { s with data := data }.add len
  else s

def putCString (s : LogStream) (str : Option Bytes) : LogStream :=
  match str with
  | some str => RawBuffer.append s (cPtr str) (strlen str)
  | none => RawBuffer.append s (cPtr (ascii "(null)")) 6

def putString (s : LogStream) (v : Bytes) : LogStream := RawBuffer.append s (cPtr v) v.length

/-- `s << p` -/
def put (s : LogStream) : Piece → LogStream
  | .bool v => RawBuffer.append s (cPtr (ascii (if v then "1" else "0"))) 1
  | .short v => s.formatInteger v.toInt
  | .unsignedShort v => s.formatInteger v.toNat
  | .int v => s.formatInteger v.toInt
  | .unsignedInt v => s.formatInteger v.toNat
  | .long v => s.formatInteger v.toInt
  | .unsignedLong v => s.formatInteger v.toNat
  | .longLong v => s.formatInteger v.toInt
  | .unsignedLongLong v => s.formatInteger v.toNat
  | .pointer p => s.putPointer p
  | .float v => s.putDouble snprintf12g v.toFloat
  | .double v => s.putDouble snprintf12g v
  | .char v => RawBuffer.append s (cPtr [v]) 1
  | .cString str => s.putCString str
  | .unsignedCString str => s.putCString str
  | .string v => s.putString v
  | .buffer v => s.putString v.data
  | .append data len => s.append data len.toInt

def resetBuffer (s : LogStream) : LogStream := s.reset

end LogStream

/-! ## Renderings -/

namespace Piece

variable (snprintf12g : Float → Bytes)

/-- the whole text of a piece; append with a negative length has none -/
def render : Piece → Bytes
  | .bool v => ascii (if v then "1" else "0")
  | .short v => numeral v.toInt
  | .unsignedShort v => numeral v.toNat
  | .int v => numeral v.toInt
  | .unsignedInt v => numeral v.toNat
  | .long v => numeral v.toInt
  | .unsignedLong v => numeral v.toNat
  | .longLong v => numeral v.toInt
  | .unsignedLongLong v => numeral v.toNat
  | .pointer p => ascii "0x" ++ hexadecimal p.toNat
  | .float v => snprintf12g v.toFloat
  | .double v => snprintf12g v
  | .char v => [v]
  | .cString str => str.elim (ascii "(null)") fun s => s.takeWhile (· ≠ 0)
  | .unsignedCString str => str.elim (ascii "(null)") fun s => s.takeWhile (· ≠ 0)
  | .string v => v
  | .buffer v => v.data
  | .append data len => bytesAt data 0 len.toInt.toNat

/-- the piece is admitted by the room for any number -/
def numeric : Piece → Bool
  | .bool _ | .char _ | .cString _ | .unsignedCString _ | .string _ | .buffer _ | .append _ _ => false
  | _ => true

/-- the piece is admitted with `avail` bytes free -/
def Fits (avail : ℤ) (p : Piece) : Prop :=
  if p.numeric then LogStream.kMaxNumericSize ≤ avail else ((p.render snprintf12g).length : ℤ) < avail

instance (avail : ℤ) (p : Piece) : Decidable (p.Fits snprintf12g avail) := by unfold Fits; infer_instance

end Piece

namespace LogStream

open RawBuffer

theorem size_lt : kSmallBuffer < 2 ^ 64 := by decide

/-- a number and the NUL behind it go into kMaxNumericSize bytes -/
theorem putNumber {s : LogStream} (h : Inv s) (hroom : (kMaxNumericSize : ℤ) ≤ s.avail) {data : CharArray} {piece : Bytes}
    (hload : data.load s.cur piece.length = piece) (hwithin : s.data.Within data s.cur (s.cur + piece.length + 1))
    (hlen : piece.length < kMaxNumericSize) :
    Inv (RawBuffer.add ⟨data, s.cur⟩ piece.length : LogStream) ∧
      (RawBuffer.add ⟨data, s.cur⟩ piece.length : LogStream).text.data = s.text.data ++ piece := by
  have havail : s.avail = (kSmallBuffer : ℤ) - (s.cur : ℤ) := rfl
  exact h.grow hload hwithin (by omega) (by omega)

theorem formatInteger_spec {s : LogStream} (h : Inv s) {v : ℤ} (hv : v.natAbs < 10 ^ 20) :
    Inv (s.formatInteger v) ∧
      (s.formatInteger v).text.data = s.text.data ++ if (kMaxNumericSize : ℤ) ≤ s.avail then numeral v else [] := by
  have hlen := length_numeral_le (by decide) hv
  obtain ⟨hcount, hload, hwithin⟩ := convert_spec s.data s.cur v
  unfold formatInteger
  by_cases hroom : s.avail ≥ kMaxNumericSize
  · rw [if_pos hroom, if_pos hroom]
    dsimp only
    rw [hcount]
    exact putNumber h hroom hload hwithin (by unfold kMaxNumericSize; omega)
  · rw [if_neg hroom, if_neg hroom, List.append_nil]
    exact ⟨h, rfl⟩

theorem putPointer_spec {s : LogStream} (h : Inv s) (p : UInt64) :
    Inv (s.putPointer p) ∧ (s.putPointer p).text.data =
      s.text.data ++ if (kMaxNumericSize : ℤ) ≤ s.avail then ascii "0x" ++ hexadecimal p.toNat else [] := by
  have hlen : (hexadecimal p.toNat).length ≤ 16 := length_hexadecimal_le (by decide) p.toNat_lt
  have hwritten := CharArray.memcpy_within s.data s.cur [48, 120]
  have hload0 := CharArray.load_memcpy s.data s.cur [48, 120]
  unfold putPointer
  change s.data.Within ((s.data.store s.cur 48).store (s.cur + 1) 120) s.cur (s.cur + 2) at hwritten
  change ((s.data.store s.cur 48).store (s.cur + 1) 120).load s.cur 2 = ascii "0x" at hload0
  dsimp only
  generalize (s.data.store s.cur 48).store (s.cur + 1) 120 = data at hwritten hload0 ⊢
  obtain ⟨hcount, hload, hwithin⟩ := convertHex_spec data (s.cur + 2) p.toNat
  by_cases hroom : s.avail ≥ kMaxNumericSize
  · have htext : (ascii "0x" ++ hexadecimal p.toNat).length = 2 + (hexadecimal p.toNat).length := by
      rw [List.length_append]; rfl
    rw [if_pos hroom, if_pos hroom, hcount, ← htext]
    refine putNumber h hroom ?_ ?_ (by rw [htext]; unfold kMaxNumericSize; omega)
    · rw [htext, CharArray.load_add, hwithin.load_eq le_rfl, hload0, hload]
    · rw [htext]
      exact (hwritten.mono (by omega)).trans hwithin (by omega) (by omega)
  · rw [if_neg hroom, if_neg hroom, List.append_nil]
    exact ⟨h, rfl⟩

theorem putCString_spec {s : LogStream} (h : Inv s) (str : Option Bytes) :
    let piece := str.elim (ascii "(null)") fun s => s.takeWhile (· ≠ 0)
    Inv (s.putCString str) ∧
      (s.putCString str).text.data = s.text.data ++ if (piece.length : ℤ) < s.avail then piece else [] := by
  cases str with
  | none => exact h.append size_lt (cPtr (ascii "(null)")) 6
  | some str =>
    have hspec := h.append size_lt (cPtr str) (strlen str)
    have hpre : str.takeWhile (· ≠ 0) <+: str := List.takeWhile_prefix _
    rw [bytesAt_cPtr (by exact hpre.length_le), strlen, ← List.prefix_iff_eq_take.1 hpre] at hspec
    exact hspec

theorem putString_spec {s : LogStream} (h : Inv s) (v : Bytes) :
    Inv (s.putString v) ∧ (s.putString v).text.data = s.text.data ++ if (v.length : ℤ) < s.avail then v else [] := by
  have hspec := h.append size_lt (cPtr v) v.length
  rw [bytesAt_cPtr le_rfl, List.take_length] at hspec
  exact hspec

/-- append(data, len): a negative length becomes one that never fits -/
theorem append_spec {s : LogStream} (h : Inv s) (data : ℕ → UInt8) {len : ℤ} (hlow : -2 ^ 31 ≤ len) (hhigh : len < 2 ^ 31) :
    let piece := bytesAt data 0 len.toNat
    Inv (s.append data len) ∧
      (s.append data len).text.data = s.text.data ++ if (piece.length : ℤ) < s.avail then piece else [] := by
  have hspec := h.append size_lt data (toSizeT len)
  by_cases hneg : len < 0
  · have hsize : (kSmallBuffer : ℤ) = 4000 := rfl
    have havail : s.avail = (kSmallBuffer : ℤ) - (s.cur : ℤ) := rfl
    have hlarge : ¬ (toSizeT len : ℤ) < s.avail := by
      unfold toSizeT
      omega
    rw [if_neg hlarge, List.append_nil] at hspec
    have hzero : len.toNat = 0 := by omega
    dsimp only
    rw [hzero]
    refine ⟨hspec.1, hspec.2.trans ?_⟩
    split_ifs <;> simp [bytesAt]
  · dsimp only
    rw [toSizeT_of_nonneg (by omega) (by omega)] at hspec
    rw [bytesAt_length, append, toSizeT_of_nonneg (by omega) (by omega)]
    exact hspec

variable {snprintf12g : Float → Bytes}

theorem putDouble_spec (h12g : ∀ v, (snprintf12g v).length < kMaxNumericSize) {s : LogStream} (h : Inv s) (v : Float) :
    Inv (s.putDouble snprintf12g v) ∧ (s.putDouble snprintf12g v).text.data =
      s.text.data ++ if (kMaxNumericSize : ℤ) ≤ s.avail then snprintf12g v else [] := by
  have hfit : (snprintf12g v).take (kMaxNumericSize - 1) = snprintf12g v :=
    List.take_of_length_le (Nat.le_sub_one_of_lt (h12g v))
  have hload := CharArray.load_memcpy s.data s.cur (snprintf12g v ++ [0])
  have hwithin := CharArray.memcpy_within s.data s.cur (snprintf12g v ++ [0])
  rw [List.length_append, List.length_singleton] at hload hwithin
  rw [CharArray.load_add] at hload
  unfold putDouble CharArray.snprintf
  rw [hfit]
  by_cases hroom : s.avail ≥ kMaxNumericSize
  · rw [if_pos hroom, if_pos hroom]
    exact putNumber h hroom (List.append_inj_left hload (by simp)) hwithin (h12g v)
  · rw [if_neg hroom, if_neg hroom, List.append_nil]
    exact ⟨h, rfl⟩

/-- **One operator<<.** The piece is added as a whole or not at all. -/
theorem put_spec (h12g : ∀ v, (snprintf12g v).length < kMaxNumericSize) {s : LogStream} (h : Inv s) (p : Piece) :
    Inv (s.put snprintf12g p) ∧ (s.put snprintf12g p).text.data =
      s.text.data ++ if p.Fits snprintf12g s.avail then p.render snprintf12g else [] := by
  cases p with
  | bool v => cases v <;> exact h.append size_lt (cPtr _) 1
  | short v => exact formatInteger_spec h (by have := v.toInt_lt; have := v.le_toInt; omega)
  | unsignedShort v => exact formatInteger_spec h (v := v.toNat) (by have := v.toNat_lt; omega)
  | int v => exact formatInteger_spec h (by have := v.toInt_lt; have := v.le_toInt; omega)
  | unsignedInt v => exact formatInteger_spec h (v := v.toNat) (by have := v.toNat_lt; omega)
  | long v => exact formatInteger_spec h (by have := v.toInt_lt; have := v.le_toInt; omega)
  | unsignedLong v => exact formatInteger_spec h (v := v.toNat) (by have := v.toNat_lt; omega)
  | longLong v => exact formatInteger_spec h (by have := v.toInt_lt; have := v.le_toInt; omega)
  | unsignedLongLong v => exact formatInteger_spec h (v := v.toNat) (by have := v.toNat_lt; omega)
  | pointer p => exact putPointer_spec h p
  | float v => exact putDouble_spec h12g h v.toFloat
  | double v => exact putDouble_spec h12g h v
  | char v => exact h.append size_lt (cPtr [v]) 1
  | cString str => exact putCString_spec h str
  | unsignedCString str => exact putCString_spec h str
  | string v => exact putString_spec h v
  | buffer v => exact putString_spec h v.data
  | append data len => exact append_spec h data len.le_toInt len.toInt_lt

/-! ## Runs -/

inductive Op where
  | stream (p : Piece)
  | resetBuffer

def step (snprintf12g : Float → Bytes) (s : LogStream) : Op → LogStream
  | .stream p => s.put snprintf12g p
  | .resetBuffer => s.resetBuffer

def run (snprintf12g : Float → Bytes) (s : LogStream) (ops : List Op) : LogStream := ops.foldl (step snprintf12g) s

def keep (ps : List Piece) : Op → List Piece
  | .stream p => ps ++ [p]
  | .resetBuffer => []

/-- the pieces streamed since the last resetBuffer -/
def sinceReset (ops : List Op) : List Piece := ops.foldl keep []

/-- the text is made of some of the pieces, in order -/
def Whole (snprintf12g : Float → Bytes) (s : LogStream) (ps : List Piece) : Prop :=
  ∃ kept : List Piece, kept.Sublist ps ∧ s.text.data = kept.flatMap (Piece.render snprintf12g)

/-- one operation -/
theorem step_whole (h12g : ∀ v, (snprintf12g v).length < kMaxNumericSize) {s : LogStream} {ps : List Piece} (h : Inv s)
    (hw : Whole snprintf12g s ps) (o : Op) :
    Inv (step snprintf12g s o) ∧ Whole snprintf12g (step snprintf12g s o) (keep ps o) := by
  cases o with
  | stream p =>
    obtain ⟨hinv, htext⟩ := put_spec h12g h p
    obtain ⟨kept, hsub, hkept⟩ := hw
    refine ⟨hinv, ?_⟩
    by_cases hfit : p.Fits snprintf12g s.avail
    · refine ⟨kept ++ [p], hsub.append (List.Sublist.refl [p]), ?_⟩
      change (s.put snprintf12g p).text.data = _
      rw [htext, if_pos hfit, hkept]
      simp
    · refine ⟨kept, hsub.trans (List.sublist_append_left ps [p]), ?_⟩
      change (s.put snprintf12g p).text.data = _
      rw [htext, if_neg hfit, hkept, List.append_nil]
  | resetBuffer => exact ⟨h.reset, [], List.Sublist.refl [], rfl⟩

theorem run_whole (h12g : ∀ v, (snprintf12g v).length < kMaxNumericSize) {s : LogStream} {ps : List Piece} (h : Inv s)
    (hw : Whole snprintf12g s ps) (ops : List Op) :
    Inv (run snprintf12g s ops) ∧ Whole snprintf12g (run snprintf12g s ops) (ops.foldl keep ps) := by
  induction ops generalizing s ps with
  | nil => exact ⟨h, hw⟩
  | cons o ops ih =>
    obtain ⟨hinv, hwhole⟩ := step_whole h12g h hw o
    exact ih hinv hwhole

/-- **LogStream is safe.** Whatever is streamed, with resets in between: no byte is stored outside the array, one byte of it
stays free, and the text is a sequence of whole pieces of those streamed since the last reset. -/
theorem stream_safe (snprintf12g : Float → Bytes) (h12g : ∀ v, (snprintf12g v).length ≤ 31) (byte : ℕ → UInt8)
    (ops : List Op) :
    let s := run snprintf12g (RawBuffer.new byte) ops
    (∀ a ∈ s.data.stores, a < kSmallBuffer) ∧ 1 ≤ s.avail ∧
      ∃ kept : List Piece, kept.Sublist (sinceReset ops) ∧ s.text.data = kept.flatMap (Piece.render snprintf12g) := by
  have hnew : Inv (RawBuffer.new byte : LogStream) := inv_new (by decide) byte
  have hempty : Whole snprintf12g (RawBuffer.new byte) [] := ⟨[], List.Sublist.refl [], rfl⟩
  obtain ⟨hinv, hwhole⟩ := run_whole (fun v => Nat.lt_succ_of_le (h12g v)) hnew hempty ops
  exact ⟨hinv.stores, hinv.avail_pos, hwhole⟩

/-- numbers and strings before and after a reset; 0.0 is printed as "0" -/
theorem stream_safe_mixed :
    let s := run (fun _ => ascii "0") (RawBuffer.new fun _ => 0)
      [.stream (.cString (some (ascii "size "))), .stream (.long (-7)), .resetBuffer, .stream (.double 0),
        .stream (.append (cPtr (ascii "ab")) (-1))]
    (∀ a ∈ s.data.stores, a < kSmallBuffer) ∧ 1 ≤ s.avail ∧
      ∃ kept : List Piece, kept.Sublist [.double 0, .append (cPtr (ascii "ab")) (-1)] ∧
        s.text.data = kept.flatMap (Piece.render fun _ => ascii "0") :=
  stream_safe (fun _ => ascii "0") (fun _ => by decide) (fun _ => 0) _

end LogStream

end Glacier
